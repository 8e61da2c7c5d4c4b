import TableQuery.Proofs.Token.Concatenation

/-! Why a text has no tokens. The lexer stops at the first place where no token begins, and says whether an
operator, a number or a character is the reason. -/

namespace TableQuery

theorem Comparator.ofSymbol?_eq_none_iff {symbol : String} :
    ofSymbol? symbol = none ↔ ∀ op : Comparator, op.symbol ≠ symbol := by
  constructor
  · rintro h op rfl
    rw [ofSymbol?_symbol] at h
    cases h
  · intro h
    rw [ofSymbol?.eq_def]
    split
    · exact absurd rfl (h .eq)
    · exact absurd rfl (h .ne)
    · exact absurd rfl (h .lt)
    · exact absurd rfl (h .le)
    · exact absurd rfl (h .gt)
    · exact absurd rfl (h .ge)
    · rfl

namespace Token

open Text

/-! ### One token -/

/-- Digits, a point, digits and another point. -/
def HasSecondPoint (cs : List Char) : Prop :=
  ∃ whole fraction rest, cs = whole ++ '.' :: (fraction ++ '.' :: rest) ∧ (∀ c ∈ whole, c.isDigit) ∧
    ∀ c ∈ fraction, c.isDigit

/-- No token begins the text, for this reason. -/
inductive NoToken : QueryError → List Char → Prop
  | operator {w rest : List Char} (hne : w ≠ []) (hw : ∀ c ∈ w, isOperatorChar c)
      (hend : ∀ c ∈ rest.head?, isOperatorChar c = false)
      (hsymbol : ∀ op : Comparator, op.symbol ≠ String.ofList w) :
      NoToken (.unknownComparator (String.ofList w)) (w ++ rest)
  | number {c : Char} {cs : List Char} (hc : c.isDigit) (hpoint : HasSecondPoint (c :: cs)) :
      NoToken (.malformed .secondPoint) (c :: cs)
  | negative {c : Char} {cs : List Char} (hc : c.isDigit) (hpoint : HasSecondPoint (c :: cs)) :
      NoToken (.malformed .secondPoint) ('-' :: c :: cs)
  | character {c : Char} {rest : List Char} (hblank : isBlank c = false) (hmark : ofChar? c = none)
      (hop : isOperatorChar c = false) (hdigit : c.isDigit = false) (hstart : isWordStart c = false)
      (hminus : c = '-' → ∀ d ∈ rest.head?, d.isDigit = false) :
      NoToken (.malformed (.unsupported c)) (c :: rest)

section One

variable {negative : Bool} {c : Char} {cs : List Char} {err : QueryError}

theorem takeNumber_of_hasSecondPoint (h : HasSecondPoint cs) :
    takeNumber negative cs = .error (.malformed .secondPoint) := by
  obtain ⟨whole, fraction, rest, rfl, hwhole, hfraction⟩ := h
  have hpoint : ∀ (rest : List Char), ∀ c ∈ ('.' :: rest).head?, c.isDigit = false := by
    rintro rest c ⟨⟩
    rfl
  exact takeNumber_second_point (dropWhile_run hwhole (hpoint _)) (dropWhile_run hfraction (hpoint rest))

theorem takeNumber_eq_error_iff :
    takeNumber negative cs = .error err ↔ err = .malformed .secondPoint ∧ HasSecondPoint cs := by
  constructor
  · intro h
    cases numberShape cs with
    | whole hnone =>
        rw [takeNumber_whole hnone] at h
        cases h
    | point hfraction hnone =>
        rw [takeNumber_point hfraction hnone] at h
        cases h
    | @secondPoint fraction rest hfraction hrest =>
        rw [takeNumber_second_point hfraction hrest] at h
        refine ⟨(Except.error.inj h).symm, cs.takeWhile Char.isDigit, fraction.takeWhile Char.isDigit, rest, ?_,
          fun c hc => List.mem_takeWhile_imp hc, fun c hc => List.mem_takeWhile_imp hc⟩
        rw [← hrest, List.takeWhile_append_dropWhile, ← hfraction, List.takeWhile_append_dropWhile]
  · rintro ⟨rfl, hpoint⟩
    exact takeNumber_of_hasSecondPoint hpoint

theorem take_of_noToken (h : NoToken err (c :: cs)) : take c cs = .error err := by
  generalize hall : c :: cs = all at h
  cases h with
  | @operator w rest hne hw hend hsymbol =>
      have hc : isOperatorChar c := by
        obtain ⟨d, w, rfl⟩ := List.exists_cons_of_ne_nil hne
        rw [(List.cons.inj hall).1]
        exact hw d List.mem_cons_self
      have hrun : (c :: cs).takeWhile isOperatorChar = w := by rw [hall, takeWhile_run hw hend]
      rw [take_operator (ofChar?_eq_none (by decide) hc) hc, hrun, Comparator.ofSymbol?_eq_none_iff.2 hsymbol]
  | number hc hpoint =>
      cases hall
      rw [take_digit hc, takeNumber_of_hasSecondPoint hpoint]
  | negative hc hpoint =>
      cases hall
      rw [take_minus hc, takeNumber_of_hasSecondPoint hpoint]
  | character hblank hmark hop hdigit hstart hminus =>
      cases hall
      refine take_unsupported hmark hop ?_ hdigit hstart
      rw [Bool.eq_false_iff]
      intro h
      obtain ⟨hc, hhead⟩ := Bool.and_eq_true_iff.1 h
      obtain ⟨d, hd, hisDigit⟩ := (Option.any_eq_true _ _).1 hhead
      rw [hminus (of_decide_eq_true hc) d hd] at hisDigit
      cases hisDigit

theorem noToken_of_take (hblank : isBlank c = false) (h : take c cs = .error err) : NoToken err (c :: cs) := by
  cases beginning c cs with
  | word hword =>
      rw [take_of_isWordStart hword] at h
      cases h
  | mark _ hmark =>
      rw [take_mark hmark] at h
      cases h
  | operator _ hmark hop =>
      rw [take_operator hmark hop] at h
      split at h
      · cases h
      next hsymbol =>
        cases h
        have hne : (c :: cs).takeWhile isOperatorChar ≠ [] := by
          rw [List.takeWhile_cons_of_pos hop]
          exact List.cons_ne_nil _ _
        have hend : ∀ d ∈ ((c :: cs).dropWhile isOperatorChar).head?, isOperatorChar d = false :=
          head?_dropWhile
        have hnone := NoToken.operator hne (fun d hd => List.mem_takeWhile_imp hd) hend
          (Comparator.ofSymbol?_eq_none_iff.1 hsymbol)
        rwa [List.takeWhile_append_dropWhile] at hnone
  | number _ hdigit =>
      rw [take_digit hdigit] at h
      obtain ⟨rfl, hpoint⟩ := takeNumber_eq_error_iff.1 h
      exact .number hdigit hpoint
  | negative hdigit =>
      rw [take_minus hdigit] at h
      obtain ⟨rfl, hpoint⟩ := takeNumber_eq_error_iff.1 h
      exact .negative hdigit hpoint
  | unsupported hword hmark hop hminus hdigit =>
      rw [take_unsupported hmark hop hminus hdigit hword] at h
      cases h
      refine .character hblank hmark hop hdigit hword fun hc d hd => ?_
      rw [hc, Option.mem_def.1 hd] at hminus
      exact hminus

end One

/-! ### All tokens of a text -/

/-- The first place of the text that belongs to no token is one where none begins, for this reason. -/
inductive Stray (err : QueryError) : List Char → Prop
  | here {cs : List Char} (h : NoToken err cs) : Stray err cs
  | blank {c : Char} {cs : List Char} (hc : isBlank c) (h : Stray err cs) : Stray err (c :: cs)
  | token {c : Char} {cs rest : List Char} {t : Token} (hc : isBlank c = false)
      (htake : take c cs = .ok (t, rest)) (h : Stray err rest) : Stray err (c :: cs)

theorem Stray.ne_invalidSchema {cs : List Char} {err : QueryError} (h : Stray err cs) (fault : SchemaFault) :
    err ≠ .invalidSchema fault := by
  induction h with
  | here h => cases h <;> nofun
  | blank _ _ ih => exact ih
  | token _ _ _ ih => exact ih

theorem NoToken.exists_cons {cs : List Char} {err : QueryError} (h : NoToken err cs) :
    ∃ c rest, cs = c :: rest ∧ isBlank c = false := by
  cases h with
  | @operator w rest hne hw hend hsymbol =>
      obtain ⟨c, w, rfl⟩ := List.exists_cons_of_ne_nil hne
      refine ⟨c, w ++ rest, rfl, ?_⟩
      rw [Bool.eq_false_iff]
      intro hblank
      have hop := hw c List.mem_cons_self
      rw [isOperatorChar_of_isBlank hblank] at hop
      cases hop
  | number hc hpoint => exact ⟨_, _, rfl, isBlank_of_isWordChar (isWordChar_of_isDigit hc)⟩
  | negative hc hpoint => exact ⟨_, _, rfl, rfl⟩
  | character hblank => exact ⟨_, _, rfl, hblank⟩

/-- **The lexer fails exactly where no token begins**, for the reason that is found there. -/
theorem scan_eq_error_iff {cs : List Char} {err : QueryError} : scan cs = .error err ↔ Stray err cs := by
  constructor
  · intro h
    fun_induction scan cs with
    | case1 => cases h
    | case2 c cs hblank ih => exact .blank hblank (ih h)
    | case3 c cs hblank err' htake =>
        cases h
        exact .here (noToken_of_take (by simpa using hblank) htake)
    | case4 c cs hblank t rest htake hlength ih =>
        rcases bind_eq_error_iff.1 h with hrest | ⟨ts, -, hpure⟩
        · exact .token (by simpa using hblank) htake (ih hrest)
        · cases hpure
  · intro h
    induction h with
    | here h =>
        obtain ⟨c, rest, rfl, hblank⟩ := h.exists_cons
        rw [scan_cons_eq hblank, take_of_noToken h]
        rfl
    | blank hc _ ih => rw [scan_blank_cons hc, ih]
    | token hc htake _ ih =>
        rw [scan_cons_eq hc, htake, ok_bind, ih]
        rfl

end Token
end TableQuery
