import TableQuery.Proofs.Token.Concatenation

/-! Letter case carries no meaning. The tokens of a text in small letters are those of the text, with the
words of the identifiers in small letters. -/

namespace TableQuery

open Text

namespace Text

/-! ### Small letters -/

theorem toLower_eq_self_or (c : Char) : c.toLower = c ∨ c.isAlpha ∧ c.toLower.isAlpha := by
  by_cases hupper : c.isUpper
  · right
    have hrange := (isUpper_iff c).1 hupper
    have hcode := toNat_toLower_of_isUpper hupper
    rw [isAlpha_iff, isAlpha_iff]
    omega
  · exact Or.inl (toLower_of_not_isUpper hupper)

/-- A class that holds all letters of ASCII, or none. -/
theorem class_toLower {p : Char → Bool} {b : Bool} (hp : ∀ c, c.isAlpha → p c = b) (c : Char) :
    p c.toLower = p c := by
  rcases toLower_eq_self_or c with heq | ⟨hc, hlower⟩
  · rw [heq]
  · rw [hp c hc, hp _ hlower]

theorem toLower_of_class {p : Char → Bool} (hp : ∀ c, c.isAlpha → p c = false) {c : Char} (h : p c) :
    c.toLower = c := by
  rcases toLower_eq_self_or c with heq | ⟨hc, -⟩
  · exact heq
  · rw [hp c hc] at h
    cases h

theorem isWordStart_of_isAlpha (c : Char) (h : c.isAlpha) : isWordStart c = true := by
  rw [isWordStart, isAlphabetic_of_isAlpha h, Bool.true_or]

theorem isWordChar_of_isAlpha (c : Char) (h : c.isAlpha) : isWordChar c = true :=
  isWordChar_of_isWordStart (isWordStart_of_isAlpha c h)

theorem isBlank_of_isAlpha (c : Char) (h : c.isAlpha) : isBlank c = false :=
  isBlank_of_isWordChar (isWordChar_of_isAlpha c h)

theorem isDigit_of_isAlpha (c : Char) (h : c.isAlpha) : c.isDigit = false :=
  not_isDigit_of_isWordStart (isWordStart_of_isAlpha c h)

theorem isOperatorChar_of_isAlpha (c : Char) (h : c.isAlpha) : Token.isOperatorChar c = false :=
  Token.isOperatorChar_eq_false (by decide) (isWordStart_of_isAlpha c h)

theorem toUpper_toLower (c : Char) : c.toLower.toUpper = c.toUpper := by
  by_cases hupper : c.isUpper
  · have hrange := (isUpper_iff c).1 hupper
    have hcode := toNat_toLower_of_isUpper hupper
    have hlower : c.toLower.isLower := by
      rw [isLower_iff]
      omega
    have hnot : ¬ c.isLower := by
      rw [isLower_iff]
      omega
    have hback := toNat_toUpper_of_isLower hlower
    rw [toUpper_of_not_isLower hnot]
    refine Char.ext (UInt32.toNat_inj.1 ?_)
    show c.toLower.toUpper.toNat = c.toNat
    omega
  · rw [toLower_of_not_isUpper hupper]

theorem capital_toLower (c : Char) : capital c.toLower = capital c := by
  rcases toLower_eq_self_or c with heq | ⟨hc, hlower⟩
  · rw [heq]
  · have hne : ∀ d : Char, d.isAlpha → d ≠ 'ı' ∧ d ≠ 'ſ' := by
      rintro d hd
      constructor
      · rintro rfl
        exact absurd hd (by decide)
      · rintro rfl
        exact absurd hd (by decide)
    rw [capital, capital, if_neg (hne _ hlower).1, if_neg (hne _ hlower).2, if_neg (hne _ hc).1,
      if_neg (hne _ hc).2, toUpper_toLower]

section Runs

variable {p : Char → Bool}

theorem takeWhile_smallLetters (hp : ∀ c, p c.toLower = p c) (cs : List Char) :
    (smallLetters cs).takeWhile p = smallLetters (cs.takeWhile p) := by
  rw [smallLetters, List.takeWhile_map]
  exact congrArg (fun q => (cs.takeWhile q).map Char.toLower) (funext hp)

theorem dropWhile_smallLetters (hp : ∀ c, p c.toLower = p c) (cs : List Char) :
    (smallLetters cs).dropWhile p = smallLetters (cs.dropWhile p) := by
  rw [smallLetters, List.dropWhile_map]
  exact congrArg (fun q => (cs.dropWhile q).map Char.toLower) (funext hp)

/-- Runs without letters stay as they are. -/
theorem takeWhile_smallLetters_eq (hp : ∀ c, c.isAlpha → p c = false) (cs : List Char) :
    (smallLetters cs).takeWhile p = cs.takeWhile p := by
  rw [takeWhile_smallLetters (class_toLower hp), smallLetters]
  exact (List.map_congr_left fun c hc => toLower_of_class hp (List.mem_takeWhile_imp hc)).trans (List.map_id _)

theorem head?_smallLetters_ne {d : Char} (hd : d.isAlpha = false) {cs : List Char} (h : ∀ c ∈ cs.head?, c ≠ d) :
    ∀ c ∈ (smallLetters cs).head?, c ≠ d := by
  intro c hc
  rw [smallLetters, List.head?_map] at hc
  obtain ⟨c', hc', rfl⟩ := Option.mem_map.1 hc
  rcases toLower_eq_self_or c' with heq | ⟨-, hlower⟩
  · rw [heq]
    exact h c' hc'
  · rintro rfl
    rw [hd] at hlower
    cases hlower

theorem any_head?_smallLetters (hp : ∀ c, p c.toLower = p c) (cs : List Char) :
    (smallLetters cs).head?.any p = cs.head?.any p := by
  cases cs with
  | nil => rfl
  | cons c cs => exact hp c

end Runs
end Text

namespace Token

/-- The token, with the word of an identifier in small letters. -/
def small : Token → Token
  | .ident word => .ident (String.ofList (smallLetters word.toList))
  | t => t

/-- What is read of a text, in small letters. -/
def smallRest (r : Token × List Char) : Token × List Char := (r.1.small, smallLetters r.2)

theorem small_ofNumeral (n : Number.Numeral) : (ofNumeral n).small = ofNumeral n := by
  rcases ofNumeral_cases n with ⟨k, hk⟩ | ⟨x, hx⟩
  · rw [hk]
    rfl
  · rw [hx]
    rfl

theorem small_of_ofChar? {c : Char} {t : Token} (h : ofChar? c = some t) : t.small = t := by
  unfold ofChar? at h
  split at h <;> cases h <;> rfl

section

variable {c : Char} {negative : Bool} {second : String}

theorem takeNumber_smallLetters (cs : List Char) :
    takeNumber negative (smallLetters cs) = (takeNumber negative cs).map smallRest := by
  have hrest : ∀ cs : List Char,
      (smallLetters cs).dropWhile Char.isDigit = smallLetters (cs.dropWhile Char.isDigit) :=
    dropWhile_smallLetters (class_toLower isDigit_of_isAlpha)
  have hrun := takeWhile_smallLetters_eq isDigit_of_isAlpha
  have hpoint : ∀ {cs rest : List Char}, cs.dropWhile Char.isDigit = '.' :: rest →
      (smallLetters cs).dropWhile Char.isDigit = '.' :: smallLetters rest := by
    intro cs rest h
    rw [hrest, h]
    rfl
  have hnopoint : ∀ {cs : List Char}, (∀ c ∈ (cs.dropWhile Char.isDigit).head?, c ≠ '.') →
      ∀ c ∈ ((smallLetters cs).dropWhile Char.isDigit).head?, c ≠ '.' := by
    intro cs h
    rw [hrest]
    exact head?_smallLetters_ne rfl h
  cases numberShape cs with
  | whole h =>
      rw [takeNumber_whole (hnopoint h), takeNumber_whole h, hrun, hrest, Except.map, smallRest,
        small_ofNumeral]
  | point h hfraction =>
      rw [takeNumber_point (hpoint h) (hnopoint hfraction), takeNumber_point h hfraction, hrun, hrun, hrest,
        Except.map, smallRest, small_ofNumeral]
  | secondPoint h hafter =>
      rw [takeNumber_second_point (hpoint h) (hpoint hafter), takeNumber_second_point h hafter]
      rfl

theorem takeSecond_smallLetters (cs : List Char) :
    takeSecond second (smallLetters cs) = (takeSecond second cs).map smallLetters := by
  have hblank := dropWhile_smallLetters (class_toLower isBlank_of_isAlpha) cs
  unfold takeSecond
  rw [hblank]
  generalize cs.dropWhile isBlank = own
  cases own with
  | nil => rfl
  | cons c own =>
      have halpha : isAlphabetic c.toLower = isAlphabetic c :=
        class_toLower (fun c hc => isAlphabetic_of_isAlpha hc) c
      have hclass := class_toLower isWordChar_of_isAlpha
      have hupper : ((smallLetters (c :: own)).takeWhile isWordChar).map Char.toUpper =
          ((c :: own).takeWhile isWordChar).map Char.toUpper := by
        rw [takeWhile_smallLetters hclass, smallLetters, List.map_map]
        exact List.map_congr_left fun c _ => toUpper_toLower c
      have hdrop := dropWhile_smallLetters hclass (c :: own)
      have hcons : smallLetters (c :: own) = c.toLower :: smallLetters own := rfl
      rw [hcons] at hupper hdrop ⊢
      simp only [halpha, hupper, hdrop]
      split <;> rfl

theorem upper_smallLetters (w : List Char) : upper (smallLetters w) = upper w := by
  rw [upper, upper, capitals, capitals, smallLetters, List.map_map]
  exact congrArg String.ofList (List.map_congr_left fun c _ => capital_toLower c)

theorem ofWord_smallLetters (w : List Char) : ofWord (smallLetters w) = (ofWord w).small := by
  rw [ofWord, ofWord, upper_smallLetters]
  cases Keyword.ofWord? (upper w) with
  | some k => rfl
  | none => rw [small, String.toList_ofList]

theorem compound?_smallLetters (w after : List Char) :
    compound? (smallLetters w) (smallLetters after) = (compound? w after).map smallRest := by
  unfold compound?
  rw [upper_smallLetters]
  cases Keyword.compound? (upper w) with
  | none => rfl
  | some r =>
      simp only [Option.bind_some, takeSecond_smallLetters]
      cases takeSecond r.1 after <;> rfl

theorem takeWord_smallLetters (cs : List Char) : takeWord (smallLetters cs) = smallRest (takeWord cs) := by
  have hclass := class_toLower isWordChar_of_isAlpha
  rw [takeWord_eq, takeWord_eq, takeWhile_smallLetters hclass, dropWhile_smallLetters hclass,
    compound?_smallLetters, ofWord_smallLetters]
  cases compound? (cs.takeWhile isWordChar) (cs.dropWhile isWordChar) <;> rfl

theorem toLower_of_not_isWordStart (h : isWordStart c = false) : c.toLower = c := by
  rcases toLower_eq_self_or c with heq | ⟨halpha, -⟩
  · exact heq
  · rw [isWordStart_of_isAlpha c halpha] at h
    cases h

/-- A token is read in small letters as it is read in any. -/
theorem take_smallLetters (c : Char) (cs : List Char) :
    take c.toLower (smallLetters cs) = (take c cs).map smallRest := by
  have hcons : ∀ (c : Char) cs, c.toLower :: smallLetters cs = smallLetters (c :: cs) := fun _ _ => rfl
  cases beginning c cs with
  | word hword =>
      have hsmall : isWordStart c.toLower := (class_toLower isWordStart_of_isAlpha c).trans hword
      rw [take_of_isWordStart hsmall, take_of_isWordStart hword, hcons, takeWord_smallLetters]
      rfl
  | mark hword hmark =>
      rw [toLower_of_not_isWordStart hword, take_mark hmark, take_mark hmark, Except.map, smallRest,
        small_of_ofChar? hmark]
  | operator hword hmark hop =>
      have hmark' : ofChar? c.toLower = none := by rw [toLower_of_not_isWordStart hword, hmark]
      have hop' : isOperatorChar c.toLower := (class_toLower isOperatorChar_of_isAlpha c).trans hop
      rw [take_operator hmark' hop', take_operator hmark hop, hcons,
        takeWhile_smallLetters_eq isOperatorChar_of_isAlpha,
        dropWhile_smallLetters (class_toLower isOperatorChar_of_isAlpha)]
      split <;> rfl
  | number hword hdigit =>
      have hdigit' : c.toLower.isDigit := (class_toLower isDigit_of_isAlpha c).trans hdigit
      rw [take_digit hdigit', take_digit hdigit, hcons]
      exact takeNumber_smallLetters (c :: cs)
  | @negative d cs hdigit =>
      have hd : d.toLower.isDigit := (class_toLower isDigit_of_isAlpha d).trans hdigit
      rw [take_minus hdigit, ← takeNumber_smallLetters]
      exact take_minus hd (smallLetters cs)
  | unsupported hword hmark hop hminus hdigit =>
      have hminus' : (c = '-' && (smallLetters cs).head?.any Char.isDigit) = false := by
        rw [any_head?_smallLetters (class_toLower isDigit_of_isAlpha), hminus]
      rw [toLower_of_not_isWordStart hword, take_unsupported hmark hop hminus' hdigit hword,
        take_unsupported hmark hop hminus hdigit hword]
      rfl

/-- **The tokens of a text in small letters** are those of the text, with the words of its identifiers in small
letters; what is refused is refused alike. -/
theorem scan_smallLetters (cs : List Char) : scan (smallLetters cs) = (scan cs).map (List.map small) := by
  match cs with
  | [] =>
      rw [smallLetters, List.map_nil, scan_nil]
      rfl
  | c :: cs =>
      have hcons : smallLetters (c :: cs) = c.toLower :: smallLetters cs := rfl
      have hclass : isBlank c.toLower = isBlank c := class_toLower isBlank_of_isAlpha c
      rw [hcons]
      cases hblank : isBlank c with
      | true =>
          rw [scan_blank_cons (hclass.trans hblank), scan_blank_cons hblank]
          exact scan_smallLetters cs
      | false =>
          rw [scan_cons_eq (hclass.trans hblank), scan_cons_eq hblank, take_smallLetters]
          cases htake : take c cs with
          | error err => rfl
          | ok r =>
              have hshort : r.2.length < cs.length + 1 := Nat.lt_succ_of_le (take_suffix htake).length_le
              have hrest := scan_smallLetters r.2
              show (scan (smallLetters r.2)).map (r.1.small :: ·) =
                ((scan r.2).map (r.1 :: ·)).map (List.map small)
              rw [hrest]
              cases scan r.2 <;> rfl
termination_by cs.length

end
end Token
end TableQuery
