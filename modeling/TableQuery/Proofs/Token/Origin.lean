import TableQuery.Proofs.Literal.Stretch
import TableQuery.Proofs.Token.Beginning

/-! Which stretches of a labelled text a token is read from. Tokens end only where stretches do, since a
label is a part of a word, and a token other than an identifier is read from no label. -/

namespace TableQuery

open Text

/-! ### Words without an underscore -/

theorem Keyword.underscore_not_mem_of_ofWord? {word : String} {k : Keyword} (h : ofWord? word = some k) :
    '_' ∉ word.toList := by
  rw [ofWord?.eq_def] at h
  split at h
  all_goals first | decide | cases h

theorem Keyword.underscore_not_mem_of_compound? {word second : String} {k : Keyword}
    (h : compound? word = some (second, k)) : '_' ∉ word.toList ∧ '_' ∉ second.toList := by
  rw [compound?.eq_def] at h
  split at h
  all_goals cases h
  all_goals decide

theorem Token.underscore_mem_upper {w : List Char} (h : '_' ∈ w) : '_' ∈ (upper w).toList := by
  rw [upper, String.toList_ofList, capitals]
  exact List.mem_map.2 ⟨'_', h, by decide⟩

namespace Stretch

variable {ss : List Stretch}

/-! ### Written stretches in front of a text -/

/-- The stretches begin with written ones, and have this text behind them. -/
def Skips (ss : List Stretch) (after : List Char) : Prop :=
  ∃ own rest, ss = own ++ rest ∧ text rest = after ∧ Written own

variable {after : List Char}

theorem Skips.refl (ss : List Stretch) : Skips ss (text ss) := ⟨[], ss, rfl, rfl, fun _ h => nomatch h⟩

theorem Skips.trans_written {own rest : List Stretch} (h : Skips rest after) (hown : Written own) :
    Skips (own ++ rest) after := by
  obtain ⟨front, back, rfl, htext, hfront⟩ := h
  refine ⟨own ++ front, back, (List.append_assoc _ _ _).symm, htext, fun n hn => ?_⟩
  exact (List.mem_append.1 hn).elim (hown n) (hfront n)

theorem Skips.run {p : Char → Bool} (hp : Whole p) (h : Skips ss after) (hnone : '_' ∉ after.takeWhile p) :
    Skips ss (after.dropWhile p) := by
  obtain ⟨own, rest, rfl, rfl, hown⟩ := h
  refine Skips.trans_written ⟨rest.takeWhile (within p), rest.dropWhile (within p), ?_, ?_, ?_⟩ hown
  · rw [List.takeWhile_append_dropWhile]
  · rw [dropWhile_text hp]
  · rw [takeWhile_text hp] at hnone
    refine fun n hn => hnone (List.mem_flatMap.2 ⟨.label n, hn, ?_⟩)
    rw [chars, label_eq_cons]
    exact List.mem_cons_self

/-- A run of a class to which the underscore does not belong is written. -/
theorem Skips.plain {p : Char → Bool} (hp : p '_' = false) (h : Skips ss after) :
    Skips ss (after.dropWhile p) := by
  refine h.run (Or.inr hp) fun hmem => ?_
  rw [List.mem_takeWhile_imp hmem] at hp
  cases hp

theorem Skips.tail {c : Char} (hc : c ≠ '_') (h : Skips ss (c :: after)) : Skips ss after := by
  obtain ⟨own, rest, rfl, htext, hown⟩ := h
  refine Skips.trans_written ?_ hown
  cases rest with
  | nil => cases htext
  | cons s rest =>
      cases s with
      | char d =>
          cases htext
          exact ⟨[.char c], rest, rfl, rfl, by simp [Written]⟩
      | label n => exact absurd (List.cons.inj htext).1.symm hc

end Stretch

namespace Token

variable {c : Char} {cs after : List Char} {t : Token} {ss : List Stretch}

theorem skips_of_takeNumber {negative : Bool} (hss : Stretch.Skips ss cs)
    (h : takeNumber negative cs = .ok (t, after)) : Stretch.Skips ss after ∧ ∀ w, t ≠ .ident w := by
  have hdigits : Char.isDigit '_' = false := rfl
  refine ⟨?_, ?_⟩
  · cases numberShape cs with
    | whole hnone =>
        rw [takeNumber_whole hnone] at h
        cases h
        exact hss.plain hdigits
    | point hfraction hnone =>
        rw [takeNumber_point hfraction hnone] at h
        cases h
        exact ((hfraction ▸ hss.plain hdigits).tail (by decide)).plain hdigits
    | secondPoint hfraction hafter =>
        rw [takeNumber_second_point hfraction hafter] at h
        cases h
  · rintro w rfl
    rcases takeNumber_token h with ⟨n, hn⟩ | ⟨x, hx⟩
    · cases hn
    · cases hx

theorem skips_of_takeSecond {second : String} (hsecond : '_' ∉ second.toList) (hss : Stretch.Skips ss cs)
    (h : takeSecond second cs = some after) : Stretch.Skips ss after := by
  have hblank : isBlank '_' = false := by decide
  replace hss := hss.plain hblank
  unfold takeSecond at h
  generalize cs.dropWhile isBlank = cs' at h hss
  cases cs' with
  | nil => cases h
  | cons c rest =>
      simp only at h
      split at h
      next hspells =>
        cases h
        have hword : ((c :: rest).takeWhile isWordChar).map Char.toUpper = second.toList := by
          simpa using (Bool.and_eq_true_iff.1 hspells).2
        refine hss.run Stretch.whole_isWordChar fun hmem => hsecond ?_
        rw [← hword]
        exact List.mem_map.2 ⟨'_', hmem, by decide⟩
      · cases h

/-- A token is an identifier that is the word of some stretches, or it is read from written ones. -/
theorem take_cut (hss : Stretch.text ss = c :: cs) (h : take c cs = .ok (t, after)) :
    Stretch.Skips ss after ∧ (∀ w, t ≠ .ident w) ∨
    ∃ own rest, ss = own ++ rest ∧ Stretch.text rest = after ∧ IsWord (Stretch.text own) ∧
      Keyword.ofWord? (upper (Stretch.text own)) = none ∧ t = .ident (String.ofList (Stretch.text own)) := by
  have hall : Stretch.Skips ss (c :: cs) := hss ▸ Stretch.Skips.refl ss
  cases beginning c cs with
  | word hstart =>
      rw [take_of_isWordStart hstart] at h
      rcases takeWord_cases (Except.ok.inj h) with
        ⟨rfl, hnone, rfl⟩ | ⟨k, rfl, hk, rfl⟩ | ⟨k, second, rfl, hk, hsecond⟩
      · have hword : IsWord ((c :: cs).takeWhile isWordChar) := by
          refine ⟨⟨c, _, List.takeWhile_cons_of_pos (isWordChar_of_isWordStart hstart), hstart⟩,
            fun d hd => ?_⟩
          exact List.mem_takeWhile_imp hd
        rw [← hss, Stretch.takeWhile_text Stretch.whole_isWordChar] at hword hnone
        refine Or.inr ⟨ss.takeWhile (Stretch.within isWordChar), ss.dropWhile (Stretch.within isWordChar), ?_, ?_,
          hword, hnone, ?_⟩
        · rw [List.takeWhile_append_dropWhile]
        · rw [← hss, Stretch.dropWhile_text Stretch.whole_isWordChar]
        · rw [← hss, Stretch.takeWhile_text Stretch.whole_isWordChar]
      · refine Or.inl ⟨hall.run Stretch.whole_isWordChar fun hmem => ?_, by simp⟩
        exact Keyword.underscore_not_mem_of_ofWord? hk (underscore_mem_upper hmem)
      · obtain ⟨hfirst, hsecond'⟩ := Keyword.underscore_not_mem_of_compound? hk
        have hskip := hall.run Stretch.whole_isWordChar fun hmem => hfirst (underscore_mem_upper hmem)
        exact Or.inl ⟨skips_of_takeSecond hsecond' hskip hsecond, by simp⟩
  | mark _ hmark =>
      rw [take_mark hmark] at h
      cases h
      refine Or.inl ⟨hall.tail ?_, ?_⟩
      · rintro rfl
        cases hmark
      · rintro w rfl
        rw [ofChar?.eq_def] at hmark
        split at hmark <;> cases hmark
  | operator _ hmark hop =>
      rw [take_operator hmark hop] at h
      split at h
      · cases h
        exact Or.inl ⟨hall.plain (by decide), by simp⟩
      · cases h
  | number _ hdigit =>
      rw [take_digit hdigit] at h
      exact Or.inl (skips_of_takeNumber hall h)
  | negative hdigit =>
      rw [take_minus hdigit] at h
      exact Or.inl (skips_of_takeNumber (hall.tail (by decide)) h)
  | unsupported hword hmark hop hminus hdigit =>
      rw [take_unsupported hmark hop hminus hdigit hword] at h
      cases h

end Token

/-! ### All tokens of a text -/

/-- The tokens of some stretches, each with the stretches that it is read from. -/
inductive Lexemes : List Stretch → List (Token × List Stretch) → Prop
  | eof : Lexemes [] [(.eof, [])]
  | blank {c : Char} {ss : List Stretch} {us : List (Token × List Stretch)} (hc : isBlank c)
      (hrest : Lexemes ss us) : Lexemes (.char c :: ss) us
  | token {c : Char} {cs : List Char} {own rest : List Stretch} {t : Token}
      {us : List (Token × List Stretch)} (hc : isBlank c = false) (hown : Stretch.text own = c :: cs)
      (ht : Token.take c (cs ++ Stretch.text rest) = .ok (t, Stretch.text rest))
      (hrest : Lexemes rest us) : Lexemes (own ++ rest) ((t, own) :: us)

theorem Token.exists_of_scan {c : Char} {cs : List Char} {ts : List Token} (hc : isBlank c = false)
    (h : scan (c :: cs) = .ok ts) :
    ∃ t rest others, take c cs = .ok (t, rest) ∧ scan rest = .ok others ∧ ts = t :: others := by
  rw [scan, if_neg (by simp [hc])] at h
  split at h
  · cases h
  next t rest htake =>
    obtain ⟨others, hothers, h⟩ := bind_eq_ok_iff.1 h
    cases h
    exact ⟨t, rest, others, htake, hothers, rfl⟩

theorem exists_lexemes {ts : List Token} (ss : List Stretch) (h : Token.scan (Stretch.text ss) = .ok ts) :
    ∃ us, Lexemes ss us ∧ us.map Prod.fst = ts := by
  match hss : Stretch.text ss with
  | [] =>
      rw [hss, Token.scan] at h
      cases h
      obtain rfl := Stretch.text_eq_nil_iff.1 hss
      exact ⟨_, .eof, rfl⟩
  | c :: cs =>
      cases hc : isBlank c with
      | true =>
          obtain ⟨rest, rfl⟩ : ∃ rest, ss = .char c :: rest := by
            cases ss with
            | nil => cases hss
            | cons s rest =>
                cases s with
                | char d => exact ⟨rest, by rw [(List.cons.inj hss).1]⟩
                | label n =>
                    rw [← (List.cons.inj hss).1] at hc
                    exact absurd hc (by decide)
          rw [Stretch.text_char, Token.scan, if_pos hc] at h
          obtain ⟨us, hus, hts⟩ := exists_lexemes rest h
          exact ⟨us, .blank hc hus, hts⟩
      | false =>
          rw [hss] at h
          obtain ⟨t, after, others, htake, hothers, rfl⟩ := Token.exists_of_scan hc h
          obtain ⟨own, rest, rfl, rfl⟩ : ∃ own rest, ss = own ++ rest ∧ Stretch.text rest = after := by
            rcases Token.take_cut hss htake with
              ⟨⟨own, rest, hcut, hrest, -⟩, -⟩ | ⟨own, rest, hcut, hrest, -⟩
            · exact ⟨own, rest, hcut, hrest⟩
            · exact ⟨own, rest, hcut, hrest⟩
          have hlength := Token.length_take htake
          cases hown : Stretch.text own with
          | nil =>
              rw [Stretch.text_append, hown, List.nil_append] at hss
              rw [hss] at hlength
              exact absurd hlength (Nat.lt_irrefl _)
          | cons d ds =>
              rw [Stretch.text_append, hown, List.cons_append] at hss
              cases hss
              obtain ⟨us, hus, rfl⟩ := exists_lexemes rest hothers
              exact ⟨(t, own) :: us, .token hc hown htake hus, rfl⟩
termination_by (Stretch.text ss).length
decreasing_by all_goals simp_all

namespace Lexemes

variable {ss own : List Stretch} {us : List (Token × List Stretch)} {t : Token}

/-- **Every token but an identifier is read from written stretches.** An identifier is the word of its
stretches, and no keyword. -/
theorem ident_or_written (h : Lexemes ss us) (hmem : (t, own) ∈ us) :
    t = .ident (String.ofList (Stretch.text own)) ∧ IsWord (Stretch.text own) ∧
      Keyword.ofWord? (Token.upper (Stretch.text own)) = none ∨
    Stretch.Written own ∧ ∀ w, t ≠ .ident w := by
  induction h with
  | eof =>
      cases List.mem_singleton.1 hmem
      exact Or.inr ⟨nofun, nofun⟩
  | blank _ _ ih => exact ih hmem
  | @token c cs own' rest t' us hc hown ht _ ih =>
      rcases List.mem_cons.1 hmem with heq | hlater
      · cases heq
        have htext : Stretch.text (own ++ rest) = c :: (cs ++ Stretch.text rest) := by
          rw [Stretch.text_append, hown, List.cons_append]
        rcases Token.take_cut htext ht with
          ⟨⟨front, back, hcut, hback, hfront⟩, hno⟩ | ⟨front, back, hcut, hback, hword, hnone, hid⟩
        · obtain ⟨rfl, rfl⟩ := Stretch.append_inj hcut hback.symm
          exact Or.inr ⟨hfront, hno⟩
        · obtain ⟨rfl, rfl⟩ := Stretch.append_inj hcut hback.symm
          exact Or.inl ⟨hid, hword, hnone⟩
      · exact ih hlater

theorem isInfix (h : Lexemes ss us) (hmem : (t, own) ∈ us) : own <:+: ss := by
  induction h with
  | eof =>
      cases List.mem_singleton.1 hmem
      exact List.infix_rfl
  | blank _ _ ih => exact List.infix_cons (ih hmem)
  | @token c cs own' rest t' us _ _ _ _ ih =>
      rcases List.mem_cons.1 hmem with heq | hlater
      · cases heq
        exact (List.prefix_append own rest).isInfix
      · exact (ih hlater).trans (List.suffix_append own' rest).isInfix

/-- No label is lost between the tokens. -/
theorem exists_of_label {n : Nat} (h : Lexemes ss us) (hn : .label n ∈ ss) :
    ∃ t own, (t, own) ∈ us ∧ .label n ∈ own := by
  induction h with
  | eof => cases hn
  | blank _ _ ih => exact ih ((List.mem_cons.1 hn).resolve_left (by simp))
  | @token c cs own' rest t' us _ _ _ _ ih =>
      rcases List.mem_append.1 hn with hfront | hlater
      · exact ⟨t', own', List.mem_cons_self, hfront⟩
      · obtain ⟨t, own, hmem, hlabel⟩ := ih hlater
        exact ⟨t, own, List.mem_cons_of_mem _ hmem, hlabel⟩

end Lexemes
end TableQuery
