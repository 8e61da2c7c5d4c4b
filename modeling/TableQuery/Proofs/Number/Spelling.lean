import TableQuery.Number.Spelling
import TableQuery.Proofs.Number.Rounding
import TableQuery.Proofs.Token.Lexeme

/-! What texts spell. The digits of an integer spell the number nearest to it, and no word spells a finite
number. -/

namespace TableQuery.Number

open Text Token

theorem spelled?_of_ne {cs : List Char} (hblank : ∀ c ∈ cs, isBlank c = false) (hne : cs ≠ [])
    (hinfinity : cs ≠ "Infinity".toList) (hplus : cs ≠ "+Infinity".toList)
    (hminus : cs ≠ "-Infinity".toList) (hbased : based? cs = none) :
    spelled? cs = (numeral? cs).map Numeral.nearest := by
  have hempty : cs.isEmpty = false := by simpa using hne
  simp only [spelled?, trimChars_eq_self hblank, hempty, hinfinity, hplus, hminus, hbased, decide_false,
    Bool.or_self, Bool.false_eq_true, if_false]

/-! ### Words -/

section Words

variable {w : List Char}

theorem based?_word (hw : IsWord w) : based? w = none := by
  obtain ⟨c, cs, rfl, hc⟩ := hw.start
  have hzero : c ≠ '0' := by
    rintro rfl
    exact absurd hc (by decide)
  rw [based?.eq_def]
  split
  next heq => exact absurd (List.cons.inj heq).1 hzero
  next => rfl

theorem signed_word (hw : IsWord w) : signed w = (none, w) := by
  obtain ⟨c, cs, rfl, hc⟩ := hw.start
  rw [signed.eq_def]
  split
  next heq =>
    rw [(List.cons.inj heq).1] at hc
    exact absurd hc (by decide)
  next heq =>
    rw [(List.cons.inj heq).1] at hc
    exact absurd hc (by decide)
  next => rfl

theorem numeral?_word (hw : IsWord w) : numeral? w = none := by
  obtain ⟨c, cs, rfl, hc⟩ := hw.start
  have hdigit : ¬ c.isDigit := by simp [not_isDigit_of_isWordStart hc]
  have hpoint : c ≠ '.' := by
    rintro rfl
    exact absurd hc (by decide)
  simp only [numeral?, signed_word hw, List.takeWhile_cons_of_neg hdigit, List.dropWhile_cons_of_neg hdigit]
  split
  next rest heq => exact absurd (List.cons.inj heq).1 hpoint
  next => rfl

/-- A word spells infinity, if it spells a number. -/
theorem isFinite_word {x : Binary64} (hw : IsWord w) (h : spelled? w = some x) : x.isFinite = false := by
  obtain ⟨c, cs, hcs, hc⟩ := hw.start
  have hsign : ∀ d ds, w = d :: ds → isWordStart d := by
    rintro d ds rfl
    rwa [(List.cons.inj hcs).1]
  by_cases hinfinity : w = "Infinity".toList
  · subst hinfinity
    cases h
    rfl
  · rw [spelled?_of_ne (fun c hc => isBlank_of_isWordChar (hw.all c hc)) (hcs ▸ List.cons_ne_nil c cs)
      hinfinity (fun heq => absurd (hsign _ _ heq) (by decide)) (fun heq => absurd (hsign _ _ heq) (by decide))
      (based?_word hw), numeral?_word hw] at h
    cases h

end Words

/-! ### Integers -/

variable {n : Int}

theorem chars_of_neg (h : n < 0) : (Numeral.ofInt n).chars = '-' :: Nat.toDigits 10 n.natAbs := by
  rw [chars_ofInt, if_pos h, List.singleton_append]

theorem chars_of_nonneg (h : ¬ n < 0) : (Numeral.ofInt n).chars = Nat.toDigits 10 n.natAbs := by
  rw [chars_ofInt, if_neg h, List.nil_append]

theorem based?_ofInt (n : Int) : based? (Numeral.ofInt n).chars = none := by
  rw [based?.eq_def]
  split
  next c rest heq =>
    have hmem : c ∈ (Numeral.ofInt n).chars := heq ▸ List.mem_cons_of_mem _ List.mem_cons_self
    have hne : ∀ d : Char, (d.isDigit || d = '-') = false → c ≠ d := by
      rintro d hd rfl
      rw [Bool.or_eq_false_iff, decide_eq_false_iff_not] at hd
      exact (mem_chars_ofInt hmem).elim hd.2 (by simp [hd.1])
    simp [hne]
  next => rfl

theorem numeral?_digits {sign : Option Bool} {cs : List Char} (k : Nat)
    (hsigned : signed cs = (sign, Nat.toDigits 10 k)) :
    numeral? cs = some ⟨sign.getD false, Nat.toDigits 10 k, none, none⟩ := by
  have hne : (Nat.toDigits 10 k).isEmpty = false := by simp [Nat.toDigits_ne_nil]
  have htake := List.takeWhile_eq_self_iff.2 (isDigit_toDigits k)
  have hdrop := List.dropWhile_eq_nil_iff.2 (isDigit_toDigits k)
  simp only [numeral?, hsigned, htake, hdrop, hne, Bool.false_and, Bool.false_eq_true, if_false, exponent?,
    Option.map_some]

theorem numeral?_ofInt (n : Int) : numeral? (Numeral.ofInt n).chars = some (Numeral.ofInt n) := by
  by_cases hn : n < 0
  · have hsigned : signed ('-' :: Nat.toDigits 10 n.natAbs) = (some true, Nat.toDigits 10 n.natAbs) := rfl
    rw [chars_of_neg hn, numeral?_digits n.natAbs hsigned, Numeral.ofInt, decide_eq_true hn]
    rfl
  · have hsigned : signed (Nat.toDigits 10 n.natAbs) = (none, Nat.toDigits 10 n.natAbs) := by
      rw [signed.eq_def]
      split
      next heq => exact absurd (isDigit_toDigits n.natAbs '+' (heq ▸ List.mem_cons_self)) (by decide)
      next heq => exact absurd (isDigit_toDigits n.natAbs '-' (heq ▸ List.mem_cons_self)) (by decide)
      next => rfl
    rw [chars_of_nonneg hn, numeral?_digits n.natAbs hsigned, Numeral.ofInt, decide_eq_false hn]
    rfl

theorem nearestDecimal_whole (k : Nat) : nearestDecimal k 0 = nearestMagnitude k 1 := by
  unfold nearestDecimal
  split
  next hzero => rw [hzero, nearestMagnitude_zero]
  next =>
    rw [if_neg (by omega), if_neg (by omega), if_pos (Int.le_refl 0)]
    exact congrArg (nearestMagnitude · 1) (Nat.mul_one _)

/-- A numeral without point and exponent. -/
theorem nearest_whole (negative : Bool) (ds : List Char) :
    (⟨negative, ds, none, none⟩ : Numeral).nearest =
      .ofMagnitude negative (nearestMagnitude (Nat.ofDigitChars 10 ds 0) 1) := by
  have hcoefficient : (⟨negative, ds, none, none⟩ : Numeral).coefficient = Nat.ofDigitChars 10 ds 0 := by
    rw [Numeral.coefficient, Numeral.fractionDigits, Option.getD_none, List.append_nil]
  rw [Numeral.nearest, hcoefficient, ← nearestDecimal_whole]
  rfl

theorem nearest_ofInt (n : Int) : (Numeral.ofInt n).nearest = Binary64.ofInt n := by
  rw [Numeral.ofInt, nearest_whole, Nat.ofDigitChars_ten_toDigits, Binary64.ofInt]

/-- **The digits of an integer spell the number nearest to it.** -/
theorem spelled?_ofInt (n : Int) : spelled? (Numeral.ofInt n).chars = some (Binary64.ofInt n) := by
  have hblank : ∀ c ∈ (Numeral.ofInt n).chars, isBlank c = false := by
    intro c hc
    rcases mem_chars_ofInt hc with rfl | hdigit
    · decide
    · exact isBlank_of_isWordChar (isWordChar_of_isDigit hdigit)
  have hletter : ∀ cs : List Char, 'I' ∈ cs → (Numeral.ofInt n).chars ≠ cs := by
    rintro cs hI rfl
    exact absurd (mem_chars_ofInt hI) (by decide)
  have hne : (Numeral.ofInt n).chars ≠ [] := by
    by_cases hn : n < 0
    · rw [chars_of_neg hn]
      exact List.cons_ne_nil _ _
    · rw [chars_of_nonneg hn]
      exact Nat.toDigits_ne_nil
  rw [spelled?_of_ne hblank hne (hletter _ (by decide)) (hletter _ (by decide)) (hletter _ (by decide))
    (based?_ofInt n), numeral?_ofInt, Option.map_some, nearest_ofInt]

end TableQuery.Number
