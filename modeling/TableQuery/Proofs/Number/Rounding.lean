import Mathlib
import TableQuery.Number.Binary64

/-! Rounding to binary64 against the rationals. What a fraction is rounded to depends on its value
alone, never falls where the value grows, and lies within half of the last place. -/

namespace TableQuery.Number

variable {num den num' den' : Nat}

/-! ### Halves to the even neighbour -/

theorem roundHalfEven_le (num den : Nat) : roundHalfEven num den ≤ num / den + 1 := by
  simp only [roundHalfEven]
  split
  · omega
  split <;> omega

theorem div_le_roundHalfEven (num den : Nat) : num / den ≤ roundHalfEven num den := by
  simp only [roundHalfEven]
  split
  · exact Nat.le_refl _
  split <;> omega

theorem roundHalfEven_mono_nat (hden : 0 < den) (hden' : 0 < den') (h : num * den' ≤ num' * den) :
    roundHalfEven num den ≤ roundHalfEven num' den' := by
  have hquotient : num / den ≤ num' / den' := by
    rw [Nat.le_div_iff_mul_le hden']
    refine Nat.le_of_mul_le_mul_right ?_ hden
    calc num / den * den' * den = num / den * den * den' := by ring
      _ ≤ num * den' := Nat.mul_le_mul_right _ (Nat.div_mul_le_self _ _)
      _ ≤ num' * den := h
  rcases Nat.lt_or_eq_of_le hquotient with hlt | heq
  · calc roundHalfEven num den ≤ num / den + 1 := roundHalfEven_le num den
      _ ≤ num' / den' := hlt
      _ ≤ roundHalfEven num' den' := div_le_roundHalfEven num' den'
  · -- With one quotient the remainders are in the same order as the fractions.
    have hremainder : num % den * den' ≤ num' % den' * den := by
      have hnum := Nat.div_add_mod num den
      have hnum' := Nat.div_add_mod num' den'
      rw [← hnum, ← hnum', ← heq] at h
      nlinarith
    have hbelow : 2 * (num' % den') < den' → 2 * (num % den) < den := by
      intro hhalf
      by_contra hcon
      nlinarith
    have hhalf : 2 * (num' % den') ≤ den' → 2 * (num % den) ≤ den := by
      intro hhalf
      by_contra hcon
      nlinarith
    simp only [roundHalfEven, heq]
    split <;> split <;> (try split) <;> (try split) <;> omega

/-- The rounded fraction is at most one half away. -/
theorem abs_roundHalfEven_sub_le (num : Nat) (hden : 0 < den) :
    |(roundHalfEven num den : ℚ) - num / den| ≤ 1 / 2 := by
  have hpos : (0 : ℚ) < den := by exact_mod_cast hden
  have hnat : 2 * (roundHalfEven num den * den) ≤ 2 * num + den ∧
      2 * num ≤ 2 * (roundHalfEven num den * den) + den := by
    have hnum := Nat.div_add_mod num den
    have hmod := Nat.mod_lt num hden
    have hcases : roundHalfEven num den = num / den ∧ 2 * (num % den) ≤ den ∨
        roundHalfEven num den = num / den + 1 ∧ den ≤ 2 * (num % den) := by
      simp only [roundHalfEven]
      split
      · omega
      split <;> omega
    generalize num / den = quotient at hnum hcases
    generalize num % den = remainder at hnum hmod hcases
    rcases hcases with ⟨heq, hle⟩ | ⟨heq, hle⟩ <;> rw [heq] <;> constructor <;> nlinarith
  have hlow : 2 * (roundHalfEven num den * den : ℚ) ≤ 2 * num + den := by exact_mod_cast hnat.1
  have hhigh : (2 * num : ℚ) ≤ 2 * (roundHalfEven num den * den) + den := by exact_mod_cast hnat.2
  rw [abs_le]
  constructor
  · rw [neg_le_sub_iff_le_add, div_le_iff₀ hpos]
    linarith
  · rw [sub_le_iff_le_add, ← sub_le_iff_le_add', le_div_iff₀ hpos]
    linarith

theorem roundHalfEven_mono (hden : 0 < den) (hden' : 0 < den')
    (h : (num / den : ℚ) ≤ num' / den') : roundHalfEven num den ≤ roundHalfEven num' den' := by
  refine roundHalfEven_mono_nat hden hden' ?_
  rw [div_le_div_iff₀ (by exact_mod_cast hden) (by exact_mod_cast hden')] at h
  exact_mod_cast h

theorem roundHalfEven_whole (n : Nat) : roundHalfEven n 1 = n := by
  simp [roundHalfEven, Nat.mod_one]

/-! ### The last place -/

theorem natCast_pow_toNat (b : Nat) {k : Int} (hk : 0 ≤ k) : ((b ^ k.toNat : Nat) : ℚ) = (b : ℚ) ^ k := by
  lift k to Nat using hk
  rw [Int.toNat_natCast, zpow_natCast]
  exact Nat.cast_pow b k

theorem zpow_eq_natCast {k : Int} (hk : 0 ≤ k) : (2 : ℚ) ^ k = ((2 ^ k.toNat : Nat) : ℚ) :=
  (natCast_pow_toNat 2 hk).symm

theorem zpow_eq_inv_natCast {k : Int} (hk : k ≤ 0) :
    (2 : ℚ) ^ k = ((2 ^ (-k).toNat : Nat) : ℚ)⁻¹ := by
  rw [← zpow_eq_natCast (Int.neg_nonneg.2 hk), zpow_neg, inv_inv]

theorem ratioLt_iff (hden : 0 < den) (k : Int) :
    ratioLt num den k = true ↔ (num / den : ℚ) < 2 ^ k := by
  have hpos : (0 : ℚ) < den := by exact_mod_cast hden
  unfold ratioLt
  split
  next hk =>
    rw [decide_eq_true_iff, zpow_eq_natCast hk, div_lt_iff₀ hpos, mul_comm, ← Nat.cast_mul,
      Nat.cast_lt]
  next hk =>
    have htwo : (0 : ℚ) < ((2 ^ (-k).toNat : Nat) : ℚ) := by
      exact_mod_cast Nat.pow_pos (n := (-k).toNat) (show 0 < 2 by decide)
    rw [decide_eq_true_iff, zpow_eq_inv_natCast (by omega), div_lt_iff₀ hpos, ← div_eq_inv_mul,
      lt_div_iff₀ htwo, ← Nat.cast_mul, Nat.cast_lt]

theorem two_zpow_le {m n : Int} (h : m ≤ n) : (2 : ℚ) ^ m ≤ 2 ^ n := zpow_le_zpow_right₀ (by norm_num) h

/-- The lengths of both sides of a fraction tell its size up to a factor of two. -/
theorem log2_sub_bounds (hnum : num ≠ 0) (hden : 0 < den) :
    (2 : ℚ) ^ ((num.log2 : Int) - den.log2 - 1) < num / den ∧
      (num / den : ℚ) < 2 ^ ((num.log2 : Int) - den.log2 + 1) := by
  have hpow : ∀ a b : Nat, (2 : ℚ) ^ ((a : Int) - b) = (2 ^ a : Nat) / (2 ^ b : Nat) := by
    intro a b
    rw [zpow_sub₀ two_ne_zero, zpow_natCast, zpow_natCast]
    push_cast
    rfl
  have hcast : ∀ n : Nat, (0 : ℚ) < (2 ^ n : Nat) := fun n => by
    exact_mod_cast Nat.pow_pos (n := n) (show 0 < 2 by decide)
  have hpos : (0 : ℚ) < den := by exact_mod_cast hden
  obtain ⟨hnumLow, hnumHigh⟩ := (Nat.log2_eq_iff hnum).1 rfl
  obtain ⟨hdenLow, hdenHigh⟩ := (Nat.log2_eq_iff hden.ne').1 rfl
  constructor
  · rw [show (num.log2 : Int) - den.log2 - 1 = num.log2 - (den.log2 + 1 : Nat) by push_cast; ring, hpow,
      div_lt_div_iff₀ (hcast _) hpos]
    exact_mod_cast Nat.mul_lt_mul_of_le_of_lt hnumLow hdenHigh (Nat.pos_of_ne_zero hnum)
  · rw [show (num.log2 : Int) - den.log2 + 1 = (num.log2 + 1 : Nat) - den.log2 by push_cast; ring, hpow,
      div_lt_div_iff₀ hpos (hcast _)]
    exact_mod_cast Nat.mul_lt_mul_of_lt_of_le hnumHigh hdenLow hden

/-- The last place leaves no more than 53 places, and fewer only at the end of the range. -/
theorem lastPlace_spec (hnum : num ≠ 0) (hden : 0 < den) :
    -1074 ≤ lastPlace num den ∧ (num / den : ℚ) < 2 ^ (lastPlace num den + 53) ∧
      (lastPlace num den = -1074 ∨ (2 : ℚ) ^ (lastPlace num den + 52) ≤ num / den) := by
  obtain ⟨hlow, hhigh⟩ := log2_sub_bounds hnum hden
  generalize hk : (num.log2 : Int) - den.log2 = k at hlow hhigh
  simp only [lastPlace, hk, ratioLt_iff hden]
  refine ⟨le_max_right _ _, ?_, ?_⟩
  · split
    next h => exact h.trans_le (two_zpow_le (by omega))
    next h => exact hhigh.trans_le (two_zpow_le (by omega))
  · split
    next h =>
      rcases le_total (k - 53) (-1074) with hle | hle
      · exact Or.inl (max_eq_right hle)
      · rw [max_eq_left hle]
        exact Or.inr ((two_zpow_le (by omega)).trans hlow.le)
    next h =>
      rcases le_total (k - 52) (-1074) with hle | hle
      · exact Or.inl (max_eq_right hle)
      · rw [max_eq_left hle]
        exact Or.inr ((two_zpow_le (by omega)).trans (not_lt.1 h))

theorem lastPlace_mono (hnum : num ≠ 0) (hden : 0 < den) (hnum' : num' ≠ 0) (hden' : 0 < den')
    (h : (num / den : ℚ) ≤ num' / den') : lastPlace num den ≤ lastPlace num' den' := by
  obtain ⟨hleast, -, hlow⟩ := lastPlace_spec hnum hden
  obtain ⟨hleast', hhigh', -⟩ := lastPlace_spec hnum' hden'
  rcases hlow with heq | hlow
  · rw [heq]
    exact hleast'
  · by_contra hlt
    have hpow : (2 : ℚ) ^ (lastPlace num' den' + 53) ≤ 2 ^ (lastPlace num den + 52) :=
      two_zpow_le (by omega)
    linarith

/-- What is rounded at a place is the number in units of the place. -/
theorem roundAt_eq (num : Nat) (hden : 0 < den) (e : Int) : ∃ n d, 0 < d ∧
    roundAt num den e = roundHalfEven n d ∧ (n / d : ℚ) = num / den / 2 ^ e := by
  unfold roundAt
  split
  next he =>
    refine ⟨_, _, Nat.mul_pos hden (Nat.pow_pos (by decide)), rfl, ?_⟩
    rw [zpow_eq_natCast he, Nat.cast_mul, div_div]
  next he =>
    refine ⟨_, _, hden, rfl, ?_⟩
    rw [zpow_eq_inv_natCast (by omega), Nat.cast_mul, div_inv_eq_mul, div_mul_eq_mul_div]

theorem roundAt_mono (hden : 0 < den) (hden' : 0 < den') (h : (num / den : ℚ) ≤ num' / den') (e : Int) :
    roundAt num den e ≤ roundAt num' den' e := by
  obtain ⟨n, d, hd, hround, hvalue⟩ := roundAt_eq num hden e
  obtain ⟨n', d', hd', hround', hvalue'⟩ := roundAt_eq num' hden' e
  rw [hround, hround']
  refine roundHalfEven_mono hd hd' ?_
  rw [hvalue, hvalue']
  exact div_le_div_of_nonneg_right h (by positivity)

/-- What is rounded at its last place has 53 places, or is carried to the first number with 54. -/
theorem roundAt_lastPlace_le (hnum : num ≠ 0) (hden : 0 < den) :
    roundAt num den (lastPlace num den) ≤ 2 ^ 53 := by
  obtain ⟨-, hhigh, -⟩ := lastPlace_spec hnum hden
  obtain ⟨n, d, hd, hround, hvalue⟩ := roundAt_eq num hden (lastPlace num den)
  rw [hround, ← roundHalfEven_whole (2 ^ 53)]
  refine roundHalfEven_mono hd Nat.one_pos ?_
  rw [hvalue, div_le_iff₀ (by positivity)]
  rw [zpow_add₀ two_ne_zero] at hhigh
  have hplaces : ((2 ^ 53 : Nat) : ℚ) / (1 : Nat) = 2 ^ (53 : Int) := by norm_num
  rw [hplaces, mul_comm]
  exact hhigh.le

theorem le_roundAt_lastPlace (hnum : num ≠ 0) (hden : 0 < den) (hplace : lastPlace num den ≠ -1074) :
    2 ^ 52 ≤ roundAt num den (lastPlace num den) := by
  obtain ⟨-, -, hlow⟩ := lastPlace_spec hnum hden
  obtain ⟨n, d, hd, hround, hvalue⟩ := roundAt_eq num hden (lastPlace num den)
  rw [hround, ← roundHalfEven_whole (2 ^ 52)]
  refine roundHalfEven_mono Nat.one_pos hd ?_
  have hplaces : ((2 ^ 52 : Nat) : ℚ) / (1 : Nat) = 2 ^ (52 : Int) := by norm_num
  rw [hvalue, le_div_iff₀ (by positivity), hplaces, mul_comm, ← zpow_add₀ two_ne_zero]
  exact hlow.resolve_left hplace

/-! ### The nearest magnitude -/

/-- The magnitude nearest to a positive fraction, were there no end to the exponents. -/
def roundedMagnitude (num den : Nat) : Nat :=
  (lastPlace num den + 1074).toNat * 2 ^ 52 + roundAt num den (lastPlace num den)

theorem nearestMagnitude_eq (hnum : num ≠ 0) :
    nearestMagnitude num den = min infinityMagnitude (roundedMagnitude num den) := by
  rw [nearestMagnitude, if_neg hnum, roundedMagnitude]

theorem nearestMagnitude_zero (den : Nat) : nearestMagnitude 0 den = 0 := rfl

theorem roundedMagnitude_mono (hnum : num ≠ 0) (hden : 0 < den) (hnum' : num' ≠ 0) (hden' : 0 < den')
    (h : (num / den : ℚ) ≤ num' / den') : roundedMagnitude num den ≤ roundedMagnitude num' den' := by
  have hplace := lastPlace_mono hnum hden hnum' hden' h
  have hleast := (lastPlace_spec hnum hden).1
  unfold roundedMagnitude
  rcases hplace.lt_or_eq with hlt | heq
  · -- The fraction is carried at most once, and the next place begins above it.
    have hround := roundAt_lastPlace_le hnum hden
    have hround' := le_roundAt_lastPlace hnum' hden' (by omega)
    omega
  · rw [heq]
    exact Nat.add_le_add_left (roundAt_mono hden hden' h _) _

/-- **A larger fraction is not rounded to a smaller magnitude.** -/
theorem nearestMagnitude_mono (hden : 0 < den) (hden' : 0 < den')
    (h : (num / den : ℚ) ≤ num' / den') : nearestMagnitude num den ≤ nearestMagnitude num' den' := by
  rcases Nat.eq_zero_or_pos num with hzero | hpos
  · rw [hzero, nearestMagnitude_zero]
    exact Nat.zero_le _
  · have hnum' : num' ≠ 0 := by
      intro hzero
      have hposQ : (0 : ℚ) < num / den := div_pos (by exact_mod_cast hpos) (by exact_mod_cast hden)
      rw [hzero, Nat.cast_zero, zero_div] at h
      linarith
    rw [nearestMagnitude_eq hpos.ne', nearestMagnitude_eq hnum']
    exact min_le_min_left _ (roundedMagnitude_mono hpos.ne' hden hnum' hden' h)

end TableQuery.Number

namespace TableQuery.Binary64

open Number

/-! ### Integers of 64 bits -/

theorem nearestMagnitude_word_mono {m n : Nat} (h : m ≤ n) :
    nearestMagnitude m 1 ≤ nearestMagnitude n 1 := by
  refine nearestMagnitude_mono Nat.one_pos Nat.one_pos ?_
  rw [Nat.cast_one, div_one, div_one]
  exact_mod_cast h

theorem nearestMagnitude_word_lt {n : Nat} (h : n ≤ 2 ^ 64) : nearestMagnitude n 1 < infinityMagnitude :=
  (nearestMagnitude_word_mono h).trans_lt (by decide +kernel)

theorem nearestMagnitude_pos {n : Nat} (h : 0 < n) : 0 < nearestMagnitude n 1 :=
  lt_of_lt_of_le (show 0 < nearestMagnitude 1 1 by decide +kernel) (nearestMagnitude_word_mono h)

variable {n : Int}

theorem isFinite_ofInt (h : n.natAbs ≤ 2 ^ 64) : (ofInt n).isFinite = true := by
  have hlt := nearestMagnitude_word_lt h
  rw [isFinite, decide_eq_true_iff, ofInt, magnitude_ofMagnitude]
  · exact hlt
  · exact hlt.trans (by decide)

theorem key_ofInt_nonneg_iff (h : n.natAbs ≤ 2 ^ 64) : 0 ≤ (ofInt n).key ↔ 0 ≤ n := by
  have hlt : nearestMagnitude n.natAbs 1 < 2 ^ 63 := (nearestMagnitude_word_lt h).trans (by decide)
  rw [key, ofInt, isNegative_ofMagnitude hlt, magnitude_ofMagnitude hlt]
  by_cases hn : n < 0
  · have hpos := nearestMagnitude_pos (Int.natAbs_pos.2 hn.ne)
    rw [if_pos (decide_eq_true hn)]
    omega
  · rw [if_neg (by simpa using hn)]
    omega

end TableQuery.Binary64
