import TableQuery.Proofs.Number.Rounding

/-! Magnitudes as rationals. An integer is rounded to a number that is larger by at most one part in
`2 ^ 53`, and a scaled fraction is rounded as the rational that it is. -/

namespace TableQuery.Number

variable {num den : Nat}

/-- The number that a finite magnitude stands for. -/
def toRat (magnitude : Nat) : ℚ := (unpack magnitude).1 * 2 ^ (unpack magnitude).2

theorem toRat_nonneg (magnitude : Nat) : 0 ≤ toRat magnitude := by
  unfold toRat
  positivity

/-- The fraction of a finite number is cut off. -/
theorem truncate_eq_floor (x : Binary64) : x.truncate = ⌊toRat x.magnitude⌋₊ := by
  unfold Binary64.truncate toRat
  obtain ⟨m, e⟩ := unpack x.magnitude
  simp only
  split
  next he => rw [zpow_eq_natCast he, ← Nat.cast_mul, Nat.floor_natCast]
  next he =>
    rw [zpow_eq_inv_natCast (by omega), ← div_eq_mul_inv, Nat.floor_div_natCast, Nat.floor_natCast]

/-- At most 53 places, or the first number with 54, from a place on. -/
theorem toRat_places {k r : Nat} (hr : r ≤ 2 ^ 53) (hlow : k = 0 ∨ 2 ^ 52 ≤ r) :
    toRat (k * 2 ^ 52 + r) = r * 2 ^ ((k : Int) - 1074) := by
  by_cases hsmall : k * 2 ^ 52 + r < 2 ^ 52
  · obtain rfl : k = 0 := by omega
    rw [toRat, unpack, if_pos hsmall, Nat.zero_mul, Nat.zero_add]
    rfl
  · rw [toRat, unpack, if_neg hsmall]
    rcases Nat.lt_or_eq_of_le hr with hlt | rfl
    · have hmod : 2 ^ 52 + (k * 2 ^ 52 + r) % 2 ^ 52 = r := by omega
      have hdiv : (k * 2 ^ 52 + r) / 2 ^ 52 = k + 1 := by omega
      rw [hmod, hdiv]
      congr 2
      push_cast
      ring
    · -- One place more: the number is a power of two.
      have hmod : 2 ^ 52 + (k * 2 ^ 52 + 2 ^ 53) % 2 ^ 52 = 2 ^ 52 := by omega
      have hdiv : (k * 2 ^ 52 + 2 ^ 53) / 2 ^ 52 = k + 2 := by omega
      have hexponent : ((k + 2 : Nat) : Int) - 1075 = 1 + ((k : Int) - 1074) := by
        push_cast
        ring
      rw [hmod, hdiv, hexponent, zpow_add₀ two_ne_zero, zpow_one, ← mul_assoc]
      norm_num

theorem toRat_roundedMagnitude (hnum : num ≠ 0) (hden : 0 < den) :
    toRat (roundedMagnitude num den) =
      roundAt num den (lastPlace num den) * 2 ^ lastPlace num den := by
  have hleast := (lastPlace_spec hnum hden).1
  have hlow : (lastPlace num den + 1074).toNat = 0 ∨ 2 ^ 52 ≤ roundAt num den (lastPlace num den) := by
    by_cases hplace : lastPlace num den = -1074
    · left
      omega
    · exact Or.inr (le_roundAt_lastPlace hnum hden hplace)
  rw [roundedMagnitude, toRat_places (roundAt_lastPlace_le hnum hden) hlow]
  congr 2
  omega

/-- **An integer is rounded to a number that is larger by at most one part in `2 ^ 53`.** -/
theorem toRat_nearestMagnitude_le {n : Nat} (h : nearestMagnitude n 1 < infinityMagnitude) :
    toRat (nearestMagnitude n 1) ≤ n * (1 + 2 ^ (-53 : Int)) := by
  by_cases hn : n = 0
  · rw [hn, nearestMagnitude_zero, toRat, unpack]
    norm_num
  · have hrounded : nearestMagnitude n 1 = roundedMagnitude n 1 := by
      rw [nearestMagnitude_eq hn] at h ⊢
      omega
    rw [hrounded, toRat_roundedMagnitude hn Nat.one_pos]
    obtain ⟨-, -, hlow⟩ := lastPlace_spec hn Nat.one_pos
    obtain ⟨num, den, hden, hround, hunits⟩ := roundAt_eq n Nat.one_pos (lastPlace n 1)
    generalize lastPlace n 1 = e at *
    have hpow : (0 : ℚ) < 2 ^ e := by positivity
    have herror := (abs_le.1 (abs_roundHalfEven_sub_le num hden)).2
    rw [Nat.cast_one, div_one] at hlow hunits
    -- There are at least 53 places, so that half of the last one is small against the number.
    have hplaces : (2 : ℚ) ^ (e + 52) ≤ n := by
      rcases hlow with rfl | hlow
      · have hone : (1 : ℚ) ≤ n := by exact_mod_cast Nat.one_le_iff_ne_zero.2 hn
        exact le_trans (zpow_le_one_of_nonpos₀ (by norm_num) (by norm_num)) hone
      · exact hlow
    have hhalf : (2 : ℚ) ^ e * (1 / 2) ≤ n * 2 ^ (-53 : Int) := by
      have hsplit : (2 : ℚ) ^ e * (1 / 2) = 2 ^ (e + 52) * 2 ^ (-53 : Int) := by
        rw [← zpow_add₀ two_ne_zero, show e + 52 + -53 = e + -1 by ring, zpow_add₀ two_ne_zero]
        norm_num
      rw [hsplit]
      exact mul_le_mul_of_nonneg_right hplaces (by positivity)
    rw [hunits, sub_le_iff_le_add] at herror
    calc (roundAt n 1 e : ℚ) * 2 ^ e ≤ (1 / 2 + n / 2 ^ e) * 2 ^ e := by
          rw [hround]
          exact mul_le_mul_of_nonneg_right herror hpow.le
      _ = n + 2 ^ e * (1 / 2) := by
          field_simp
          ring
      _ ≤ n + n * 2 ^ (-53 : Int) := by
          gcongr
      _ = n * (1 + 2 ^ (-53 : Int)) := by ring

/-- A fraction times a power of two is rounded as the rational that it is. -/
theorem nearestScaled_eq (num : Nat) (hden : 0 < den) (e : Int) : ∃ n d, 0 < d ∧
    nearestScaled num den e = nearestMagnitude n d ∧ (n / d : ℚ) = num / den * 2 ^ e := by
  unfold nearestScaled
  split
  next he =>
    refine ⟨_, _, hden, rfl, ?_⟩
    rw [zpow_eq_natCast he, Nat.cast_mul, mul_div_right_comm]
  next he =>
    refine ⟨_, _, Nat.mul_pos hden (Nat.pow_pos (by decide)), rfl, ?_⟩
    rw [zpow_eq_inv_natCast (by omega), Nat.cast_mul, ← div_div, div_eq_mul_inv (num / den : ℚ)]

end TableQuery.Number
