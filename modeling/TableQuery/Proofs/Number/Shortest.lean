import TableQuery.Number.Shortest
import TableQuery.Proofs.Number.Magnitude

/-! The search for the shortest decimal. On a grid that is finer than the interval around a number the
next multiple above the number lies in the interval, so that the search ends with a decimal; and every
decimal that it ends with is positive and not above the interval. -/

namespace TableQuery.Number

variable {num den c : Nat} {i : Interval} {e k : Int}

/-! ### One grid -/

theorem Interval.holds_of_nearestIn {tie : Tie} (h : i.nearestIn tie num den = some c) : i.holds num den c := by
  unfold Interval.nearestIn at h
  extract_lets below rest upFirst first second at h
  split at h
  next hfirst => exact Option.some.inj h ▸ hfirst
  split at h
  next hsecond => exact Option.some.inj h ▸ hsecond
  · cases h

theorem Interval.bounds_of_holds (h : i.holds num den c) :
    i.low * num ≤ c * den ∧ c * den ≤ i.high * num := by
  unfold Interval.holds at h
  split at h <;> (simp only [Bool.and_eq_true, decide_eq_true_eq] at h) <;> omega

/-- The next multiple above the middle is found if the grid is finer than the upper half. -/
theorem Interval.nearestIn_isSome (tie : Tie) (hden : 0 < den) (hlow : i.low ≤ i.middle)
    (hfine : i.middle * num + den < i.high * num) : (i.nearestIn tie num den).isSome := by
  have habove : i.holds num den (i.middle * num / den + 1) := by
    have hfloor := Nat.div_mul_le_self (i.middle * num) den
    have hnext := Nat.lt_div_mul_add (a := i.middle * num) hden
    have hmiddle := Nat.mul_le_mul_right num hlow
    rw [Interval.holds, Nat.add_mul, Nat.one_mul]
    split <;> (simp only [Bool.and_eq_true, decide_eq_true_eq]) <;> omega
  unfold Interval.nearestIn
  extract_lets below rest upFirst first second
  have htried : first = below + 1 ∨ second = below + 1 := by
    by_cases hup : upFirst
    · exact Or.inl (if_pos hup)
    · exact Or.inr (if_neg hup)
  split
  · rfl
  next hfirst =>
    have hsecond : i.holds num den second := by
      rcases htried with heq | heq
      · rw [heq] at hfirst
        exact absurd habove hfirst
      · rw [heq]
        exact habove
    rw [if_pos hsecond]
    rfl

/-! ### The search -/

/-- The units of the interval on the grid of the multiples of `10 ^ k`. -/
theorem units_eq (e k : Int) : ((2 ^ (e - 2).toNat * 10 ^ (-k).toNat : Nat) : ℚ) /
    (2 ^ (2 - e).toNat * 10 ^ k.toNat : Nat) = 2 ^ (e - 2) / 10 ^ k := by
  have hsplit : ∀ (b : Nat) (n : Int), b ≠ 0 →
      ((b ^ n.toNat : Nat) : ℚ) / (b ^ (-n).toNat : Nat) = (b : ℚ) ^ n := by
    intro b n hb
    have hb' : (b : ℚ) ≠ 0 := by exact_mod_cast hb
    rcases le_total 0 n with hn | hn
    · lift n to Nat using hn
      simp
    · obtain ⟨m, hm⟩ := Int.eq_ofNat_of_zero_le (show 0 ≤ -n by omega)
      obtain rfl : n = -m := by omega
      simp
  have htwo := hsplit 2 (e - 2) two_ne_zero
  have hten := hsplit 10 k (by decide)
  rw [Int.neg_sub] at htwo
  rw [Nat.cast_mul, Nat.cast_mul, mul_div_mul_comm, htwo, ← inv_div, hten]
  rfl

section Grid

variable (hlow : 0 < i.low) (hden : 0 < den) (hunits : (num / den : ℚ) = 2 ^ (e - 2) / 10 ^ k)

include hden hunits

include hlow in
/-- A multiple that is found is positive and not above the interval. -/
theorem found_spec {tie : Tie} (h : i.nearestIn tie num den = some c) :
    c ≠ 0 ∧ (c : ℚ) * 10 ^ k ≤ i.high * 2 ^ (e - 2) := by
  obtain ⟨hleast, hgreatest⟩ := Interval.bounds_of_holds (Interval.holds_of_nearestIn h)
  have hdenQ : (0 : ℚ) < den := by exact_mod_cast hden
  have hratio : (0 : ℚ) < num / den := by
    rw [hunits]
    positivity
  have hnum : 0 < num := by
    have hnumQ : (0 : ℚ) < num := (div_pos_iff_of_pos_right hdenQ).1 hratio
    exact_mod_cast hnumQ
  constructor
  · rintro rfl
    have hpos := Nat.mul_pos hlow hnum
    omega
  · have hquotient : (c : ℚ) ≤ i.high * (num / den) := by
      rw [← mul_div_assoc, le_div_iff₀ hdenQ]
      exact_mod_cast hgreatest
    rwa [hunits, ← mul_div_assoc, le_div_iff₀ (by positivity)] at hquotient

/-- On a grid finer than half a place a multiple is found. -/
theorem found_isSome (tie : Tie) (hmiddle : i.low ≤ i.middle) (hhigh : i.high = i.middle + 2)
    (hfine : (10 : ℚ) ^ k < 2 ^ (e - 1)) : (i.nearestIn tie num den).isSome := by
  have hdenQ : (0 : ℚ) < den := by exact_mod_cast hden
  have hhalf : (1 : ℚ) < 2 * (num / den) := by
    rw [hunits, ← mul_div_assoc, ← zpow_one_add₀ two_ne_zero, lt_div_iff₀ (by positivity), one_mul]
    rwa [show 1 + (e - 2) = e - 1 by ring]
  have hgrid : den < 2 * num := by
    rw [← mul_div_assoc, lt_div_iff₀ hdenQ, one_mul] at hhalf
    exact_mod_cast hhalf
  refine Interval.nearestIn_isSome tie hden hmiddle ?_
  rw [hhigh, Nat.add_mul]
  omega

end Grid

theorem searchShortest_spec (tie : Tie) {steps : Nat} (hlow : 0 < i.low) (hmiddle : i.low ≤ i.middle)
    (hhigh : i.high = i.middle + 2) (hfine : (10 : ℚ) ^ (k - steps) < 2 ^ (e - 1)) :
    let d := searchShortest i tie e (steps + 1) k
    d.digits ≠ 0 ∧ (d.digits : ℚ) * 10 ^ d.exponent ≤ i.high * 2 ^ (e - 2) := by
  induction steps generalizing k with
  | zero =>
      have hden : 0 < 2 ^ (2 - e).toNat * 10 ^ k.toNat := by positivity
      rw [Nat.cast_zero, sub_zero] at hfine
      obtain ⟨c, hc⟩ := Option.isSome_iff_exists.1
        (found_isSome hden (units_eq e k) tie hmiddle hhigh hfine)
      rw [searchShortest, hc]
      exact found_spec hlow hden (units_eq e k) hc
  | succ steps ih =>
      have hden : 0 < 2 ^ (2 - e).toNat * 10 ^ k.toNat := by positivity
      rw [searchShortest]
      cases hc : i.nearestIn tie (2 ^ (e - 2).toNat * 10 ^ (-k).toNat) (2 ^ (2 - e).toNat * 10 ^ k.toNat) with
      | some c => exact found_spec hlow hden (units_eq e k) hc
      | none =>
          refine ih ?_
          rwa [show k - 1 - steps = k - (steps + 1 : Nat) by push_cast; ring]

/-! ### The shortest decimal -/

/-- Three factors of ten stay below ten factors of two, and 28 factors of ten above 93. -/
theorem ten_zpow_lt_two_zpow {k f : Int} (hpos : 0 ≤ k → 10 * k < 3 * f)
    (hneg : k < 0 → 93 * k < 28 * f) : (10 : ℚ) ^ k < 2 ^ f := by
  have hpower : ∀ (b : ℚ) (m : Int) (n : Nat), (b ^ m) ^ n = (b ^ n) ^ m := fun b m n => by
    rw [← zpow_natCast, ← zpow_natCast, zpow_comm]
  rcases le_or_gt 0 k with hk | hk
  · refine lt_of_pow_lt_pow_left₀ 3 (by positivity) ?_
    calc ((10 : ℚ) ^ k) ^ 3 = (10 ^ 3) ^ k := hpower 10 k 3
      _ ≤ (2 ^ 10) ^ k := zpow_le_zpow_left₀ hk (by norm_num) (by norm_num)
      _ = 2 ^ (10 * k) := by rw [zpow_mul]; rfl
      _ < 2 ^ (3 * f) := zpow_lt_zpow_right₀ (by norm_num) (hpos hk)
      _ = (2 ^ f) ^ 3 := by rw [mul_comm, zpow_mul]; rfl
  · have hpowers : ((2 : ℚ) ^ 93) ^ (-k) ≤ (10 ^ 28) ^ (-k) :=
      zpow_le_zpow_left₀ (by omega) (by norm_num) (by norm_num)
    have hinverses := inv_anti₀ (by positivity) hpowers
    rw [← zpow_neg, ← zpow_neg, neg_neg] at hinverses
    refine lt_of_pow_lt_pow_left₀ 28 (by positivity) ?_
    calc ((10 : ℚ) ^ k) ^ 28 = (10 ^ 28) ^ k := hpower 10 k 28
      _ ≤ (2 ^ 93) ^ k := hinverses
      _ = 2 ^ (93 * k) := by rw [zpow_mul]; rfl
      _ < 2 ^ (28 * f) := zpow_lt_zpow_right₀ (by norm_num) (hneg hk)
      _ = (2 ^ f) ^ 28 := by rw [mul_comm, zpow_mul]; rfl

theorem unpack_spec {magnitude : Nat} (hpos : magnitude ≠ 0) (hfinite : magnitude < infinityMagnitude) :
    (unpack magnitude).1 ≠ 0 ∧ (unpack magnitude).1 < 2 ^ 53 ∧ -1074 ≤ (unpack magnitude).2 ∧
      (unpack magnitude).2 ≤ 971 := by
  rw [infinityMagnitude] at hfinite
  unfold unpack
  split <;> dsimp only <;> omega

/-- **The decimal of a positive number is positive, and above the number by half a place at most.** -/
theorem shortest_spec (tie : Tie) {magnitude : Nat} (hpos : magnitude ≠ 0)
    (hfinite : magnitude < infinityMagnitude) :
    (shortest tie magnitude).digits ≠ 0 ∧
      ((shortest tie magnitude).digits : ℚ) * 10 ^ (shortest tie magnitude).exponent ≤
        ((unpack magnitude).1 + 1 / 2) * 2 ^ (unpack magnitude).2 := by
  obtain ⟨hm, hplaces, hleast, hgreatest⟩ := unpack_spec hpos hfinite
  rw [shortest, if_neg hpos]
  generalize unpack magnitude = p at *
  obtain ⟨m, e⟩ := p
  simp only at hm hplaces hleast hgreatest ⊢
  have hlog : m.log2 < 53 := (Nat.log2_lt hm).2 hplaces
  have hlow : 0 < (Interval.around m e).low := by
    unfold Interval.around
    dsimp only
    split <;> omega
  have hmiddle : (Interval.around m e).low ≤ (Interval.around m e).middle := by
    unfold Interval.around
    dsimp only
    split <;> omega
  have hfine : (10 : ℚ) ^ (((m.log2 : Int) + e) * 30103 / 100000 + 2 - (23 : Nat)) < 2 ^ (e - 1) :=
    ten_zpow_lt_two_zpow (by omega) (by omega)
  obtain ⟨hdigits, hvalue⟩ := searchShortest_spec tie hlow hmiddle rfl hfine
  refine ⟨hdigits, hvalue.trans_eq ?_⟩
  rw [Interval.around, zpow_sub₀ two_ne_zero]
  push_cast
  ring

end TableQuery.Number
