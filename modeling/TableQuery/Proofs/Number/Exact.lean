import TableQuery.Proofs.Number.Magnitude

/-! Integers that are numbers as they are. An integer below `2 ^ 53` is rounded to itself, and no other
integer is rounded to it; from there on neighbouring integers can have one nearest number. -/

namespace TableQuery

namespace Number

theorem toRat_nearestMagnitude_of_lt {n : Nat} (hn : n < 2 ^ 53) : toRat (nearestMagnitude n 1) = n := by
  by_cases hzero : n = 0
  · rw [hzero, nearestMagnitude_zero, toRat, unpack]
    norm_num
  have hfinite : nearestMagnitude n 1 < infinityMagnitude :=
    Binary64.nearestMagnitude_word_lt (hn.le.trans (by decide))
  have hrounded : nearestMagnitude n 1 = roundedMagnitude n 1 := by
    rw [nearestMagnitude_eq hzero] at hfinite ⊢
    omega
  obtain ⟨-, -, hlow⟩ := lastPlace_spec hzero Nat.one_pos
  -- The last place is not above the point, so there is nothing to round.
  have hplace : lastPlace n 1 ≤ 0 := by
    rcases hlow with heq | hlow
    · omega
    · by_contra habove
      have hpow : (2 : ℚ) ^ (53 : Int) ≤ 2 ^ (lastPlace n 1 + 52) := two_zpow_le (by omega)
      have hlt : (n : ℚ) < 2 ^ (53 : Int) := by exact_mod_cast hn
      rw [Nat.cast_one, div_one] at hlow
      linarith
  rw [hrounded, toRat_roundedMagnitude hzero Nat.one_pos]
  generalize lastPlace n 1 = e at *
  obtain ⟨k, rfl⟩ := Int.exists_eq_neg_ofNat hplace
  have hround : roundAt n 1 (-(k : Int)) = n * 2 ^ k := by
    unfold roundAt
    split
    next hk =>
      obtain rfl : k = 0 := by omega
      exact (roundHalfEven_whole n).trans (Nat.mul_one n).symm
    next => rw [neg_neg, Int.toNat_natCast, roundHalfEven_whole]
  rw [hround, zpow_neg, zpow_natCast]
  push_cast
  field_simp

/-- **An integer below `2 ^ 53` is told by the number nearest to it.** -/
theorem nearestMagnitude_inj_of_lt {m n : Nat} (hn : n < 2 ^ 53)
    (h : nearestMagnitude m 1 = nearestMagnitude n 1) : m = n := by
  have hm : m < 2 ^ 53 := by
    by_contra hlarge
    have hstep : nearestMagnitude (2 ^ 53 - 1) 1 < nearestMagnitude (2 ^ 53) 1 := by decide +kernel
    have hlow := Binary64.nearestMagnitude_word_mono (show n ≤ 2 ^ 53 - 1 by omega)
    have hhigh := Binary64.nearestMagnitude_word_mono (show 2 ^ 53 ≤ m by omega)
    omega
  have hvalue := congrArg toRat h
  rw [toRat_nearestMagnitude_of_lt hm, toRat_nearestMagnitude_of_lt hn] at hvalue
  exact_mod_cast hvalue

end Number

namespace Binary64

open Number

variable {m n : Int}

theorem key_ofInt (h : n.natAbs ≤ 2 ^ 64) :
    (ofInt n).key = if n < 0 then -(nearestMagnitude n.natAbs 1 : Int) else nearestMagnitude n.natAbs 1 := by
  have hlt : nearestMagnitude n.natAbs 1 < 2 ^ 63 := (nearestMagnitude_word_lt h).trans (by decide)
  simp only [key, ofInt, isNegative_ofMagnitude hlt, magnitude_ofMagnitude hlt, decide_eq_true_eq]

theorem key_ofInt_eq_iff (hm : m.natAbs ≤ 2 ^ 64) (hn : n.natAbs ≤ 2 ^ 64) :
    (ofInt m).key = (ofInt n).key ↔
      (m < 0 ↔ n < 0) ∧ nearestMagnitude m.natAbs 1 = nearestMagnitude n.natAbs 1 := by
  have hpos : ∀ i : Int, i < 0 → 0 < nearestMagnitude i.natAbs 1 := fun i hi =>
    nearestMagnitude_pos (Int.natAbs_pos.2 hi.ne)
  have hm' := hpos m
  have hn' := hpos n
  rw [key_ofInt hm, key_ofInt hn]
  generalize nearestMagnitude m.natAbs 1 = a at *
  generalize nearestMagnitude n.natAbs 1 = b at *
  split <;> split <;> omega

/-- Integers are equal as numbers exactly if they have one nearest number. -/
theorem numEq_ofInt_iff (hm : m.natAbs ≤ 2 ^ 64) (hn : n.natAbs ≤ 2 ^ 64) :
    (ofInt m).numEq (ofInt n) ↔ ofInt m = ofInt n := by
  rw [numEq, isNaN_ofInt, isNaN_ofInt, Bool.not_false, Bool.true_and, Bool.true_and, beq_iff_eq]
  constructor
  · intro h
    obtain ⟨hsign, hmagnitude⟩ := (key_ofInt_eq_iff hm hn).1 h
    rw [ofInt, ofInt, decide_eq_decide.2 hsign, hmagnitude]
  · intro h
    rw [h]

theorem ofInt_inj_of_lt (hm : m.natAbs ≤ 2 ^ 64) (hn : n.natAbs < 2 ^ 53) : ofInt m = ofInt n ↔ m = n := by
  constructor
  · intro h
    obtain ⟨hsign, hmagnitude⟩ := (key_ofInt_eq_iff hm (by omega)).1 (congrArg key h)
    have habs := nearestMagnitude_inj_of_lt hn hmagnitude
    omega
  · rintro rfl
    rfl

end Binary64

/-! ### The integers that a value can be -/

namespace Value

variable {m n : Int64}

theorem natAbs_toInt_le (n : Int64) : n.toInt.natAbs ≤ 2 ^ 64 := by
  have hlow := n.le_toInt
  have hhigh := n.toInt_lt
  omega

theorem ofInt_eq_iff_of_lt (h : m.toInt.natAbs < 2 ^ 53 ∨ n.toInt.natAbs < 2 ^ 53) :
    Binary64.ofInt m.toInt = .ofInt n.toInt ↔ m = n := by
  rcases h with hm | hn
  · rw [eq_comm, Binary64.ofInt_inj_of_lt (natAbs_toInt_le n) hm, Int64.toInt_inj, eq_comm]
  · rw [Binary64.ofInt_inj_of_lt (natAbs_toInt_le m) hn, Int64.toInt_inj]

end Value
end TableQuery
