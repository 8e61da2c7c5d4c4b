/-! Rounding to binary64. A nonnegative number is named by its magnitude, the 63 bits below the sign
read as a natural: magnitudes are ordered as the numbers they stand for, so carrying from the
fraction into the exponent is plain addition. -/
namespace TableQuery

-- Powers are those of the core library, also where Mathlib has another instance for them.
attribute [scoped instance (2000), default_instance 20000] instPowNat

namespace Number

/-- The magnitude of infinity; larger ones are not numbers. -/
def infinityMagnitude : Nat := 0x7FF0000000000000

/-- The integer nearest to `num / den`; a half goes to the even neighbour. -/
def roundHalfEven (num den : Nat) : Nat :=
  let quotient := num / den
  let remainder := num % den
  if 2 * remainder < den then quotient
  else if den < 2 * remainder then quotient + 1
  else quotient + quotient % 2

/-- Whether `num / den < 2 ^ k`. -/
def ratioLt (num den : Nat) (k : Int) : Bool :=
  if 0 ≤ k then num < den * 2 ^ k.toNat else num * 2 ^ (-k).toNat < den

/-- The exponent of the last of the 53 places in which `num / den` is written, at least `-1074`. -/
def lastPlace (num den : Nat) : Int :=
  let k : Int := (num.log2 : Int) - den.log2
  max (if ratioLt num den k then k - 53 else k - 52) (-1074)

/-- `num / den` as a multiple of `2 ^ e`, rounded. -/
def roundAt (num den : Nat) (e : Int) : Nat :=
  if 0 ≤ e then roundHalfEven num (den * 2 ^ e.toNat) else roundHalfEven (num * 2 ^ (-e).toNat) den

/-- The magnitude nearest to `num / den`. -/
def nearestMagnitude (num den : Nat) : Nat :=
  if num = 0 then 0
  else
    let e := lastPlace num den
    min infinityMagnitude ((e + 1074).toNat * 2 ^ 52 + roundAt num den e)

/-- The magnitude nearest to `num / den * 2 ^ e`. -/
def nearestScaled (num den : Nat) (e : Int) : Nat :=
  if 0 ≤ e then nearestMagnitude (num * 2 ^ e.toNat) den
  else nearestMagnitude num (den * 2 ^ (-e).toNat)

/-- The magnitude nearest to `digits * 10 ^ e`. The first two cases are what the general ones give
there, found without the power of ten. -/
def nearestDecimal (digits : Nat) (e : Int) : Nat :=
  if digits = 0 then 0
  else if 400 < e then infinityMagnitude
  else if (digits.log2 : Int) + 1200 < -3 * e then 0
  else if 0 ≤ e then nearestMagnitude (digits * 10 ^ e.toNat) 1
  else nearestMagnitude digits (10 ^ (-e).toNat)

/-- A finite magnitude as `m * 2 ^ e`. -/
def unpack (magnitude : Nat) : Nat × Int :=
  if magnitude < 2 ^ 52 then (magnitude, -1074)
  else (2 ^ 52 + magnitude % 2 ^ 52, (magnitude / 2 ^ 52 : Nat) - 1075)

theorem nearestMagnitude_le (num den : Nat) : nearestMagnitude num den ≤ infinityMagnitude := by
  unfold nearestMagnitude
  split
  · exact Nat.zero_le _
  · exact Nat.min_le_left _ _

theorem nearestDecimal_le (digits : Nat) (e : Int) : nearestDecimal digits e ≤ infinityMagnitude := by
  unfold nearestDecimal
  split
  · exact Nat.zero_le _
  split
  · exact Nat.le_refl _
  split
  · exact Nat.zero_le _
  split <;> exact nearestMagnitude_le _ _

end Number
end TableQuery
