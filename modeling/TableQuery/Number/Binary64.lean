import TableQuery.Number.Rounding

/-! Binary64 numbers as their bits. Numbers are compared through an integer key, in which the two
zeros agree and infinity is larger than every finite number. -/
namespace TableQuery

open Number

/-- A binary64 number: a sign bit above the 63 bits of the magnitude. -/
structure Binary64 where
  bits : UInt64
  deriving DecidableEq

namespace Binary64

def magnitude (x : Binary64) : Nat := x.bits.toNat % 2 ^ 63

def isNegative (x : Binary64) : Bool := 2 ^ 63 ≤ x.bits.toNat

def ofMagnitude (negative : Bool) (magnitude : Nat) : Binary64 :=
  ⟨UInt64.ofNat (if negative then 2 ^ 63 + magnitude else magnitude)⟩

def zero : Binary64 := ⟨0⟩

def one : Binary64 := ⟨0x3FF0000000000000⟩

def infinity : Binary64 := ⟨0x7FF0000000000000⟩

def negInfinity : Binary64 := ⟨0xFFF0000000000000⟩

def nan : Binary64 := ⟨0x7FF8000000000000⟩

def isNaN (x : Binary64) : Bool := infinityMagnitude < x.magnitude

def isFinite (x : Binary64) : Bool := x.magnitude < infinityMagnitude

/-- The number's place among the numbers, with one place for both zeros. -/
def key (x : Binary64) : Int := if x.isNegative then -(x.magnitude : Int) else x.magnitude

/-- The number's place among all bit patterns: `-0` just below `0`, what is not a number outermost. -/
def totalKey (x : Binary64) : Int :=
  if x.isNegative then -(x.magnitude : Int) - 1 else x.magnitude

/-- Numeric equality; what is not a number equals nothing. -/
def numEq (x y : Binary64) : Bool := !x.isNaN && !y.isNaN && x.key == y.key

/-- Numeric order, undefined when either side is not a number. -/
def compare? (x y : Binary64) : Option Ordering :=
  if x.isNaN || y.isNaN then none else some (compare x.key y.key)

def totalCompare (x y : Binary64) : Ordering := compare x.totalKey y.totalKey

/-- The number nearest to an integer. -/
def ofInt (n : Int) : Binary64 := ofMagnitude (n < 0) (nearestMagnitude n.natAbs 1)

/-- The absolute value of a finite number with its fraction cut off. -/
def truncate (x : Binary64) : Nat :=
  let (m, e) := unpack x.magnitude
  if 0 ≤ e then m * 2 ^ e.toNat else m / 2 ^ (-e).toNat

theorem magnitude_ofMagnitude {negative : Bool} {m : Nat} (h : m < 2 ^ 63) :
    (ofMagnitude negative m).magnitude = m := by
  cases negative <;> simp [ofMagnitude, magnitude, UInt64.toNat_ofNat'] <;> omega

theorem isNegative_ofMagnitude {negative : Bool} {m : Nat} (h : m < 2 ^ 63) :
    (ofMagnitude negative m).isNegative = negative := by
  cases negative <;> simp [ofMagnitude, isNegative, UInt64.toNat_ofNat'] <;> omega

theorem isNaN_ofInt (n : Int) : (ofInt n).isNaN = false := by
  have h := nearestMagnitude_le n.natAbs 1
  have hlt : nearestMagnitude n.natAbs 1 < 2 ^ 63 := by
    simp only [infinityMagnitude] at h; omega
  simpa [ofInt, isNaN, magnitude_ofMagnitude hlt] using h

end Binary64
end TableQuery
