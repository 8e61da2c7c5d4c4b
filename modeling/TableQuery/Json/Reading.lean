import TableQuery.Json
import TableQuery.Number.Binary64

/-! What the numerals of a document are worth. An integer that fits 64 bits is exact. Every other
numeral becomes a float in two steps: its digits are taken while they fit 64 bits, and the number so
far is scaled by a power of ten, each step rounded on its own. -/
namespace TableQuery.Json

open Number

/-- Appends digits to a number while it stays below `2 ^ 64`; the rest is left. -/
def takeFitting (n : Nat) : List Char → Nat × List Char
  | [] => (n, [])
  | d :: ds =>
    let n' := Nat.ofDigitChars 10 [d] n
    if n' < 2 ^ 64 then takeFitting n' ds else (n, d :: ds)

/-- The product of two finite magnitudes, rounded. -/
def multiply (a b : Nat) : Nat :=
  nearestScaled ((unpack a).1 * (unpack b).1) 1 ((unpack a).2 + (unpack b).2)

/-- The quotient of two finite magnitudes, rounded. -/
def divide (a b : Nat) : Nat :=
  nearestScaled (unpack a).1 (unpack b).1 ((unpack a).2 - (unpack b).2)

/-- Scales a finite magnitude by `10 ^ e`, with powers of ten up to the largest that is finite.
There is no result beyond the finite magnitudes. -/
def scaleByTens? (a : Nat) (e : Int) : Option Nat :=
  if a = 0 then some 0
  else if e < -308 then scaleByTens? (divide a (nearestDecimal 1 308)) (e + 308)
  else if e < 0 then some (divide a (nearestDecimal 1 (-e)))
  else if e ≤ 308 then (some (multiply a (nearestDecimal 1 e))).filter (· < infinityMagnitude)
  else none
termination_by e.natAbs
decreasing_by omega

/-- The float that a numeral is read as. -/
def float? (n : Numeral) : Option Binary64 :=
  let (m, left) := takeFitting 0 n.whole
  let (m, unread) := takeFitting m n.fractionDigits
  let e : Int := n.exponentValue + left.length - (n.fractionDigits.length - unread.length : Nat)
  (scaleByTens? (nearestMagnitude m 1) e).map (.ofMagnitude n.negative)

/-- The worth of a numeral: an integer of 64 bits, unsigned or negative, or a float. A negative zero
is a float, so that its sign is kept. -/
inductive Worth
  | natural (n : Nat)
  | negative (n : Nat)
  | float (x : Binary64)
  deriving DecidableEq

def worth? (n : Numeral) : Option Worth :=
  let m : Nat := Nat.ofDigitChars 10 n.whole 0
  if n.fraction.isNone && n.exponent.isNone && m < 2 ^ 64 then
    if !n.negative then some (.natural m)
    else if m = 0 || 2 ^ 63 < m then some (.float (.ofMagnitude true (nearestMagnitude m 1)))
    else some (.negative m)
  else (float? n).map .float

/-- A number of the document read as an unsigned word. -/
def word? : Json → Option UInt64
  | .number n => match worth? n with
    | some (.natural m) => some (UInt64.ofNat m)
    | _ => none
  | _ => none

/-- A number of the document read as a signed word. -/
def int? : Json → Option Int64
  | .number n => match worth? n with
    | some (.natural m) => if m < 2 ^ 63 then some (Int64.ofNat m) else none
    | some (.negative m) => some (Int64.ofInt (-m))
    | _ => none
  | _ => none

end TableQuery.Json
