/-! Written numbers: a sign, digits, digits after a point, and a decimal exponent. -/
namespace TableQuery.Number

/-- How the sign of an exponent is written. -/
inductive ExponentSign
  | bare | plus | minus
  deriving DecidableEq

structure Exponent where
  sign : ExponentSign
  digits : List Char
  deriving DecidableEq

namespace Exponent

def value (e : Exponent) : Int :=
  let n : Nat := Nat.ofDigitChars 10 e.digits 0
  if e.sign = .minus then -n else n

def chars (e : Exponent) : List Char :=
  (match e.sign with
    | .bare => ['e']
    | .plus => ['e', '+']
    | .minus => ['e', '-']) ++ e.digits

end Exponent

structure Numeral where
  negative : Bool
  whole : List Char
  fraction : Option (List Char)
  exponent : Option Exponent
  deriving DecidableEq

namespace Numeral

/-- The numeral of an integer. -/
def ofInt (n : Int) : Numeral := ⟨n < 0, Nat.toDigits 10 n.natAbs, none, none⟩

def chars (n : Numeral) : List Char :=
  (if n.negative then ['-'] else []) ++ n.whole
    ++ (match n.fraction with | none => [] | some ds => '.' :: ds)
    ++ (match n.exponent with | none => [] | some e => e.chars)

def fractionDigits (n : Numeral) : List Char := n.fraction.getD []

def exponentValue (n : Numeral) : Int := (n.exponent.map Exponent.value).getD 0

/-- The integer that a numeral without point and exponent spells. -/
def int? (n : Numeral) : Option Int :=
  if n.fraction.isNone && n.exponent.isNone then
    let m : Nat := Nat.ofDigitChars 10 n.whole 0
    some (if n.negative then -m else m)
  else none

/-- All digits as one number, and the power of ten to scale it by. -/
def coefficient (n : Numeral) : Nat := Nat.ofDigitChars 10 (n.whole ++ n.fractionDigits) 0

def scale (n : Numeral) : Int := n.exponentValue - n.fractionDigits.length

end Numeral
end TableQuery.Number
