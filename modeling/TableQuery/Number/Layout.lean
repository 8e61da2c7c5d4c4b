import TableQuery.Number.Binary64
import TableQuery.Number.Numeral
import TableQuery.Number.Shortest

/-! Layouts: how the digits of a decimal are set out as a numeral. -/
namespace TableQuery.Number

/-- Which of two equally near decimals is written, which decimal exponents are written with an `e`,
whether a whole number keeps `.0`, and how a positive exponent is signed. -/
structure Layout where
  tie : Tie
  scientific : Int → Bool
  point : Bool
  positiveSign : ExponentSign

def exponentOf (layout : Layout) (e : Int) : Exponent :=
  ⟨if e < 0 then .minus else layout.positiveSign, Nat.toDigits 10 e.natAbs⟩

/-- The numeral of a decimal. The decimal's last digit is not zero unless it is zero itself. -/
def Layout.numeral (layout : Layout) (negative : Bool) (d : Decimal) : Numeral :=
  let digits := Nat.toDigits 10 d.digits
  let e : Int := d.exponent + digits.length - 1
  if layout.scientific e then
    ⟨negative, digits.take 1, if digits.length = 1 then none else some (digits.drop 1),
      some (exponentOf layout e)⟩
  else if 0 ≤ d.exponent then
    ⟨negative, digits ++ List.replicate d.exponent.toNat '0', if layout.point then some ['0'] else none,
      none⟩
  else if 0 ≤ e then
    ⟨negative, digits.take (e.toNat + 1), some (digits.drop (e.toNat + 1)), none⟩
  else
    ⟨negative, ['0'], some (List.replicate (-e - 1).toNat '0' ++ digits), none⟩

/-- The numeral of a finite number. -/
def Layout.numeralOf (layout : Layout) (x : Binary64) : Numeral :=
  layout.numeral x.isNegative (shortest layout.tie x.magnitude)

end TableQuery.Number
