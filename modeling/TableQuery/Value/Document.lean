import TableQuery.Value
import TableQuery.Number.Layout
import TableQuery.Json.Reading
import TableQuery.Json.Record

/-! Values in documents. The kind of a value is not written: it shows in the form of the JSON leaf. -/
namespace TableQuery.Value

open Number

/-- Documents use an exponent below `0.00001` and from `1e+16` on, and mark every float as one; of two
decimals equally near the one with an even last digit is written. -/
def documentLayout : Layout := ⟨.even, fun e => e < -5 || 15 < e, true, .plus⟩

/-- Infinities, and what is not a number, have no JSON form and become null. -/
def toJson : Value → Json
  | .null => .null
  | .bool b => .bool b
  | .int n => .ofInt n.toInt
  | .float x =>
    if x.isFinite then .number (documentLayout.numeralOf x) else .null
  | .text s => .ofString s

/-- An integer is one that fits 64 bits with a sign; every other number is a float. -/
def ofWorth : Json.Worth → Value
  | .natural m => if m < 2 ^ 63 then .int (Int64.ofNat m) else .float (.ofInt m)
  | .negative m => .int (Int64.ofInt (-m))
  | .float x => .float x

def ofJson? : Json → Option Value
  | .null => some .null
  | .bool b => some (.bool b)
  | .number n => (Json.worth? n).map ofWorth
  | .text s => s.map .text
  | _ => none

end TableQuery.Value
