import TableQuery.Value
import TableQuery.Number.Layout
import TableQuery.Text.Quoted

/-! The two texts of a value: the plain one of a result listing, and the tagged one of messages,
which names the kind and quotes texts. -/
namespace TableQuery

open Number

/-- Results never use an exponent, and whole numbers have no point; of two decimals equally near the
larger is shown. -/
def plainLayout : Layout := ⟨.upper, fun _ => false, false, .bare⟩

/-- Messages choose digits as results do, use an exponent below `0.0001` and from `1e16` on, and mark
every float as one. -/
def taggedLayout : Layout := ⟨.upper, fun e => e < -4 || 15 < e, true, .bare⟩

def Binary64.show (layout : Layout) (x : Binary64) : String :=
  if x.isNaN then "NaN"
  else if x.isFinite then String.ofList (layout.numeralOf x).chars
  else if x.isNegative then "-inf" else "inf"

namespace Value

/-- The value as a result listing shows it. -/
def display : Value → String
  | .null => "null"
  | .bool b => if b then "true" else "false"
  | .int n => String.ofList (Numeral.ofInt n.toInt).chars
  | .float x => x.show plainLayout
  | .text s => s

/-- The value as messages show it. -/
def tagged : Value → String
  | .null => "Null"
  | .bool b => "Bool(" ++ (if b then "true" else "false") ++ ")"
  | .int n => "Int(" ++ String.ofList (Numeral.ofInt n.toInt).chars ++ ")"
  | .float x => "Float(" ++ x.show taggedLayout ++ ")"
  | .text s => "Text(" ++ Text.quotedString s ++ ")"

end Value
end TableQuery
