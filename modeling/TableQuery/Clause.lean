import TableQuery.Comparator
import TableQuery.Value.Display

/-! The parts of a `WHERE` clause. -/
namespace TableQuery

/-- A comparison of a field with a value. -/
structure Term where
  field : String
  op : Comparator
  value : Value
  deriving DecidableEq

inductive ClausePart
  | term (t : Term)
  | and | or | openGroup | closeGroup
  deriving DecidableEq

/-- The part as messages show it. -/
def ClausePart.tagged : ClausePart → String
  | .term t =>
    "Term(Term \x7b field: " ++ Text.quotedString t.field ++ ", op: " ++ t.op.name ++ ", value: "
      ++ t.value.tagged ++ " \x7d)"
  | .and => "And"
  | .or => "Or"
  | .openGroup => "Open"
  | .closeGroup => "Close"

end TableQuery
