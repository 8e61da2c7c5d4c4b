/-! The comparison operators of a condition. -/
namespace TableQuery

inductive Comparator
  | eq | ne | lt | le | gt | ge
  deriving DecidableEq

namespace Comparator

/-- The comparator that a run of operator characters spells. -/
def ofSymbol? (symbol : String) : Option Comparator :=
  match symbol with
  | "=" => some .eq
  | "!=" => some .ne
  | "<" => some .lt
  | "<=" => some .le
  | ">" => some .gt
  | ">=" => some .ge
  | _ => none

def symbol : Comparator → String
  | .eq => "="
  | .ne => "!="
  | .lt => "<"
  | .le => "<="
  | .gt => ">"
  | .ge => ">="

/-- The comparator's name in messages. -/
def name : Comparator → String
  | .eq => "Eq"
  | .ne => "NotEq"
  | .lt => "Lt"
  | .le => "LtEq"
  | .gt => "Gt"
  | .ge => "GtEq"

/-- Whether the comparator accepts a pair that compares this way; a pair without an order is
accepted by none of the four. -/
def accepts (op : Comparator) (order : Option Ordering) : Bool :=
  match op, order with
  | .lt, some .lt => true
  | .le, some .lt => true
  | .le, some .eq => true
  | .gt, some .gt => true
  | .ge, some .gt => true
  | .ge, some .eq => true
  | _, _ => false

theorem ofSymbol?_symbol (op : Comparator) : ofSymbol? op.symbol = some op := by
  cases op <;> rfl

end Comparator
end TableQuery
