import TableQuery.Number.Spelling

/-! The scalars that a field of a row can hold. -/
namespace TableQuery

inductive Value
  | null
  | bool (b : Bool)
  | int (n : Int64)
  | float (x : Binary64)
  | text (s : String)
  deriving DecidableEq

namespace Value

instance : Inhabited Value := ⟨.null⟩

def isNull : Value → Bool
  | .null => true
  | _ => false

def int? : Value → Option Int64
  | .int n => some n
  | _ => none

def float? : Value → Option Binary64
  | .float x => some x
  | _ => none

def text? : Value → Option String
  | .text s => some s
  | _ => none

def bool? : Value → Option Bool
  | .bool b => some b
  | _ => none

/-- The number that a comparison takes the value for: null is zero, the booleans are zero and one,
and a text that spells no number is none. -/
def toNumber : Value → Binary64
  | .null => .zero
  | .bool b => if b then .one else .zero
  | .int n => .ofInt n.toInt
  | .float x => x
  | .text s => (Number.spelled? s.toList).getD .nan

end Value
end TableQuery
