import TableQuery.Value

/-! How values are compared: loosely, as the comparison operators do, and in the order of sorting. -/
namespace TableQuery.Value

/-- Loose equality. Null equals only itself, two values of one kind are equal as such, and every
other pair is equal as numbers. -/
def looseEq : Value → Value → Bool
  | .null, .null => true
  | .null, _ => false
  | _, .null => false
  | .text a, .text b => a == b
  | .bool a, .bool b => a == b
  | .int a, .int b => a == b
  | a, b => a.toNumber.numEq b.toNumber

/-- Loose order. Two texts are ordered by their characters, two integers exactly, and every other
pair as numbers; there is no order when either side is none. -/
def looseCompare? : Value → Value → Option Ordering
  | .text a, .text b => some (compare a b)
  | .int a, .int b => some (compare a.toInt b.toInt)
  | a, b => a.toNumber.compare? b.toNumber

/-- Null sorts before the booleans, these before the numbers, and texts come last. -/
def rank : Value → Nat
  | .null => 0
  | .bool _ => 1
  | .int _ => 2
  | .float _ => 2
  | .text _ => 3

/-- The order of sorting: by kind, then within the kind. Two integers are compared exactly; a float
and another number by their bits, so that every float has a place. -/
def sortCompare : Value → Value → Ordering
  | .bool a, .bool b => compare a b
  | .int a, .int b => compare a.toInt b.toInt
  | .text a, .text b => compare a b
  | .int a, .float b => (Binary64.ofInt a.toInt).totalCompare b
  | .float a, .int b => a.totalCompare (.ofInt b.toInt)
  | .float a, .float b => a.totalCompare b
  | a, b => compare a.rank b.rank

end TableQuery.Value
