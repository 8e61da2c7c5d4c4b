import TableQuery.Clause.Evaluate
import TableQuery.TablePath

/-! The commands of the query language. -/
namespace TableQuery

inductive Columns
  | all
  | names (columns : List String)
  deriving DecidableEq

inductive Direction
  | ascending | descending
  deriving DecidableEq

/-- The columns to sort by, the earlier ones first; one direction holds for all. -/
structure SortOrder where
  columns : List String
  direction : Direction
  deriving DecidableEq

structure Select where
  columns : Columns
  table : TablePath
  condition : Option Clause
  order : Option SortOrder
  limit : Option Nat
  deriving DecidableEq

structure Insert where
  table : TablePath
  columns : List String
  values : List Value
  deriving DecidableEq

structure Update where
  table : TablePath
  assignments : List (String × Value)
  condition : Option Clause
  deriving DecidableEq

structure Delete where
  table : TablePath
  condition : Option Clause
  deriving DecidableEq

inductive Statement
  | select (s : Select)
  | insert (s : Insert)
  | update (s : Update)
  | delete (s : Delete)
  deriving DecidableEq

namespace Statement

def verb : Statement → String
  | .select _ => "SELECT"
  | .insert _ => "INSERT_INTO"
  | .update _ => "UPDATE"
  | .delete _ => "DELETE_FROM"

def table : Statement → TablePath
  | .select s => s.table
  | .insert s => s.table
  | .update s => s.table
  | .delete s => s.table

end Statement
end TableQuery
