import TableQuery.Table
import TableQuery.Statement

/-! Running a statement on the table that it names. -/
namespace TableQuery.Table

/-- Whether a row is meant by an optional condition. -/
def isMatch (condition : Option Clause) (mode : ChainMode) (row : Row) : Bool :=
  match condition with
  | none => true
  | some clause => clause.holds row mode

/-- Compares two rows column by column; a missing field counts as null. -/
def compareRows (direction : Direction) (a b : Row) : List String → Ordering
  | [] => .eq
  | column :: rest =>
    let order := ((a.get? column).getD .null).sortCompare ((b.get? column).getD .null)
    let order := if direction = .descending then order.swap else order
    order.then (compareRows direction a b rest)

/-- The rows with their positions, those that match. -/
def matching (rows : List Row) (condition : Option Clause) (mode : ChainMode) : List (Row × Nat) :=
  rows.zipIdx.filter fun r => isMatch condition mode r.1

/-- Sorts rows; rows that tie keep their places. Where the values of a column are in no consistent order, this is
only one of the results that a sort may have, and another one may give up. -/
def sortRows (order : Option SortOrder) (rows : List (Row × Nat)) : List (Row × Nat) :=
  match order with
  | none => rows
  | some o => rows.mergeSort fun a b => compareRows o.direction a.1 b.1 o.columns != .gt

/-- The rows that a selection returns, whole, with their positions. -/
def selected (rows : List Row) (s : Select) (mode : ChainMode) : List (Row × Nat) :=
  let rows := sortRows s.order (matching rows s.condition mode)
  match s.limit with
  | none => rows
  | some n => rows.take n

/-- What a row keeps of its fields. -/
def project (columns : Columns) (row : Row) : Row :=
  match columns with
  | .all => row
  | .names names => row.filterKeys (names.contains ·)

/-- A selection returns its rows with the listed columns only, and the stored rows that it returns
keep no others. -/
def select (t : Table) (s : Select) (mode : ChainMode) : List Row × Table :=
  let chosen := selected t.rows s mode
  let positions := chosen.map Prod.snd
  let rows := t.rows.zipIdx.map fun r =>
    if positions.contains r.2 then project s.columns r.1 else r.1
  (chosen.map fun r => project s.columns r.1, { t with rows })

def insertStatement (t : Table) (clock : Clock) (s : Insert) : Table :=
  (t.insert clock (.ofList (s.columns.zip s.values))).1

/-- Overlays every matching row with the assignments to fields that the table may hold. -/
def update (t : Table) (s : Update) (mode : ChainMode) : Table :=
  let assignments := s.assignments.filter fun a => t.schema.isEmpty || t.schema.contains a.1
  { t with
    rows := t.rows.map fun row =>
      if isMatch s.condition mode row then row.insertAll assignments else row }

/-- Removes every matching row. -/
def delete (t : Table) (s : Delete) (mode : ChainMode) : Table :=
  { t with rows := t.rows.filter fun row => !isMatch s.condition mode row }

/-- Runs a statement: the rows it answers with, and the table afterwards. A selection answers with
the selected rows, every other statement with the whole table. -/
def run (t : Table) (clock : Clock) (mode : ChainMode) : Statement → List Row × Table
  | .select s => t.select s mode
  | .insert s => let t := t.insertStatement clock s; (t.rows, t)
  | .update s => let t := t.update s mode; (t.rows, t)
  | .delete s => let t := t.delete s mode; (t.rows, t)

end TableQuery.Table
