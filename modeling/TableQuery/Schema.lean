import TableQuery.Clause.Evaluate

/-! Schemas: the closed set of fields of a table, and how a row is completed before it is stored. -/
namespace TableQuery

/-- What is done to a field of a row that is about to be stored. -/
inductive Behavior
  | autoIncrement
  | timestamp
  | default (v : Value)
  deriving DecidableEq

/-- A field and its behaviors, in the order in which they act. -/
structure FieldDef where
  name : String
  behaviors : List Behavior
  deriving DecidableEq

/-- The declared fields of a table. Without any, a table takes rows as they are. -/
structure Schema where
  fields : List FieldDef
  deriving DecidableEq

/-- The readings of a clock, in milliseconds, in the order in which they are asked for. -/
structure Clock where
  reading : Nat → Int64

namespace Clock

def now (c : Clock) : Int64 := c.reading 0

/-- The readings after the first. -/
def later (c : Clock) : Clock := ⟨fun n => c.reading (n + 1)⟩

end Clock

/-- The last number and the last timestamp that a table has given out. -/
structure Counters where
  autoInc : UInt64
  lastTimestamp : Int64
  deriving DecidableEq

def Counters.start : Counters := ⟨0, 0⟩

/-- A row on its way into a table. -/
structure Draft where
  row : Row
  counters : Counters
  clock : Clock

namespace Draft

/-- Gives the field the next number, over what it held. -/
def number (d : Draft) (field : String) : Draft :=
  let n := d.counters.autoInc + 1
  { d with row := d.row.insert field (.int n.toInt64), counters.autoInc := n }

/-- Gives the field a timestamp, over what it held: the clock's, but later than the last one. -/
def stamp (d : Draft) (field : String) : Draft :=
  let t := max d.clock.now (d.counters.lastTimestamp + 1)
  { row := d.row.insert field (.int t), counters := { d.counters with lastTimestamp := t },
    clock := d.clock.later }

/-- Gives the field a value unless it has one. -/
def supply (d : Draft) (field : String) (v : Value) : Draft :=
  { d with row := d.row.insertNew field v }

end Draft

def Behavior.act (field : String) (d : Draft) : Behavior → Draft
  | .autoIncrement => d.number field
  | .timestamp => d.stamp field
  | .default v => d.supply field v

/-- A field without behaviors is null unless the row has it. -/
def FieldDef.act (d : Draft) (f : FieldDef) : Draft :=
  match f.behaviors with
  | [] => d.supply f.name .null
  | behaviors => behaviors.foldl (Behavior.act f.name) d

namespace Schema

def empty : Schema := ⟨[]⟩

def isEmpty (s : Schema) : Bool := s.fields.isEmpty

def contains (s : Schema) (name : String) : Bool := s.fields.any fun f => f.name == name

/-- The first name that occurs again later in the list, in the order of the second occurrences. -/
def repeated? (seen : List String) : List String → Option String
  | [] => none
  | name :: rest => if name ∈ seen then some name else repeated? (name :: seen) rest

/-- The schema of these fields, whose names must differ. -/
def ofFields (fields : List FieldDef) : Except QueryError Schema :=
  match repeated? [] (fields.map FieldDef.name) with
  | some name => .error (.invalidSchema (.declaredTwice name))
  | none => .ok ⟨fields⟩

/-- Drops the fields that are not declared. -/
def prune (s : Schema) (row : Row) : Row := if s.isEmpty then row else row.filterKeys s.contains

/-- Completes a row: every field acts in the order of declaration, then undeclared fields go. -/
def complete (s : Schema) (d : Draft) : Draft :=
  if s.isEmpty then d
  else
    let d := s.fields.foldl FieldDef.act d
    { d with row := s.prune d.row }

end Schema
end TableQuery
