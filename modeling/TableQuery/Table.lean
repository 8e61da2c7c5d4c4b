import TableQuery.Schema

/-! Tables. -/
namespace TableQuery

structure Table where
  rows : List Row
  schema : Schema
  counters : Counters

namespace Table

def ofSchema (schema : Schema) : Table := ⟨[], schema, .start⟩

/-- A table without rows that takes rows as they are. -/
def empty : Table := ofSchema .empty

instance : Inhabited Table := ⟨empty⟩

instance : DecidableEq Table := fun a b =>
  decidable_of_iff (a.rows = b.rows ∧ a.schema = b.schema ∧ a.counters = b.counters) (by
    cases a; cases b; simp)

/-- Completes a row by the schema. The counters move, and nothing is stored. -/
def complete (t : Table) (clock : Clock) (row : Row) : Row × Table × Clock :=
  let d := t.schema.complete ⟨row, t.counters, clock⟩
  (d.row, { t with counters := d.counters }, d.clock)

/-- Completes a row and appends it. -/
def insert (t : Table) (clock : Clock) (row : Row) : Table × Clock :=
  let (row, t, clock) := t.complete clock row
  ({ t with rows := t.rows ++ [row] }, clock)

/-- Completes and appends several rows, one after the other. -/
def insertAll (t : Table) (clock : Clock) (rows : List Row) : Table × Clock :=
  rows.foldl (fun s row => s.1.insert s.2 row) (t, clock)

@[simp] theorem insert_rows (t : Table) (clock : Clock) (row : Row) :
    (t.insert clock row).1.rows = t.rows ++ [(t.schema.complete ⟨row, t.counters, clock⟩).row] := rfl

@[simp] theorem insert_schema (t : Table) (clock : Clock) (row : Row) :
    (t.insert clock row).1.schema = t.schema := rfl

@[simp] theorem insert_counters (t : Table) (clock : Clock) (row : Row) :
    (t.insert clock row).1.counters = (t.schema.complete ⟨row, t.counters, clock⟩).counters := rfl

theorem insertAll_cons (t : Table) (clock : Clock) (row : Row) (rows : List Row) :
    t.insertAll clock (row :: rows) =
      (t.insert clock row).1.insertAll (t.insert clock row).2 rows := rfl

end Table
end TableQuery
