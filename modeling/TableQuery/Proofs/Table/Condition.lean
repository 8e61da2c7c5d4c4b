import TableQuery.Proofs.Store.Entries
import TableQuery.Proofs.Table.Selection

/-! The rows that a condition denotes are the same ones for every command. A selection of all columns
returns them, a removal takes out exactly them, and an update overlays exactly them, so that repeating
the removal or the update has no further effect. -/

namespace TableQuery

/-- A selection of all columns by a condition alone. -/
def Select.whole (table : TablePath) (condition : Option Clause) : Select :=
  ⟨.all, table, condition, none, none⟩

namespace Table

variable {t : Table} {condition : Option Clause} {mode : ChainMode}

/-- These are the positions of the rows that satisfy a condition. The rows are answered in their order,
and nothing changes. -/
structure Reads (t : Table) (condition : Option Clause) (mode : ChainMode) (positions : List Nat)
    (answer : List Row) (after : Table) : Prop where
  mem_iff : ∀ i, i ∈ positions ↔
    ∃ row, t.rows[i]? = some row ∧ ∀ clause, condition = some clause → clause.holds row mode
  increasing : positions.Pairwise (· < ·)
  answered : answer.map some = positions.map (t.rows[·]?)
  unchanged : after = t

/-- The rows at these positions are removed, and the others stay in their order. -/
structure Removes (t : Table) (positions : List Nat) (after : Table) : Prop where
  rows : after.rows = (t.rows.zipIdx.filter fun r => r.2 ∉ positions).map Prod.fst
  schema : after.schema = t.schema
  counters : after.counters = t.counters

/-- The rows at these positions are overlaid with the assignments to fields that the table may hold, of
which the last one to a field counts; nothing else changes. -/
structure Overlays (t : Table) (assignments : List (String × Value)) (positions : List Nat)
    (after : Table) : Prop where
  overlaid : ∀ i ∈ positions, ∃ old new : Row, t.rows[i]? = some old ∧ after.rows[i]? = some new ∧
    ∀ field, new.get? field =
      if t.schema.isEmpty || t.schema.contains field then
        (assignments.reverse.lookup field).or (old.get? field)
      else old.get? field
  kept : ∀ i, i ∉ positions → after.rows[i]? = t.rows[i]?
  length_rows : after.rows.length = t.rows.length
  schema : after.schema = t.schema
  counters : after.counters = t.counters

/-! ### Selections -/

theorem isMatch_iff_mem_arrangement {i : Nat} {row : Row} (h : t.rows[i]? = some row) :
    isMatch condition mode row ↔ i ∈ t.arrangement condition none mode := by
  rw [mem_arrangement]
  constructor
  · exact fun hmatch => ⟨row, h, hmatch⟩
  · rintro ⟨row', hrow', hmatch⟩
    rw [h] at hrow'
    cases hrow'
    exact hmatch

theorem select_whole_answer (t : Table) (path : TablePath) (condition : Option Clause) (mode : ChainMode) :
    (t.select (.whole path condition) mode).1 = (matching t.rows condition mode).map Prod.fst := rfl

theorem reads_select (t : Table) (path : TablePath) (condition : Option Clause) (mode : ChainMode) :
    Reads t condition mode (t.arrangement condition none mode) (t.select (.whole path condition) mode).1
      (t.select (.whole path condition) mode).2 where
  mem_iff _ := mem_arrangement_iff
  increasing := List.pairwise_map.2 (pairwise_matching t.rows condition mode)
  answered := by
    rw [select_whole_answer, arrangement, sortRows, List.map_map, List.map_map]
    exact List.map_congr_left fun x hx => (mem_matching.1 hx).1.symm
  unchanged := by
    by_contra hne
    obtain ⟨r, -, hproject⟩ := (select_table_ne_iff t (.whole path condition) mode).1 hne
    exact hproject rfl

/-! ### Removals -/

theorem removes_delete (t : Table) (s : Delete) (mode : ChainMode) :
    Removes t (t.arrangement s.condition none mode) (t.delete s mode) where
  rows := by
    have hkeep : ∀ r ∈ t.rows.zipIdx, decide (r.2 ∉ t.arrangement s.condition none mode) =
        !isMatch s.condition mode r.1 := by
      intro r hr
      rw [Bool.eq_iff_iff, decide_eq_true_iff, Bool.not_eq_true', ← Bool.not_eq_true,
        isMatch_iff_mem_arrangement (List.mem_zipIdx_iff_getElem?.1 hr)]
    rw [List.filter_congr hkeep, ← Function.comp_def (fun row => !isMatch s.condition mode row) Prod.fst,
      ← List.filter_map, List.zipIdx_map_fst]
    rfl
  schema := rfl
  counters := rfl

theorem select_delete (t : Table) (path : TablePath) (condition : Option Clause) (mode : ChainMode) :
    ((t.delete ⟨path, condition⟩ mode).select (.whole path condition) mode).1 = [] := by
  rw [select_whole_answer, List.map_eq_nil_iff, matching, List.filter_eq_nil_iff]
  intro r hr hmatch
  have hstored := (List.mem_filter.1 (List.mem_of_getElem? (List.mem_zipIdx_iff_getElem?.1 hr))).2
  rw [hmatch] at hstored
  cases hstored

theorem delete_delete (t : Table) (s : Delete) (mode : ChainMode) :
    (t.delete s mode).delete s mode = t.delete s mode := by
  simp only [delete, List.filter_filter, Bool.and_self]

/-! ### Updates -/

/-- The row after an update of its table. -/
def overlay (schema : Schema) (s : Update) (mode : ChainMode) (row : Row) : Row :=
  if isMatch s.condition mode row then
    row.insertAll (s.assignments.filter fun a => schema.isEmpty || schema.contains a.1)
  else row

theorem update_eq (t : Table) (s : Update) (mode : ChainMode) :
    t.update s mode = { t with rows := t.rows.map (overlay t.schema s mode) } := rfl

theorem get?_insertAll_filter (row : Row) (assignments : List (String × Value)) (p : String → Bool)
    (field : String) :
    (row.insertAll (assignments.filter fun a => p a.1)).get? field =
      if p field then (assignments.reverse.lookup field).or (row.get? field) else row.get? field := by
  rw [Dict.get?_insertAll, ← List.filter_reverse, Dict.lookup_filter]
  split <;> rfl

theorem overlays_update (t : Table) (s : Update) (mode : ChainMode) :
    Overlays t s.assignments (t.arrangement s.condition none mode) (t.update s mode) where
  overlaid := by
    intro i hi
    obtain ⟨row, hrow, hmatch⟩ := mem_arrangement.1 hi
    refine ⟨row, overlay t.schema s mode row, hrow, ?_, fun field => ?_⟩
    · rw [update_eq, List.getElem?_map, hrow]
      rfl
    · rw [overlay, if_pos hmatch]
      exact get?_insertAll_filter row _ (fun f => t.schema.isEmpty || t.schema.contains f) field
  kept := by
    intro i hi
    rw [update_eq, List.getElem?_map]
    cases hrow : t.rows[i]? with
    | none => rfl
    | some row => exact congrArg some (if_neg fun h => hi ((isMatch_iff_mem_arrangement hrow).1 h))
  length_rows := List.length_map _
  schema := rfl
  counters := rfl

theorem insertAll_insertAll (row : Row) (entries : List (String × Value)) :
    (row.insertAll entries).insertAll entries = row.insertAll entries := by
  refine Dict.ext_get? fun field => ?_
  simp only [Dict.get?_insertAll, ← Option.or_assoc, Option.or_self]

/-- A row that is overlaid is the same after the next update, whether it still matches or not. -/
theorem overlay_overlay (schema : Schema) (s : Update) (mode : ChainMode) (row : Row) :
    overlay schema s mode (overlay schema s mode row) = overlay schema s mode row := by
  by_cases hmatch : isMatch s.condition mode row
  · have hrow : overlay schema s mode row = row.insertAll _ := if_pos hmatch
    rw [hrow, overlay]
    split
    · exact insertAll_insertAll _ _
    · rfl
  · have hrow : overlay schema s mode row = row := if_neg hmatch
    rw [hrow, hrow]

theorem update_update (t : Table) (s : Update) (mode : ChainMode) :
    (t.update s mode).update s mode = t.update s mode := by
  simp only [update_eq, List.map_map, Function.comp_def, overlay_overlay]

/-- **A selection returns, a removal takes out and an update overlays the rows at the same positions.**
After the removal no row is left to select, and a second removal or update changes nothing. -/
theorem condition_denotes_rows (t : Table) (path : TablePath) (condition : Option Clause)
    (mode : ChainMode) :
    ∃ positions,
      Reads t condition mode positions (t.select (.whole path condition) mode).1
        (t.select (.whole path condition) mode).2 ∧
      Removes t positions (t.delete ⟨path, condition⟩ mode) ∧
      ((t.delete ⟨path, condition⟩ mode).select (.whole path condition) mode).1 = [] ∧
      (t.delete ⟨path, condition⟩ mode).delete ⟨path, condition⟩ mode = t.delete ⟨path, condition⟩ mode ∧
      ∀ assignments : List (String × Value),
        Overlays t assignments positions (t.update ⟨path, assignments, condition⟩ mode) ∧
        (t.update ⟨path, assignments, condition⟩ mode).update ⟨path, assignments, condition⟩ mode =
          t.update ⟨path, assignments, condition⟩ mode := by
  refine ⟨t.arrangement condition none mode, reads_select t path condition mode, removes_delete t ⟨path, condition⟩ mode,
    select_delete t path condition mode, delete_delete t _ mode, fun assignments => ⟨?_, ?_⟩⟩
  · exact overlays_update t ⟨path, assignments, condition⟩ mode
  · exact update_update t _ mode

end Table
end TableQuery
