import TableQuery.Proofs.Store.Tables
import TableQuery.Table.Execute

/-! When a selection changes the store that it reads: exactly if it creates its table or returns a row
of which it keeps only a part. It then never leads back to an earlier store, for a selection removes no
table and adds no field. -/

namespace TableQuery

namespace Table

variable {rows : List Row} {s : Select} {mode : ChainMode}

theorem sortRows_perm (order : Option SortOrder) (placed : List (Row × Nat)) :
    (sortRows order placed).Perm placed := by
  cases order with
  | none => exact List.Perm.refl _
  | some o => exact List.mergeSort_perm _ _

theorem mem_zipIdx_of_mem_selected {r : Row × Nat} (h : r ∈ selected rows s mode) :
    r ∈ rows.zipIdx := by
  have hsorted : r ∈ sortRows s.order (matching rows s.condition mode) := by
    rw [selected] at h
    cases hlimit : s.limit with
    | none =>
        rw [hlimit] at h
        exact h
    | some n =>
        rw [hlimit] at h
        exact List.mem_of_mem_take h
  exact (List.mem_filter.1 ((sortRows_perm s.order _).mem_iff.1 hsorted)).1

/-- A row that is returned is the stored row at its position. -/
theorem getElem?_of_mem_selected {r : Row × Nat} (h : r ∈ selected rows s mode) :
    rows[r.2]? = some r.1 :=
  List.mem_zipIdx_iff_getElem?.1 (mem_zipIdx_of_mem_selected h)

theorem getElem?_map_zipIdx {α β : Type} (as : List α) (f : α × Nat → β) (i : Nat) :
    (as.zipIdx.map f)[i]? = as[i]?.map fun a => f (a, i) := by
  rw [List.getElem?_map, List.getElem?_zipIdx, Option.map_map, Nat.zero_add]
  rfl

theorem map_zipIdx_eq_self_iff {α : Type} {as : List α} {f : α × Nat → α} :
    as.zipIdx.map f = as ↔ ∀ i a, as[i]? = some a → f (a, i) = a := by
  constructor
  · intro h i a ha
    have hi := getElem?_map_zipIdx as f i
    rw [h, ha] at hi
    exact (Option.some.inj hi).symm
  · intro h
    refine List.ext_getElem? fun i => ?_
    rw [getElem?_map_zipIdx]
    cases ha : as[i]? with
    | none => rfl
    | some a => exact congrArg some (h i a ha)

/-- The selection returns a row of which it keeps only a part. -/
def Prunes (t : Table) (s : Select) (mode : ChainMode) : Prop :=
  ∃ r ∈ selected t.rows s mode, project s.columns r.1 ≠ r.1

/-- The stored row after a selection that returns the rows at some positions. -/
def keep (columns : Columns) (positions : List Nat) (r : Row × Nat) : Row :=
  if positions.contains r.2 then project columns r.1 else r.1

theorem select_rows (t : Table) (s : Select) (mode : ChainMode) :
    (t.select s mode).2.rows =
      t.rows.zipIdx.map (keep s.columns ((selected t.rows s mode).map Prod.snd)) := rfl

theorem keep_of_mem_selected {t : Table} {r : Row × Nat} (h : r ∈ selected t.rows s mode) :
    keep s.columns ((selected t.rows s mode).map Prod.snd) r = project s.columns r.1 :=
  if_pos (List.contains_iff_mem.2 (List.mem_map_of_mem h))

/-- A selection changes its table exactly if it keeps only a part of a row that it returns. -/
theorem select_table_ne_iff (t : Table) (s : Select) (mode : ChainMode) :
    (t.select s mode).2 ≠ t ↔ t.Prunes s mode := by
  have hrows : (t.select s mode).2 = t ↔ (t.select s mode).2.rows = t.rows := by
    constructor
    · exact congrArg rows
    · intro h
      obtain ⟨rows, schema, counters⟩ := t
      exact congrArg (Table.mk · schema counters) h
  rw [ne_eq, hrows, select_rows, map_zipIdx_eq_self_iff]
  constructor
  · intro h
    by_contra hprunes
    refine h fun i row hrow => ?_
    rw [keep]
    split
    · rename_i hcontains
      obtain ⟨r, hr, rfl⟩ := List.mem_map.1 (List.contains_iff_mem.1 hcontains)
      have hstored := getElem?_of_mem_selected hr
      rw [hstored] at hrow
      cases hrow
      exact not_not.1 fun hne => hprunes ⟨r, hr, hne⟩
    · rfl
  · rintro ⟨r, hr, hne⟩ h
    refine hne ?_
    rw [← keep_of_mem_selected hr]
    exact h r.2 r.1 (getElem?_of_mem_selected hr)

/-! ### The fields of a table -/

/-- The number of fields in all rows. -/
def fieldCount (t : Table) : Nat := (t.rows.map Dict.size).sum

theorem size_project_le (columns : Columns) (row : Row) : (project columns row).size ≤ row.size := by
  cases columns with
  | all => exact le_rfl
  | names names => exact List.length_filter_le _ _

theorem size_project_lt {columns : Columns} {row : Row} (h : project columns row ≠ row) :
    (project columns row).size < row.size := by
  cases columns with
  | all => exact absurd rfl h
  | names names =>
      refine lt_of_le_of_ne (size_project_le _ row) fun heq => h (Dict.ext ?_)
      exact List.filter_sublist.eq_of_length heq

theorem size_keep_le (columns : Columns) (positions : List Nat) (r : Row × Nat) :
    (keep columns positions r).size ≤ r.1.size := by
  rw [keep]
  split
  · exact size_project_le columns r.1
  · exact le_rfl

theorem Prunes.fieldCount_lt {t : Table} (h : t.Prunes s mode) :
    (t.select s mode).2.fieldCount < t.fieldCount := by
  obtain ⟨r, hr, hne⟩ := h
  have hrows : t.fieldCount = (t.rows.zipIdx.map fun r => Dict.size r.1).sum := by
    rw [fieldCount, ← List.zipIdx_map_fst 0 t.rows, List.map_map, List.zipIdx_map_fst]
    rfl
  rw [fieldCount, select_rows, List.map_map, hrows]
  refine List.sum_lt_sum _ _ (fun r _ => size_keep_le _ _ r) ⟨r, mem_zipIdx_of_mem_selected hr, ?_⟩
  rw [Function.comp_apply, keep_of_mem_selected hr]
  exact size_project_lt hne

end Table

namespace Store

variable {store : Store} {ds : Datastore} {name : String}

/-- What a selection leaves in the place of its table. -/
theorem put_select_ne_iff (store : Store) (ds : Datastore) (name : String) (s : Select) (mode : ChainMode) :
    store.put ds name ((store.tableOrNew ds name).select s mode).2 ≠ store ↔
      ∀ t, store.table? ds name = some t → t.Prunes s mode := by
  rw [ne_eq, put_eq_self_iff]
  cases htable : store.table? ds name with
  | none => exact iff_of_true (by rintro ⟨⟩) (by rintro t ⟨⟩)
  | some t =>
      rw [tableOrNew_of_table? htable, Option.some_inj]
      have hne : ¬ t = (t.select s mode).2 ↔ t.Prunes s mode := by
        rw [eq_comm]
        exact Table.select_table_ne_iff t s mode
      exact hne.trans ⟨fun h _ ht => Option.some.inj ht ▸ h, fun h => h t rfl⟩

/-- More tables, or as many with fewer fields. -/
def Ages (a b : Store) : Prop :=
  a.total (fun _ => 1) < b.total (fun _ => 1) ∨
    a.total (fun _ => 1) = b.total (fun _ => 1) ∧ b.total Table.fieldCount < a.total Table.fieldCount

theorem Ages.ne {a b : Store} (h : a.Ages b) : a ≠ b := by
  rintro rfl
  rcases h with h | ⟨-, h⟩
  · exact lt_irrefl _ h
  · exact lt_irrefl _ h

theorem Ages.trans {a b c : Store} (hab : a.Ages b) (hbc : b.Ages c) : a.Ages c := by
  rcases hab with hab | ⟨hab, hab'⟩
  · rcases hbc with hbc | ⟨hbc, -⟩
    · exact Or.inl (hab.trans hbc)
    · exact Or.inl (hbc ▸ hab)
  · rcases hbc with hbc | ⟨hbc, hbc'⟩
    · exact Or.inl (hab ▸ hbc)
    · exact Or.inr ⟨hab.trans hbc, hbc'.trans hab'⟩

/-- A selection that changes the store makes it older. -/
theorem ages_put_select {s : Select} {mode : ChainMode}
    (h : ∀ t, store.table? ds name = some t → t.Prunes s mode) :
    store.Ages (store.put ds name ((store.tableOrNew ds name).select s mode).2) := by
  cases htable : store.table? ds name with
  | none =>
      refine Or.inl ?_
      rw [total_put_of_none _ _ htable]
      omega
  | some t =>
      rw [tableOrNew_of_table? htable]
      have hcount := total_put_of_some (fun _ => 1) (t.select s mode).2 htable
      have hfields := total_put_of_some Table.fieldCount (t.select s mode).2 htable
      have hlt := (h t htable).fieldCount_lt
      refine Or.inr ⟨by omega, by omega⟩

end Store
end TableQuery
