import TableQuery.Proofs.Store.Selection
import TableQuery.Proofs.Table.Sorting

/-! What a selection answers and what it leaves. The rows that match are arranged in one sequence of
positions, and a limit only cuts it off. The rows at the chosen positions are answered and stay stored,
both with the listed columns only, and the rest of the table is as before. -/

namespace TableQuery

/-- Whether the field is listed. -/
def Columns.lists : Columns → String → Bool
  | .all, _ => true
  | .names columns, field => columns.contains field

namespace Table

variable {t : Table} {s : Select} {condition : Option Clause} {order : Option SortOrder} {mode : ChainMode}

/-- These are the positions of the rows that satisfy a condition, each once, in the order of sorting. -/
structure Arranged (t : Table) (condition : Option Clause) (order : Option SortOrder) (mode : ChainMode)
    (positions : List Nat) : Prop where
  mem_iff : ∀ i, i ∈ positions ↔
    ∃ row, t.rows[i]? = some row ∧ ∀ clause, condition = some clause → clause.holds row mode
  nodup : positions.Nodup
  ordered : positions.Pairwise fun i j =>
    ∀ a b, t.rows[i]? = some a → t.rows[j]? = some b → Before order (a, i) (b, j)

/-- The rows at these positions are answered with the listed columns only and are stored like that
afterwards; nothing else changes. -/
structure Returns (t : Table) (columns : Columns) (positions : List Nat) (answer : List Row)
    (after : Table) : Prop where
  length_answer : answer.length = positions.length
  returned : ∀ k i : Nat, positions[k]? = some i → ∃ stored row : Row, t.rows[i]? = some stored ∧
    answer[k]? = some row ∧ after.rows[i]? = some row ∧
    ∀ field, row.get? field = if columns.lists field then stored.get? field else none
  kept : ∀ i, i ∉ positions → after.rows[i]? = t.rows[i]?
  length_rows : after.rows.length = t.rows.length
  schema : after.schema = t.schema
  counters : after.counters = t.counters

/-! ### The positions -/

theorem isMatch_iff {row : Row} :
    isMatch condition mode row ↔ ∀ clause, condition = some clause → clause.holds row mode := by
  cases condition with
  | none => exact iff_of_true rfl (by rintro _ ⟨⟩)
  | some clause =>
      constructor
      · rintro h _ ⟨⟩
        exact h
      · exact fun h => h clause rfl

theorem mem_matching {rows : List Row} {x : Row × Nat} :
    x ∈ matching rows condition mode ↔ rows[x.2]? = some x.1 ∧ isMatch condition mode x.1 := by
  rw [matching, List.mem_filter, List.mem_zipIdx_iff_getElem?]

theorem pairwise_matching (rows : List Row) (condition : Option Clause) (mode : ChainMode) :
    (matching rows condition mode).Pairwise fun x y => x.2 < y.2 := by
  refine List.Pairwise.filter _ (List.pairwise_map.1 ?_)
  rw [List.zipIdx_map_snd]
  exact List.pairwise_lt_range'

theorem map_fst_matching (rows : List Row) (condition : Option Clause) (mode : ChainMode) :
    (matching rows condition mode).map Prod.fst = rows.filter (isMatch condition mode) :=
  calc (matching rows condition mode).map Prod.fst
    _ = (rows.zipIdx.map Prod.fst).filter (isMatch condition mode) := by
        rw [List.filter_map]
        rfl
    _ = rows.filter (isMatch condition mode) := by rw [List.zipIdx_map_fst]

/-- The positions of all rows that match, in the order of sorting. -/
def arrangement (t : Table) (condition : Option Clause) (order : Option SortOrder) (mode : ChainMode) :
    List Nat :=
  (sortRows order (matching t.rows condition mode)).map Prod.snd

theorem mem_arrangement {i : Nat} : i ∈ t.arrangement condition order mode ↔
    ∃ row, t.rows[i]? = some row ∧ isMatch condition mode row := by
  rw [arrangement, List.mem_map]
  constructor
  · rintro ⟨x, hx, rfl⟩
    exact ⟨x.1, mem_matching.1 ((sortRows_perm order _).mem_iff.1 hx)⟩
  · rintro ⟨row, hrow⟩
    exact ⟨(row, i), (sortRows_perm order _).mem_iff.2 (mem_matching.2 hrow), rfl⟩

theorem mem_arrangement_iff {i : Nat} : i ∈ t.arrangement condition order mode ↔
    ∃ row, t.rows[i]? = some row ∧ ∀ clause, condition = some clause → clause.holds row mode := by
  rw [mem_arrangement]
  exact exists_congr fun _ => and_congr_right fun _ => isMatch_iff

theorem arranged_arrangement
    (h : ∀ o, order = some o → ∀ c ∈ o.columns, Value.Consistent (sortValues t.rows c)) :
    Arranged t condition order mode (t.arrangement condition order mode) where
  mem_iff _ := mem_arrangement_iff
  nodup := by
    refine ((sortRows_perm order _).map Prod.snd).nodup_iff.2 (List.pairwise_map.2 ?_)
    exact (pairwise_matching t.rows condition mode).imp fun h => h.ne
  ordered := by
    have hget : ∀ x ∈ sortRows order (matching t.rows condition mode), t.rows[x.2]? = some x.1 :=
      fun x hx => (mem_matching.1 ((sortRows_perm order _).mem_iff.1 hx)).1
    have hsorted : (sortRows order (matching t.rows condition mode)).Pairwise (Before order) := by
      refine pairwise_sortRows h (fun x hx => ?_) (pairwise_matching t.rows condition mode)
      exact List.mem_of_getElem? (mem_matching.1 hx).1
    refine List.pairwise_map.2 (hsorted.imp_of_mem fun {x y} hx hy hxy a b ha hb => ?_)
    rw [hget x hx] at ha
    rw [hget y hy] at hb
    cases ha
    cases hb
    exact hxy

/-! ### The rows -/

theorem get?_project (columns : Columns) (row : Row) (field : String) :
    (project columns row).get? field = if columns.lists field then row.get? field else none := by
  cases columns with
  | all => rfl
  | names names => exact Dict.get?_filterKeys row _ field

/-- What a selection returns and leaves is told by the positions that it chooses. -/
theorem returns_select (t : Table) (s : Select) (mode : ChainMode) :
    Returns t s.columns ((selected t.rows s mode).map Prod.snd) (t.select s mode).1 (t.select s mode).2 where
  length_answer := by
    rw [select, List.length_map, List.length_map]
  returned := by
    intro k i hk
    obtain ⟨x, hx, rfl⟩ := Option.map_eq_some_iff.1 (List.getElem?_map ▸ hk)
    have hmem := List.mem_of_getElem? hx
    refine ⟨x.1, project s.columns x.1, getElem?_of_mem_selected hmem, ?_, ?_, get?_project _ _⟩
    · rw [select, List.getElem?_map, hx]
      rfl
    · rw [select_rows, getElem?_map_zipIdx, getElem?_of_mem_selected hmem, Option.map_some,
        keep_of_mem_selected hmem]
  kept := by
    intro i hi
    rw [select_rows, getElem?_map_zipIdx]
    cases hrow : t.rows[i]? with
    | none => rfl
    | some row => exact congrArg some (if_neg fun h => hi (List.contains_iff_mem.1 h))
  length_rows := by
    rw [select_rows, List.length_map, List.length_zipIdx]
  schema := rfl
  counters := rfl

theorem selected_positions (t : Table) (s : Select) (mode : ChainMode) :
    (selected t.rows s mode).map Prod.snd =
      s.limit.elim (t.arrangement s.condition s.order mode) (t.arrangement s.condition s.order mode).take := by
  rw [selected]
  cases s.limit with
  | none => rfl
  | some n => exact List.map_take

/-- **A selection arranges the rows that satisfy its condition and returns as many of them as its limit
allows.** The arrangement does not depend on the limit. -/
theorem select_arranged_rows (t : Table) (s : Select) (mode : ChainMode)
    (h : ∀ o, s.order = some o → ∀ c ∈ o.columns, Value.Consistent (sortValues t.rows c)) :
    ∃ positions, Arranged t s.condition s.order mode positions ∧
      ∀ limit : Option Nat, Returns t s.columns (limit.elim positions positions.take)
        (t.select { s with limit } mode).1 (t.select { s with limit } mode).2 := by
  refine ⟨t.arrangement s.condition s.order mode, arranged_arrangement h, fun limit => ?_⟩
  have hreturns := returns_select t { s with limit } mode
  rwa [selected_positions] at hreturns

/-- Two columns of different kinds, one of them missing in places, from the greatest down. -/
theorem select_arranged_scores :
    let row (name : String) (score : Value) : Row := .ofList [("name", .text name), ("score", score)]
    let t : Table := ⟨[row "b" (.int 1), row "a" (.float (.ofInt 2)), .ofList [("name", .text "c")],
      row "b" (.int 2), row "c" (.bool true)], .empty, .start⟩
    let s : Select := ⟨.names ["name"], ⟨none, "t"⟩, none, some ⟨["score", "name"], .descending⟩, some 2⟩
    (∀ o, s.order = some o → ∀ c ∈ o.columns, Value.Consistent (sortValues t.rows c)) ∧
      ∃ positions, Arranged t s.condition s.order .sequential positions ∧
        Returns t s.columns (positions.take 2) (t.select s .sequential).1 (t.select s .sequential).2 := by
  intro row t s
  have hconsistent : ∀ o, s.order = some o → ∀ c ∈ o.columns, Value.Consistent (sortValues t.rows c) := by
    rintro o ⟨⟩
    decide +kernel
  obtain ⟨positions, harranged, hreturns⟩ := select_arranged_rows t s .sequential hconsistent
  exact ⟨hconsistent, positions, harranged, hreturns (some 2)⟩

end Table
end TableQuery
