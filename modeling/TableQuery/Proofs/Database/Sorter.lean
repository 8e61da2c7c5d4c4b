import TableQuery.Proofs.Database.Run
import TableQuery.Proofs.Table.Selection
import TableQuery.Proofs.Value.Consistency

/-! Ways to sort. A stable sort promises to sort rows whose values are in a consistent order. Of other rows it
promises only that it loses none: they may come back in any order, or the sort gives up, and then the program
ends and its command is not answered. A command that sorts no such rows is answered in the same way whatever the
sort is. -/

namespace TableQuery

variable {σ : Type} [Persistence σ]

/-! ### What a sort promises -/

namespace Table

/-- The rows have values in a consistent order in each column that they are sorted by. -/
def Sortable (order : Option SortOrder) (rows : List Row) : Prop :=
  ∀ o, order = some o → ∀ c ∈ o.columns, Value.Consistent (sortValues rows c)

instance (order : Option SortOrder) (rows : List Row) : Decidable (Sortable order rows) :=
  match order with
  | none => isTrue fun _ h => nomatch h
  | some o => decidable_of_iff (∀ c ∈ o.columns, Value.Consistent (sortValues rows c))
      ⟨fun h _ ho => Option.some.inj ho ▸ h, fun h => h o rfl⟩

/-- That is so unless two different integers in one of the columns meet the number that is nearest to both. -/
theorem sortable_iff_not_clash {order : Option SortOrder} {rows : List Row} :
    Sortable order rows ↔ ∀ o, order = some o → ∀ c ∈ o.columns, ¬ Value.Clash {v | v ∈ sortValues rows c} :=
  forall₂_congr fun _ _ => forall₂_congr fun _ _ => Value.consistent_iff

end Table

/-- A stable sort of rows with their positions. It may give up. -/
structure Sorter where
  sort : Option SortOrder → List (Row × Nat) → Option (List (Row × Nat))
  perm : ∀ {order placed sorted}, sort order placed = some sorted → sorted.Perm placed
  sorts : ∀ {order placed}, Table.Sortable order (placed.map Prod.fst) →
    (placed.Pairwise fun x y => x.2 < y.2) →
      ∃ sorted, sort order placed = some sorted ∧ sorted.Pairwise (Table.Before order)

namespace Table

variable {order : Option SortOrder} {rows : List Row} {placed : List (Row × Nat)}

theorem before_some_iff {o : SortOrder} {x y : Row × Nat} :
    Before (some o) x y ↔ (compareRows o.direction x.1 y.1 o.columns).then (compare x.2 y.2) = .lt := by
  rw [Ordering.then_eq_lt, compareRows_eq_lt_iff, compareRows_eq_eq_iff, Nat.compare_eq_lt]
  rfl

theorem Before.asymm (h : Sortable order rows) {x y : Row × Nat} (hx : x.1 ∈ rows) (hy : y.1 ∈ rows)
    (hxy : Before order x y) : ¬ Before order y x := by
  intro hyx
  cases order with
  | none => exact Nat.lt_asymm hxy hyx
  | some o =>
      have hrows : compareRows o.direction y.1 x.1 o.columns = (compareRows o.direction x.1 y.1 o.columns).swap :=
        (transCmp_compareRows (h o rfl) o.direction).eq_swap (a := ⟨y.1, hy⟩) (b := ⟨x.1, hx⟩)
      rw [before_some_iff] at hxy hyx
      rw [hrows, ← Nat.compare_swap, ← Ordering.swap_then, hxy] at hyx
      cases hyx

theorem pairwise_sortRows_of_sortable (h : Sortable order (placed.map Prod.fst))
    (hplaced : placed.Pairwise fun x y => x.2 < y.2) : (sortRows order placed).Pairwise (Before order) :=
  pairwise_sortRows h (fun _ hx => List.mem_map_of_mem hx) hplaced

/-- What a selection that has chosen these rows answers and leaves. -/
def answer (t : Table) (columns : Columns) (chosen : List (Row × Nat)) : List Row × Table :=
  (chosen.map fun r => project columns r.1,
    { t with rows := t.rows.zipIdx.map fun r =>
        if (chosen.map Prod.snd).contains r.2 then project columns r.1 else r.1 })

theorem select_eq_answer (t : Table) (s : Select) (mode : ChainMode) :
    t.select s mode = t.answer s.columns (selected t.rows s mode) := rfl

end Table

/-! ### Commands with any sort -/

/-- The rows that the command sorts, if it sorts any, are in a consistent order. -/
def Database.Sortable (db : Database σ) (text : String) (subs : Option Substitutions) : Prop :=
  ∀ s ds, Statement.ofText text subs = .ok (.select s) → db.datastore s.table = .ok ds →
    Table.Sortable s.order ((db.store.tableOrNew ds s.table.table).rows.filter
      (Table.isMatch s.condition db.config.mode))

namespace Sorter

/-- A selection with this sort. -/
def select (sorter : Sorter) (t : Table) (s : Select) (mode : ChainMode) : Option (List Row × Table) :=
  (sorter.sort s.order (Table.matching t.rows s.condition mode)).map fun rows =>
    t.answer s.columns (s.limit.elim rows rows.take)

/-- Runs a statement with this sort. There is no result where the sort gives up. -/
def execute (sorter : Sorter) (db : Database σ) (clock : Clock) :
    Statement → Option (Except QueryError (List Row × Database σ))
  | .select s =>
    match db.datastore s.table with
    | .error err => some (.error err)
    | .ok ds =>
      (sorter.select (db.store.tableOrNew ds s.table.table) s db.config.mode).map fun r =>
        .ok (r.1, { db with store := db.store.put ds s.table.table r.2 })
  | s => some (db.execute clock s)

/-- Runs the text of a command with this sort. -/
def query (sorter : Sorter) (db : Database σ) (clock : Clock) (text : String) (subs : Option Substitutions) :
    Option (Except QueryError (List Row × Database σ)) :=
  match Statement.ofText text subs with
  | .error err => some (.error err)
  | .ok s => sorter.execute db clock s

/-- The sort of the tables is one. -/
def merge : Sorter where
  sort order placed := some (Table.sortRows order placed)
  perm h := Option.some.inj h ▸ Table.sortRows_perm _ _
  sorts h hplaced := ⟨_, rfl, Table.pairwise_sortRows_of_sortable h hplaced⟩

/-- A sort that gives up wherever it has promised nothing. -/
def cautious : Sorter where
  sort order placed :=
    if Table.Sortable order (placed.map Prod.fst) then some (Table.sortRows order placed) else none
  perm h := by
    obtain ⟨-, h⟩ := Option.ite_none_right_eq_some.1 h
    exact Option.some.inj h ▸ Table.sortRows_perm _ _
  sorts h hplaced := ⟨_, if_pos h, Table.pairwise_sortRows_of_sortable h hplaced⟩

variable {sorter : Sorter}

/-- A sort has no choice where the order is consistent. -/
theorem sort_of_sortable {order : Option SortOrder} {placed : List (Row × Nat)}
    (h : Table.Sortable order (placed.map Prod.fst)) (hplaced : placed.Pairwise fun x y => x.2 < y.2) :
    sorter.sort order placed = some (Table.sortRows order placed) := by
  obtain ⟨sorted, hsort, hsorted⟩ := sorter.sorts h hplaced
  have hperm := sorter.perm hsort
  have hmerged := Table.sortRows_perm order placed
  have hone : sorted = Table.sortRows order placed := by
    refine List.Perm.eq_of_pairwise (fun x y hx hy hxy hyx => ?_) hsorted
      (Table.pairwise_sortRows_of_sortable h hplaced) (hperm.trans hmerged.symm)
    have hfst : ∀ {r}, r ∈ placed → r.1 ∈ placed.map Prod.fst := List.mem_map_of_mem
    exact absurd hyx (hxy.asymm h (hfst (hperm.mem_iff.1 hx)) (hfst (hmerged.mem_iff.1 hy)))
  rw [hsort, hone]

section Selection

variable {t : Table} {s : Select} {mode : ChainMode}

theorem select_of_sort
    (h : sorter.sort s.order (Table.matching t.rows s.condition mode) =
      some (Table.sortRows s.order (Table.matching t.rows s.condition mode))) :
    sorter.select t s mode = some (t.select s mode) := by
  rw [select, h, Table.select_eq_answer, Table.selected]
  cases s.limit <;> rfl

theorem select_of_sortable (h : Table.Sortable s.order (t.rows.filter (Table.isMatch s.condition mode))) :
    sorter.select t s mode = some (t.select s mode) := by
  rw [← Table.map_fst_matching] at h
  exact select_of_sort (sort_of_sortable h (Table.pairwise_matching t.rows s.condition mode))

theorem select_cautious_of_not_sortable
    (h : ¬ Table.Sortable s.order (t.rows.filter (Table.isMatch s.condition mode))) :
    cautious.select t s mode = none := by
  rw [← Table.map_fst_matching] at h
  have hsort : cautious.sort s.order (Table.matching t.rows s.condition mode) = none := if_neg h
  rw [select, hsort]
  rfl

end Selection

variable {db : Database σ} {clock : Clock} {text : String} {subs : Option Substitutions}

/-- A command whose selection, if it is one, is as with the sort of the tables is answered as with that sort. -/
theorem query_of_select
    (h : ∀ s ds, Statement.ofText text subs = .ok (.select s) → db.datastore s.table = .ok ds →
      sorter.select (db.store.tableOrNew ds s.table.table) s db.config.mode =
        some ((db.store.tableOrNew ds s.table.table).select s db.config.mode)) :
    sorter.query db clock text subs = some (db.query clock text subs) := by
  rw [query, Database.query]
  cases hread : Statement.ofText text subs with
  | error err => rfl
  | ok s =>
      cases s with
      | insert s | update s | delete s => rfl
      | select s =>
          cases hds : db.datastore s.table with
          | error err => simp only [execute, hds, ok_bind, Database.execute, Statement.table, error_bind]
          | ok ds =>
              simp only [execute, hds, h s ds hread hds]
              rw [ok_bind, Database.execute_eq hds]
              rfl

/-- The commands are run with that sort. -/
theorem query_merge : merge.query db clock text subs = some (db.query clock text subs) :=
  query_of_select fun _ _ _ _ => select_of_sort rfl

/-- **A command that sorts only rows in a consistent order is answered in the same way by every sort.** -/
theorem query_of_sortable (h : db.Sortable text subs) :
    sorter.query db clock text subs = some (db.query clock text subs) :=
  query_of_select fun s ds hread hds => select_of_sortable (h s ds hread hds)

/-- A command that sorts other rows may stay without an answer. -/
theorem query_cautious_of_not_sortable (h : ¬ db.Sortable text subs) :
    cautious.query db clock text subs = none := by
  simp only [Database.Sortable, not_forall] at h
  obtain ⟨s, ds, hread, hds, hsortable⟩ := h
  rw [query, hread]
  simp only [execute, hds, select_cautious_of_not_sortable hsortable]
  rfl

end Sorter
end TableQuery
