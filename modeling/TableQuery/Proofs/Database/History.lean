import TableQuery.Proofs.Database.Place
import TableQuery.Proofs.Schema.Completion
import TableQuery.Proofs.Store.Selection

/-! What has become of every stored row: selections have returned it with some of its columns only, and
updates have assigned fields. In a table with a schema this history tells the fields of the row. -/

namespace TableQuery

/-- What can happen to the fields of a stored row. -/
inductive Event
  | returned (columns : List String)
  | assigned (fields : List String)
  deriving DecidableEq

/-- The events of a row, the latest one first. -/
abbrev History := List Event

/-- Some selection has returned the row without the field, and no update has assigned it since. -/
def History.loses (k : String) : History → Bool
  | [] => false
  | .returned columns :: earlier => !columns.contains k || loses k earlier
  | .assigned fields :: earlier => !fields.contains k && loses k earlier

theorem History.exists_returned_of_loses {k : String} {h : History} (hk : h.loses k) :
    ∃ columns, Event.returned columns ∈ h ∧ k ∉ columns := by
  induction h with
  | nil => cases hk
  | cons e h ih =>
      have hlater : History.loses k h → ∃ columns, Event.returned columns ∈ e :: h ∧ k ∉ columns := by
        intro hk
        obtain ⟨columns, hmem, hnot⟩ := ih hk
        exact ⟨columns, List.mem_cons_of_mem _ hmem, hnot⟩
      cases e with
      | returned columns =>
          rw [loses, Bool.or_eq_true] at hk
          rcases hk with hk | hk
          · refine ⟨columns, List.mem_cons_self, fun hmem => ?_⟩
            rw [List.contains_iff_mem.2 hmem] at hk
            cases hk
          · exact hlater hk
      | assigned fields =>
          rw [loses, Bool.and_eq_true] at hk
          exact hlater hk.2

/-- The histories of the rows of a table when the table has been visited. -/
def Visit.record (mode : ChainMode) (t : Table) (hs : List History) : Visit → List History
  | .pass => hs
  | .run (.select s) =>
    match s.columns with
    | .all => hs
    | .names columns =>
      let positions := (Table.selected t.rows s mode).map Prod.snd
      hs.zipIdx.map fun h => if positions.contains h.2 then .returned columns :: h.1 else h.1
  | .run (.insert _) => hs ++ [[]]
  | .run (.update s) => (t.rows.zip hs).map fun r =>
      if Table.isMatch s.condition mode r.1 then .assigned (s.assignments.map Prod.fst) :: r.2 else r.2
  | .run (.delete s) =>
    ((t.rows.zip hs).filter fun r => !Table.isMatch s.condition mode r.1).map Prod.snd
  | .append rows => hs ++ rows.map fun _ => []
  | .define _ => hs
  | .drop => []

/-- The row has the declared fields that its history leaves it, if any are declared. -/
def Row.Follows (s : Schema) (row : Row) (h : History) : Prop :=
  s.isEmpty = false → ∀ k, row.contains k = (s.contains k && !h.loses k)

def Table.Follows (t : Table) (hs : List History) : Prop := List.Forall₂ (Row.Follows t.schema) t.rows hs

section Lists

variable {α β γ δ : Type} {R : α → β → Prop} {S : γ → δ → Prop} {as : List α} {bs : List β}

theorem forall₂_map_zipIdx (h : List.Forall₂ R as bs) {f : α × Nat → γ} {g : β × Nat → δ}
    (hfg : ∀ a b i, R a b → S (f (a, i)) (g (b, i))) :
    List.Forall₂ S (as.zipIdx.map f) (bs.zipIdx.map g) := by
  suffices hall : ∀ n, List.Forall₂ S ((as.zipIdx n).map f) ((bs.zipIdx n).map g) from hall 0
  induction h with
  | nil => exact fun n => .nil
  | cons hab _ ih => exact fun n => .cons (hfg _ _ n hab) (ih (n + 1))

theorem forall₂_map_zip (h : List.Forall₂ R as bs) {f : α → γ} {g : α × β → δ}
    (hfg : ∀ a b, R a b → S (f a) (g (a, b))) :
    List.Forall₂ S (as.map f) ((as.zip bs).map g) := by
  induction h with
  | nil => exact .nil
  | cons hab _ ih => exact .cons (hfg _ _ hab) ih

theorem forall₂_filter_zip (h : List.Forall₂ R as bs) (p : α → Bool) :
    List.Forall₂ R (as.filter p) (((as.zip bs).filter fun r => p r.1).map Prod.snd) := by
  induction h with
  | nil => exact .nil
  | @cons a b as bs hab _ ih =>
      rw [List.zip_cons_cons, List.filter_cons, List.filter_cons]
      cases p a with
      | true => exact .cons hab ih
      | false => exact ih

end Lists

variable {t : Table} {hs : List History} {clock : Clock} {mode : ChainMode}

theorem Row.follows_complete (s : Schema) (d : Draft) : Row.Follows s (s.complete d).row [] := by
  intro hs k
  rw [Schema.contains_complete hs]
  exact (Bool.and_true _).symm

theorem Row.Follows.returned {s : Schema} {row : Row} {h : History} (hrow : Row.Follows s row h)
    (columns : List String) :
    Row.Follows s (Table.project (.names columns) row) (.returned columns :: h) := by
  intro hs k
  rw [Table.project, Dict.contains_filterKeys, hrow hs k, History.loses, Bool.not_or, Bool.not_not]
  exact Bool.and_left_comm _ _ _

theorem Row.Follows.assigned {s : Schema} {row : Row} {h : History} (hrow : Row.Follows s row h)
    (assignments : List (String × Value)) :
    Row.Follows s (row.insertAll (assignments.filter fun a => s.isEmpty || s.contains a.1))
      (.assigned (assignments.map Prod.fst) :: h) := by
  intro hs k
  have hassigned : ((assignments.filter fun a => s.isEmpty || s.contains a.1).map Prod.fst).contains k =
      (s.contains k && (assignments.map Prod.fst).contains k) := by
    rw [hs, Bool.eq_iff_iff, List.contains_iff_mem, Bool.and_eq_true, List.contains_iff_mem, List.mem_map,
      List.mem_map]
    constructor
    · rintro ⟨a, ha, rfl⟩
      obtain ⟨hmem, hdeclared⟩ := List.mem_filter.1 ha
      exact ⟨hdeclared, a, hmem, rfl⟩
    · rintro ⟨hdeclared, a, hmem, rfl⟩
      exact ⟨a, List.mem_filter.2 ⟨hmem, hdeclared⟩, rfl⟩
  rw [Dict.contains_insertAll, hrow hs k, hassigned, History.loses, Bool.not_and, Bool.not_not,
    ← Bool.and_or_distrib_left]
  congr 1
  exact Bool.or_comm _ _

theorem Table.Follows.insertAll (h : t.Follows hs) (rows : List Row) :
    (t.insertAll clock rows).1.Follows (hs ++ rows.map fun _ => []) := by
  induction rows generalizing t hs clock with
  | nil => rwa [List.map_nil, List.append_nil]
  | cons row rows ih =>
      rw [insertAll_cons, List.map_cons, List.append_cons]
      exact ih (List.rel_append h (.cons (Row.follows_complete _ _) .nil))

theorem Table.Follows.select (h : t.Follows hs) (s : Select) :
    (t.select s mode).2.Follows ((Visit.run (.select s)).record mode t hs) := by
  rw [Follows, select_rows, Visit.record]
  cases s.columns with
  | all =>
      have hrows : t.rows.zipIdx.map (keep .all ((selected t.rows s mode).map Prod.snd)) = t.rows := by
        refine map_zipIdx_eq_self_iff.2 fun i row _ => ?_
        exact ite_self _
      rw [hrows]
      exact h
  | names columns =>
      refine forall₂_map_zipIdx h fun row history i hrow => ?_
      rw [keep]
      split
      · exact hrow.returned columns
      · exact hrow

theorem Table.Follows.update (h : t.Follows hs) (s : Update) :
    (t.update s mode).Follows ((Visit.run (.update s)).record mode t hs) := by
  refine forall₂_map_zip h fun row history hrow => ?_
  show Row.Follows t.schema (if isMatch s.condition mode row then _ else row) (if _ then _ else history)
  split
  · exact hrow.assigned s.assignments
  · exact hrow

theorem Table.Follows.delete (h : t.Follows hs) (s : Delete) :
    (t.delete s mode).Follows ((Visit.run (.delete s)).record mode t hs) :=
  forall₂_filter_zip h _

/-- **Every visit keeps the histories right.** -/
theorem Visit.follows_apply {t : Option Table} (h : (t.getD .empty).Follows hs) (v : Visit) :
    ((v.apply clock mode t).getD .empty).Follows (v.record mode (t.getD .empty) hs) := by
  cases v with
  | pass => exact h
  | run s =>
      cases s with
      | select s => exact h.select s
      | insert s => exact h.insertAll [.ofList (s.columns.zip s.values)]
      | update s => exact h.update s
      | delete s => exact h.delete s
  | append rows => exact h.insertAll rows
  | define schema =>
      cases t with
      | some t => exact h
      | none =>
          cases h
          exact .nil
  | drop => exact .nil

variable {σ : Type} [Persistence σ]

/-- The histories of the rows of one table after a run, from those before it. -/
def Database.histories (db : Database σ) (ds : Datastore) (name : String) (hs : List History) :
    List (Clock × Operation) → List History
  | [] => hs
  | o :: ops => (db.after o).histories ds name
      ((o.2.visit db.config ds name).record db.config.mode (db.store.tableOrNew ds name) hs) ops

/-- **After a run every row has the fields that its history leaves it.** -/
theorem Database.follows_runAll {db : Database σ} {ds : Datastore} {name : String}
    (h : (db.store.tableOrNew ds name).Follows hs) (ops : List (Clock × Operation)) :
    ((db.runAll ops).store.tableOrNew ds name).Follows (db.histories ds name hs ops) := by
  induction ops generalizing db hs with
  | nil => exact h
  | cons o ops ih =>
      refine ih ?_
      rw [Store.tableOrNew, table?_after]
      exact Visit.follows_apply h _

end TableQuery
