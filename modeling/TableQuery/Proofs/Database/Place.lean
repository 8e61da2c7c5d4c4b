import TableQuery.Proofs.Database.Run
import TableQuery.Proofs.Store.Tables

/-! What an operation does to the store: it is about one place, where it leaves a table or none, and
every other place stays as it was. A run is thus followed one place at a time. -/

namespace TableQuery

/-- What is done to the table at one place. -/
inductive Visit
  | pass
  | run (s : Statement)
  | append (rows : List Row)
  | define (schema : Schema)
  | drop
  deriving DecidableEq

/-- The table at the place afterwards. -/
def Visit.apply (clock : Clock) (mode : ChainMode) (t : Option Table) : Visit → Option Table
  | .pass => t
  | .run s => some ((t.getD .empty).run clock mode s).2
  | .append rows => some ((t.getD .empty).insertAll clock rows).1
  | .define schema => some (t.getD (.ofSchema schema))
  | .drop => none

namespace Configuration

/-- The place that a path means. -/
def place (c : Configuration) (path : TablePath) : Except QueryError (Datastore × String) :=
  match path.datastore with
  | some name => (Datastore.ofName name).map fun ds => (ds, path.table)
  | none => .ok (c.datastore, path.table)

def placeOfText (c : Configuration) (path : String) : Except QueryError (Datastore × String) := do
  c.place (← TablePath.ofText path)

end Configuration

/-- The schema with the described fields. -/
def Schema.ofTexts (fields : List String) : Except QueryError Schema := do
  ofFields (← fields.mapM FieldDef.ofText)

namespace Operation

/-- The place that an operation is about and what it does there, unless what it says is refused. -/
def target (config : Configuration) : Operation → Except QueryError ((Datastore × String) × Visit)
  | .query text subs => do
    let s ← Statement.ofText text subs
    pure (← config.place s.table, .run s)
  | .insert path rows => do pure (← config.placeOfText path, .append rows)
  | .define path fields => do pure (← config.placeOfText path, .define (← Schema.ofTexts fields))
  | .drop path => do pure (← config.placeOfText path, .drop)

/-- What an operation does at one place. -/
def visit (config : Configuration) (ds : Datastore) (name : String) (op : Operation) : Visit :=
  match op.target config with
  | .ok (place, v) => if place = (ds, name) then v else .pass
  | .error _ => .pass

theorem target_of_visit {config : Configuration} {ds : Datastore} {name : String} {op : Operation}
    (h : op.visit config ds name ≠ .pass) :
    op.target config = .ok ((ds, name), op.visit config ds name) := by
  unfold visit at h ⊢
  cases htarget : op.target config with
  | error err =>
      rw [htarget] at h
      exact absurd rfl h
  | ok target =>
      rw [htarget] at h
      by_cases hplace : target.1 = (ds, name)
      · simp only [if_pos hplace]
        rw [← hplace]
      · exact absurd (if_neg hplace) h

theorem visit_of_target {config : Configuration} {ds : Datastore} {name : String} {op : Operation}
    {v : Visit} (h : op.target config = .ok ((ds, name), v)) : op.visit config ds name = v := by
  rw [visit, h]
  exact if_pos rfl

end Operation

namespace Store

/-- Puts a table, or none, into a place. -/
def set (s : Store) (ds : Datastore) (name : String) : Option Table → Store
  | some t => s.put ds name t
  | none => s.drop ds name

/-- One place changes and no other. -/
theorem table?_set (s : Store) (ds : Datastore) (name : String) (t : Option Table) (ds' : Datastore)
    (name' : String) :
    (s.set ds name t).table? ds' name' = if (ds, name) = (ds', name') then t else s.table? ds' name' := by
  by_cases hds : ds' = ds
  · subst hds
    have hplace : ((ds', name) = (ds', name')) ↔ name' = name := by
      rw [Prod.mk.injEq, eq_comm (a := name)]
      exact and_iff_right rfl
    rw [if_congr hplace rfl rfl]
    cases t with
    | some t => rw [set, table?, put, tables_setTables, Dict.get?_insert]; rfl
    | none => rw [set, table?, drop, tables_setTables, Dict.get?_erase]; rfl
  · rw [if_neg fun heq => hds (Prod.mk.inj heq).1.symm]
    cases t with
    | some t => rw [set, table?, put, tables_setTables_of_ne hds]; rfl
    | none => rw [set, table?, drop, tables_setTables_of_ne hds]; rfl

end Store

variable {σ : Type} [Persistence σ]

namespace Database

omit [Persistence σ] in
theorem place_eq (db : Database σ) (path : TablePath) :
    db.config.place path = (db.datastore path).map fun ds => (ds, path.table) := by
  rw [Configuration.place, datastore]
  cases path.datastore <;> rfl

omit [Persistence σ] in
theorem resolve_eq (db : Database σ) (path : String) : db.resolve path = db.config.placeOfText path := by
  rw [resolve, Configuration.placeOfText]
  cases TablePath.ofText path with
  | error err => rfl
  | ok path =>
      simp only [ok_bind, place_eq]
      cases db.datastore path <;> rfl

/-- What a definition does when its place is found. -/
theorem define_eq {db : Database σ} {path : String} {ds : Datastore} {name : String}
    (h : db.resolve path = .ok (ds, name)) (fields : List String) :
    db.define path fields = match db.store.table? ds name with
      | some _ => .ok db
      | none => (Schema.ofTexts fields).map fun schema =>
          commit { db with store := db.store.put ds name (.ofSchema schema) } := by
  rw [define, h, Schema.ofTexts]
  simp only [ok_bind]
  cases db.store.table? ds name with
  | some t => rfl
  | none =>
      cases fields.mapM FieldDef.ofText with
      | error err => rfl
      | ok defs =>
          simp only [ok_bind]
          cases Schema.ofFields defs <;> rfl

omit [Persistence σ] in
theorem datastore_of_place {db : Database σ} {path : TablePath} {ds : Datastore} {name : String}
    (h : db.config.place path = .ok (ds, name)) : db.datastore path = .ok ds ∧ path.table = name := by
  rw [place_eq] at h
  obtain ⟨ds', hds, heq⟩ := map_eq_ok_iff.1 h
  cases heq
  exact ⟨hds, rfl⟩

/-- **An operation with nothing to refuse succeeds, and changes the store at its place.** -/
theorem run_of_target {db : Database σ} {op : Operation} {ds : Datastore} {name : String} {v : Visit}
    (h : op.target db.config = .ok ((ds, name), v)) (clock : Clock) :
    ∃ rows p, op.run db clock = .ok (rows,
      ⟨db.store.set ds name (v.apply clock db.config.mode (db.store.table? ds name)), db.config, p⟩) := by
  cases op with
  | query text subs =>
      obtain ⟨s, hs, h⟩ := bind_eq_ok_iff.1 h
      obtain ⟨place, hplace, h⟩ := bind_eq_ok_iff.1 h
      cases h
      obtain ⟨hds, rfl⟩ := datastore_of_place hplace
      rw [Operation.run, query, hs, ok_bind, execute_eq hds]
      cases commits s with
      | true => exact ⟨_, _, rfl⟩
      | false => exact ⟨_, _, rfl⟩
  | insert path rows =>
      obtain ⟨place, hplace, h⟩ := bind_eq_ok_iff.1 h
      cases h
      rw [Operation.run, insert, resolve_eq, hplace]
      exact ⟨_, _, rfl⟩
  | define path fields =>
      obtain ⟨place, hplace, h⟩ := bind_eq_ok_iff.1 h
      obtain ⟨schema, hschema, h⟩ := bind_eq_ok_iff.1 h
      cases h
      rw [Operation.run, define_eq ((resolve_eq db path).trans hplace), hschema]
      cases htable : db.store.table? ds name with
      | some t =>
          have hstore : db.store.set ds name (some t) = db.store := Store.put_of_table? htable
          refine ⟨[], db.persistence, ?_⟩
          show Except.ok ([], db) = .ok ([], ⟨db.store.set ds name (some t), db.config, db.persistence⟩)
          rw [hstore]
      | none => exact ⟨_, _, rfl⟩
  | drop path =>
      obtain ⟨place, hplace, h⟩ := bind_eq_ok_iff.1 h
      cases h
      rw [Operation.run, drop, resolve_eq, hplace]
      exact ⟨_, _, rfl⟩

/-- An operation that says something to refuse leaves everything as it is; it can only succeed if it
describes a table that is there already. -/
theorem after_of_refused {db : Database σ} {op : Operation} {err : QueryError}
    (h : op.target db.config = .error err) (clock : Clock) : db.after (clock, op) = db := by
  rw [after]
  cases op with
  | query text subs =>
      rw [Operation.run, query]
      rcases bind_eq_error_iff.1 h with hs | ⟨s, hs, h⟩
      · rw [hs]
        rfl
      · rcases bind_eq_error_iff.1 h with hplace | ⟨place, -, h⟩
        · rw [place_eq, map_eq_error_iff] at hplace
          rw [hs, ok_bind, execute, hplace]
          rfl
        · cases h
  | insert path rows =>
      rcases bind_eq_error_iff.1 h with hplace | ⟨place, -, h⟩
      · rw [Operation.run, insert, resolve_eq, hplace]
        rfl
      · cases h
  | define path fields =>
      rcases bind_eq_error_iff.1 h with hplace | ⟨⟨ds, name⟩, hplace, h⟩
      · rw [Operation.run, define, resolve_eq, hplace]
        rfl
      · rcases bind_eq_error_iff.1 h with hschema | ⟨schema, -, h⟩
        · rw [Operation.run, define_eq ((resolve_eq db path).trans hplace), hschema]
          cases db.store.table? ds name with
          | some t => rfl
          | none => rfl
        · cases h
  | drop path =>
      rcases bind_eq_error_iff.1 h with hplace | ⟨place, -, h⟩
      · rw [Operation.run, drop, resolve_eq, hplace]
        rfl
      · cases h

theorem config_after (db : Database σ) (o : Clock × Operation) : (db.after o).config = db.config := by
  obtain ⟨clock, op⟩ := o
  cases h : op.target db.config with
  | error err => rw [after_of_refused h]
  | ok target =>
      obtain ⟨rows, p, hrun⟩ := run_of_target h clock
      rw [after, hrun]

theorem config_runAll (db : Database σ) (ops : List (Clock × Operation)) :
    (db.runAll ops).config = db.config := by
  induction ops generalizing db with
  | nil => rfl
  | cons o ops ih => rw [runAll_cons, ih, config_after]

/-- **Every table changes by what the operation does at its place.** -/
theorem table?_after (db : Database σ) (o : Clock × Operation) (ds : Datastore) (name : String) :
    (db.after o).store.table? ds name =
      (o.2.visit db.config ds name).apply o.1 db.config.mode (db.store.table? ds name) := by
  obtain ⟨clock, op⟩ := o
  rw [Operation.visit]
  cases h : op.target db.config with
  | error err =>
      rw [after_of_refused h]
      rfl
  | ok target =>
      obtain ⟨⟨ds', name'⟩, v⟩ := target
      obtain ⟨rows, p, hrun⟩ := run_of_target h clock
      rw [after, hrun]
      simp only [Store.table?_set]
      split
      next heq =>
        cases heq
        rfl
      · rfl

end Database
end TableQuery
