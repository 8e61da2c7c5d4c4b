import TableQuery.Database
import TableQuery.Proofs.Outcome

/-! Runs of a database: operations one after the other, each with its own readings of the clock. What
is told of the changes is the same for every persistence, so that a journal of the committed stores
shows all of it. -/

namespace TableQuery

inductive Operation
  | query (text : String) (subs : Option Substitutions)
  | insert (path : String) (rows : List Row)
  | define (path : String) (fields : List String)
  | drop (path : String)

variable {σ τ : Type} [Persistence σ] [Persistence τ]

/-- Runs one operation; the rows are its answer. -/
def Operation.run (db : Database σ) (clock : Clock) :
    Operation → Except QueryError (List Row × Database σ)
  | .query text subs => db.query clock text subs
  | .insert path rows => db.insert clock path rows
  | .define path fields => (db.define path fields).map fun db => ([], db)
  | .drop path => (db.drop path).map fun db => ([], db)

namespace Database

/-- The database after an operation; one that fails leaves it as it was. -/
def after (db : Database σ) (o : Clock × Operation) : Database σ :=
  match o.2.run db o.1 with
  | .ok r => r.2
  | .error _ => db

def runAll (db : Database σ) (ops : List (Clock × Operation)) : Database σ := ops.foldl after db

theorem runAll_cons (db : Database σ) (o : Clock × Operation) (ops : List (Clock × Operation)) :
    db.runAll (o :: ops) = (db.after o).runAll ops := rfl

theorem runAll_append (db : Database σ) (ops ops' : List (Clock × Operation)) :
    db.runAll (ops ++ ops') = (db.runAll ops).runAll ops' := List.foldl_append

theorem runAll_concat (db : Database σ) (ops : List (Clock × Operation)) (o : Clock × Operation) :
    db.runAll (ops ++ [o]) = (db.runAll ops).after o := runAll_append db ops [o]

/-- What a statement does when its table is found in this datastore. -/
theorem execute_eq {db : Database σ} {s : Statement} {ds : Datastore}
    (h : db.datastore s.table = .ok ds) (clock : Clock) :
    db.execute clock s =
      let r := (db.store.tableOrNew ds s.table.table).run clock db.config.mode s
      let after := { db with store := db.store.put ds s.table.table r.2 }
      .ok (r.1, if commits s then after.commit else after) := by
  rw [execute, h]
  rfl

/-! ### Other persistences -/

/-- The same database with another persistence in place of its own. -/
def mapPersistence (f : σ → τ) (db : Database σ) : Database τ := ⟨db.store, db.config, f db.persistence⟩

omit [Persistence σ] [Persistence τ] in
theorem datastore_mapPersistence (f : σ → τ) (db : Database σ) (path : TablePath) :
    (db.mapPersistence f).datastore path = db.datastore path := rfl

omit [Persistence σ] [Persistence τ] in
theorem resolve_mapPersistence (f : σ → τ) (db : Database σ) (path : String) :
    (db.mapPersistence f).resolve path = db.resolve path := rfl

section Map

variable {f : σ → τ} (hf : ∀ store p, f (Persistence.commit store p) = Persistence.commit store (f p))

include hf

theorem commit_map (store : Store) (config : Configuration) (p : σ) :
    commit ⟨store, config, f p⟩ = (commit ⟨store, config, p⟩).mapPersistence f :=
  congrArg (Database.mk store config) (hf store p).symm

theorem execute_map (db : Database σ) (clock : Clock) (s : Statement) :
    (db.mapPersistence f).execute clock s =
      (db.execute clock s).map (Prod.map id (mapPersistence f)) := by
  cases hds : db.datastore s.table with
  | error err =>
      rw [execute, execute, datastore_mapPersistence, hds]
      rfl
  | ok ds =>
      have hds' := (datastore_mapPersistence f db s.table).trans hds
      rw [execute_eq hds, execute_eq hds']
      cases commits s with
      | false => rfl
      | true => exact congrArg (fun db => Except.ok (_, db)) (commit_map hf _ _ db.persistence)

theorem run_map (db : Database σ) (clock : Clock) (op : Operation) :
    op.run (db.mapPersistence f) clock = (op.run db clock).map (Prod.map id (mapPersistence f)) := by
  cases op with
  | query text subs =>
      rw [Operation.run, Operation.run, query, query]
      cases Statement.ofText text subs with
      | error err => rfl
      | ok s => exact execute_map hf db clock s
  | insert path rows =>
      rw [Operation.run, Operation.run, insert, insert, resolve_mapPersistence]
      cases db.resolve path with
      | error err => rfl
      | ok place => exact congrArg (fun db => Except.ok (_, db)) (commit_map hf _ _ db.persistence)
  | define path fields =>
      rw [Operation.run, Operation.run, define, define, resolve_mapPersistence]
      cases db.resolve path with
      | error err => rfl
      | ok place =>
          have htable : (db.mapPersistence f).store.table? place.1 place.2 =
              db.store.table? place.1 place.2 := rfl
          simp only [ok_bind, htable]
          cases db.store.table? place.1 place.2 with
          | some t => rfl
          | none =>
              cases fields.mapM FieldDef.ofText with
              | error err => rfl
              | ok defs =>
                  simp only [ok_bind]
                  cases Schema.ofFields defs with
                  | error err => rfl
                  | ok schema => exact congrArg (fun db => Except.ok (_, db)) (commit_map hf _ _ db.persistence)
  | drop path =>
      rw [Operation.run, Operation.run, drop, drop, resolve_mapPersistence]
      cases db.resolve path with
      | error err => rfl
      | ok place => exact congrArg (fun db => Except.ok (_, db)) (commit_map hf _ _ db.persistence)

theorem after_map (db : Database σ) (o : Clock × Operation) :
    (db.mapPersistence f).after o = (db.after o).mapPersistence f := by
  rw [after, after, run_map hf]
  cases o.2.run db o.1 <;> rfl

theorem runAll_map (db : Database σ) (ops : List (Clock × Operation)) :
    (db.mapPersistence f).runAll ops = (db.runAll ops).mapPersistence f := by
  induction ops generalizing db with
  | nil => rfl
  | cons o ops ih => rw [runAll_cons, runAll_cons, after_map hf, ih]

end Map
end Database

/-- Keeps every store that is committed, the latest one first. -/
structure Journal where
  stores : List Store

instance : Persistence Journal := ⟨⟨[]⟩, fun store j => ⟨store :: j.stores⟩⟩

/-- What another persistence has been told when the journal shows these stores. -/
def Journal.replay (j : Journal) : σ := j.stores.foldr Persistence.commit Persistence.start

/-- **A run is the same under every persistence, and the journal shows what each has been told.** -/
theorem Database.runAll_replay (config : Configuration) (ops : List (Clock × Operation)) :
    (start config : Database σ).runAll ops =
      ((start config : Database Journal).runAll ops).mapPersistence Journal.replay := by
  have hcommit : ∀ store (j : Journal),
      (Journal.replay (Persistence.commit store j) : σ) = Persistence.commit store j.replay :=
    fun _ _ => rfl
  exact runAll_map hcommit (start config) ops

end TableQuery
