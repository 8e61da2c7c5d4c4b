import TableQuery.Proofs.Database.Place

/-! Operations that act on a database in place, one step after the other. A step that fails undoes
nothing, and yet an operation that fails leaves the database as it was: whatever it refuses it refuses
before its first change. -/

namespace TableQuery

/-- Steps on a database. When one fails, what was done before it stays done. -/
abbrev Action (σ α : Type) := ExceptT QueryError (StateM (Database σ)) α

/-- The result of the steps, and the database that they leave. -/
def Database.perform {σ α : Type} (db : Database σ) (x : Action σ α) : Except QueryError α × Database σ :=
  Id.run (x.run.run db)

namespace Action

variable {σ α β : Type}

/-- Reads something off the database, and fails if it cannot. -/
def read (f : Database σ → Except QueryError α) : Action σ α := ExceptT.mk do pure (f (← get))

def change (f : Database σ → Database σ) : Action σ Unit := modify f

theorem perform_map (db : Database σ) (f : α → β) (x : Action σ α) :
    db.perform (f <$> x) = ((db.perform x).1.map f, (db.perform x).2) := by
  rw [Database.perform, ExceptT.run_map, StateT.run_map]
  rfl

theorem perform_read_bind (db : Database σ) (f : Database σ → Except QueryError α) (k : α → Action σ β) :
    db.perform (read f >>= k) = match f db with
      | .ok a => db.perform (k a)
      | .error err => (.error err, db) := by
  show Id.run (ExceptT.bindCont k (f db) db) = _
  cases f db <;> rfl

theorem perform_change_bind (db : Database σ) (f : Database σ → Database σ) (k : Unit → Action σ β) :
    db.perform (change f >>= k) = (f db).perform (k ()) := rfl

/-- The table at a place, or an empty one. -/
def table (ds : Datastore) (name : String) : Action σ Table := read fun db => .ok (db.store.tableOrNew ds name)

def put (ds : Datastore) (name : String) (t : Table) : Action σ Unit :=
  change fun db => { db with store := db.store.put ds name t }

/-- Appends the rows one by one. -/
def append (ds : Datastore) (name : String) : Clock → List Row → Action σ Unit
  | _, [] => pure ()
  | clock, row :: rows => do
    let t ← table ds name
    put ds name (t.insert clock row).1
    append ds name (t.insert clock row).2 rows

section Commands

variable [Persistence σ]

/-- Runs the text of a command on its table, which is created first if need be. -/
def query (clock : Clock) (text : String) (subs : Option Substitutions) : Action σ (List Row) := do
  let s ← read fun _ => Statement.ofText text subs
  let ds ← read fun db => db.datastore s.table
  put ds s.table.table (← table ds s.table.table)
  let mode ← read fun db => .ok db.config.mode
  let t ← table ds s.table.table
  put ds s.table.table (t.run clock mode s).2
  if Database.commits s then change Database.commit
  pure (t.run clock mode s).1

def insert (clock : Clock) (path : String) (rows : List Row) : Action σ (List Row) := do
  let place ← read fun db => db.resolve path
  put place.1 place.2 (← table place.1 place.2)
  append place.1 place.2 clock rows
  let t ← table place.1 place.2
  change Database.commit
  pure t.rows

/-- Keeps a table that is there, whatever the fields are. -/
def define (path : String) (fields : List String) : Action σ Unit := do
  let place ← read fun db => db.resolve path
  match ← read fun db => .ok (db.store.table? place.1 place.2) with
  | some _ => pure ()
  | none =>
    let schema ← read fun _ => Schema.ofTexts fields
    put place.1 place.2 (.ofSchema schema)
    change Database.commit

def drop (path : String) : Action σ Unit := do
  let place ← read fun db => db.resolve path
  change fun db => { db with store := db.store.drop place.1 place.2 }
  change Database.commit

end Commands
end Action

/-! ### Nothing is changed before a failure -/

variable {σ α β : Type}

/-- What there is after a call that has a result and a new database, or fails. -/
def Database.settle (db : Database σ) : Except QueryError (α × Database σ) → Except QueryError α × Database σ
  | .ok r => (.ok r.1, r.2)
  | .error err => (.error err, db)

namespace Action

theorem perform_append_bind (db : Database σ) (ds : Datastore) (name : String) (t : Table) (clock : Clock)
    (rows : List Row) (k : Unit → Action σ β) :
    ({ db with store := db.store.put ds name t } : Database σ).perform (append ds name clock rows >>= k) =
      ({ db with store := db.store.put ds name (t.insertAll clock rows).1 } : Database σ).perform (k ()) := by
  induction rows generalizing t clock with
  | nil => rfl
  | cons row rows ih =>
      rw [append, bind_assoc, table, perform_read_bind]
      simp only [Store.tableOrNew_put]
      rw [bind_assoc, put, perform_change_bind]
      simp only [Store.put_put]
      exact ih _ _

variable [Persistence σ]

theorem perform_query (db : Database σ) (clock : Clock) (text : String) (subs : Option Substitutions) :
    db.perform (query clock text subs) = db.settle (db.query clock text subs) := by
  rw [query, Database.query, perform_read_bind]
  cases Statement.ofText text subs with
  | error err => rfl
  | ok s =>
      simp only [ok_bind]
      rw [perform_read_bind]
      cases hds : db.datastore s.table with
      | error err =>
          rw [Database.execute, hds]
          rfl
      | ok ds =>
          -- The text is read and the place is known: nothing fails from here on.
          rw [Database.execute_eq hds]
          simp only [table, put, perform_read_bind, perform_change_bind, Store.tableOrNew_put, Store.put_put]
          cases Database.commits s with
          | true => rfl
          | false => rfl

theorem perform_insert (db : Database σ) (clock : Clock) (path : String) (rows : List Row) :
    db.perform (insert clock path rows) = db.settle (db.insert clock path rows) := by
  rw [insert, Database.insert, perform_read_bind]
  cases db.resolve path with
  | error err => rfl
  | ok place =>
      simp only [table, put, perform_read_bind, perform_change_bind, perform_append_bind,
        Store.tableOrNew_put]
      rfl

theorem perform_define (db : Database σ) (path : String) (fields : List String) :
    db.perform (define path fields) = db.settle ((db.define path fields).map fun db => ((), db)) := by
  rw [define, perform_read_bind]
  cases hplace : db.resolve path with
  | error err =>
      rw [Database.define, hplace]
      rfl
  | ok place =>
      rw [Database.define_eq hplace]
      simp only [perform_read_bind]
      cases db.store.table? place.1 place.2 with
      | some t => rfl
      | none =>
          simp only [perform_read_bind]
          cases Schema.ofTexts fields <;> rfl

theorem perform_drop (db : Database σ) (path : String) :
    db.perform (drop path) = db.settle ((db.drop path).map fun db => ((), db)) := by
  rw [drop, Database.drop, perform_read_bind]
  cases db.resolve path <;> rfl

end Action
end TableQuery
