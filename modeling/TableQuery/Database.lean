import TableQuery.Persistence
import TableQuery.Configuration
import TableQuery.Table.Execute
import TableQuery.Schema.Parser

/-! The database: a store, its settings and its commits. Every operation is given the readings of the
clock that it may use; an operation that fails leaves the database as it was. -/
namespace TableQuery

structure Database (σ : Type) where
  store : Store
  config : Configuration
  persistence : σ

namespace Database

variable {σ : Type} [Persistence σ]

def start (config : Configuration) : Database σ := ⟨.empty, config, Persistence.start⟩

def commit (db : Database σ) : Database σ :=
  { db with persistence := Persistence.commit db.store db.persistence }

/-- The datastore that a path means. -/
def datastore (db : Database σ) (path : TablePath) : Except QueryError Datastore :=
  match path.datastore with
  | some name => Datastore.ofName name
  | none => .ok db.config.datastore

/-- The place that the text of a path means. -/
def resolve (db : Database σ) (path : String) : Except QueryError (Datastore × String) := do
  let path ← TablePath.ofText path
  let ds ← db.datastore path
  pure (ds, path.table)

/-- Whether a command of this kind is committed. -/
def commits : Statement → Bool
  | .select _ => false
  | _ => true

/-- Runs a statement on its table, which is created if need be. -/
def execute (db : Database σ) (clock : Clock) (statement : Statement) :
    Except QueryError (List Row × Database σ) := do
  let ds ← db.datastore statement.table
  let name := statement.table.table
  let (rows, table) := (db.store.tableOrNew ds name).run clock db.config.mode statement
  let db := { db with store := db.store.put ds name table }
  pure (rows, if commits statement then db.commit else db)

/-- Runs the text of a command. -/
def query (db : Database σ) (clock : Clock) (text : String) (subs : Option Substitutions) :
    Except QueryError (List Row × Database σ) := do
  db.execute clock (← Statement.ofText text subs)

/-- Creates a table with the described fields, unless there is one already. -/
def define (db : Database σ) (path : String) (fields : List String) :
    Except QueryError (Database σ) := do
  let (ds, name) ← db.resolve path
  match db.store.table? ds name with
  | some _ => pure db
  | none =>
    let schema ← Schema.ofFields (← fields.mapM FieldDef.ofText)
    pure (commit { db with store := db.store.put ds name (.ofSchema schema) })

/-- The table at a path. -/
def table? (db : Database σ) (path : String) : Except QueryError (Option Table) := do
  let (ds, name) ← db.resolve path
  pure (db.store.table? ds name)

/-- Removes the table at a path, if there is one. -/
def drop (db : Database σ) (path : String) : Except QueryError (Database σ) := do
  let (ds, name) ← db.resolve path
  pure (commit { db with store := db.store.drop ds name })

/-- Appends rows to the table at a path, which is created if need be, and returns all its rows. -/
def insert (db : Database σ) (clock : Clock) (path : String) (rows : List Row) :
    Except QueryError (List Row × Database σ) := do
  let (ds, name) ← db.resolve path
  let (table, _) := (db.store.tableOrNew ds name).insertAll clock rows
  pure (table.rows, commit { db with store := db.store.put ds name table })

end Database

/-- The listing of a result: each row by its number, each field on a line above its value. -/
def listRows (rows : List Row) : String :=
  "\n".intercalate (rows.zipIdx.flatMap fun r =>
    ("[" ++ r.2.repr ++ "]") ::
      r.1.entries.flatMap fun e => ["\t" ++ e.1 ++ ":", "\t  " ++ e.2.display])

end TableQuery
