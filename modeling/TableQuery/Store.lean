import TableQuery.Table
import TableQuery.TablePath

/-! The store: the tables of the two datastores, by name. -/
namespace TableQuery

structure Store where
  localTables : Dict Table
  sessionTables : Dict Table
  deriving DecidableEq

namespace Store

def empty : Store := ⟨∅, ∅⟩

instance : Inhabited Store := ⟨empty⟩

def tables (s : Store) : Datastore → Dict Table
  | .localStore => s.localTables
  | .sessionStore => s.sessionTables

def setTables (s : Store) (ds : Datastore) (tables : Dict Table) : Store :=
  match ds with
  | .localStore => { s with localTables := tables }
  | .sessionStore => { s with sessionTables := tables }

def table? (s : Store) (ds : Datastore) (name : String) : Option Table := (s.tables ds).get? name

def put (s : Store) (ds : Datastore) (name : String) (t : Table) : Store :=
  s.setTables ds ((s.tables ds).insert name t)

/-- The table, or an empty one if there is none. -/
def tableOrNew (s : Store) (ds : Datastore) (name : String) : Table :=
  (s.table? ds name).getD .empty

/-- Adds a table unless the name is taken. -/
def create (s : Store) (ds : Datastore) (name : String) (t : Table) : Bool × Store :=
  if (s.tables ds).contains name then (false, s) else (true, s.put ds name t)

def drop (s : Store) (ds : Datastore) (name : String) : Store :=
  s.setTables ds ((s.tables ds).erase name)

def tableNames (s : Store) (ds : Datastore) : List String := (s.tables ds).keys

/-- Both datastores with their tables, a name a line. -/
def listing (s : Store) : String :=
  "\n".intercalate (Datastore.all.flatMap fun ds =>
    ("[" ++ ds.name ++ "]") :: (s.tableNames ds).map ("\t" ++ ·))

end Store
end TableQuery
