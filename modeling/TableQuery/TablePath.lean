import TableQuery.Error
import TableQuery.Text.Blank
import TableQuery.Text.Word

/-! Where a table is: one of the two datastores, and a name in it. -/
namespace TableQuery

inductive Datastore
  | localStore | sessionStore
  deriving DecidableEq

namespace Datastore

def all : List Datastore := [.localStore, .sessionStore]

def name : Datastore → String
  | .localStore => "local"
  | .sessionStore => "session"

/-- The datastore of this name, in any case of its ASCII letters. -/
def ofName (name : String) : Except QueryError Datastore :=
  match all.find? fun ds => ds.name.toList = Text.smallLetters name.toList with
  | some ds => .ok ds
  | none => .error (.unknownDatastore name)

end Datastore

/-- A table name, and the datastore's name if one is given. -/
structure TablePath where
  datastore : Option String
  table : String
  deriving DecidableEq

namespace TablePath

/-- Reads a path: what stands before the first point names the datastore. -/
def ofText (text : String) : Except QueryError TablePath :=
  let path := Text.trimChars text.toList
  let fault := Except.error (.malformed (.path (String.ofList path)))
  match path.dropWhile (· != '.') with
  | [] => if path.isEmpty then fault else .ok ⟨none, String.ofList path⟩
  | _ :: table =>
    let datastore := path.takeWhile (· != '.')
    if table.isEmpty || datastore.isEmpty then fault
    else .ok ⟨some (String.ofList datastore), String.ofList table⟩

def display (p : TablePath) : String :=
  match p.datastore with
  | some datastore => datastore ++ "." ++ p.table
  | none => p.table

end TablePath
end TableQuery
