import TableQuery.Clause.Evaluate
import TableQuery.TablePath
import TableQuery.Json.Reader
import TableQuery.Json.Record

/-! The settings of a database. -/
namespace TableQuery

namespace ChainMode

def name : ChainMode → String
  | .sequential => "sequential"
  | .precedence => "precedence"

def ofJson? (j : Json) : Option ChainMode :=
  match j.name? with
  | some "sequential" => some .sequential
  | some "precedence" => some .precedence
  | _ => none

end ChainMode

def Datastore.ofJson? (j : Json) : Option Datastore :=
  match j.name? with
  | some "local" => some .localStore
  | some "session" => some .sessionStore
  | _ => none

/-- The datastore of paths that name none, and how chains of conditions are read. -/
structure Configuration where
  datastore : Datastore
  mode : ChainMode
  deriving DecidableEq

namespace Configuration

def standard : Configuration := ⟨.localStore, .sequential⟩

/-- A setting that is absent has its standard value. -/
def setting {α : Type} (f : Json → Option α) (standard : α) : Option Json → Option α
  | none => some standard
  | some j => f j

def ofJson? (j : Json) : Option Configuration := do
  match ← j.record? ["default_datastore", "chain_evaluation"] with
  | [datastore, mode] =>
    pure ⟨← setting Datastore.ofJson? standard.datastore datastore,
      ← setting ChainMode.ofJson? standard.mode mode⟩
  | _ => none

def ofText? (text : String) : Option Configuration := (Json.parse? text).bind ofJson?

def toJson (c : Configuration) : Json :=
  .record [("default_datastore", .ofString c.datastore.name),
    ("chain_evaluation", .ofString c.mode.name)]

end Configuration
end TableQuery
