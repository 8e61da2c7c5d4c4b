import TableQuery.Store
import TableQuery.Value.Document
import TableQuery.Json.Reader

/-! Stores as JSON documents. -/
namespace TableQuery

namespace Behavior

def toJson : Behavior → Json
  | .autoIncrement => .ofString "auto_increment"
  | .timestamp => .ofString "timestamp"
  | .default v => .record [("default", v.toJson)]

def ofJson? (j : Json) : Option Behavior :=
  match j.alternative? with
  | some ("default", some content) => (Value.ofJson? content).map .default
  | _ =>
    match j.name? with
    | some "auto_increment" => some .autoIncrement
    | some "timestamp" => some .timestamp
    | _ => none

end Behavior

namespace FieldDef

def toJson (f : FieldDef) : Json :=
  .record [("name", .ofString f.name), ("behaviors", .ofList Behavior.toJson f.behaviors)]

def ofJson? (j : Json) : Option FieldDef := do
  match ← j.record? ["name", "behaviors"] with
  | [some name, some behaviors] =>
    pure ⟨← name.string?, ← behaviors.list? Behavior.ofJson?⟩
  | _ => none

end FieldDef

namespace Schema

def toJson (s : Schema) : Json := .record [("fields", .ofList FieldDef.toJson s.fields)]

def ofJson? (j : Json) : Option Schema := do
  match ← j.record? ["fields"] with
  | [some fields] => pure ⟨← fields.list? FieldDef.ofJson?⟩
  | _ => none

end Schema

def Row.toJson (row : Row) : Json := .ofDict Value.toJson row

def Row.ofJson? (j : Json) : Option Row := j.dict? Value.ofJson?

namespace Table

def toJson (t : Table) : Json :=
  .record [("rows", .ofList Row.toJson t.rows), ("schema", t.schema.toJson),
    ("auto_inc", .ofInt t.counters.autoInc.toNat),
    ("last_timestamp", .ofInt t.counters.lastTimestamp.toInt)]

def ofJson? (j : Json) : Option Table := do
  match ← j.record? ["rows", "schema", "auto_inc", "last_timestamp"] with
  | [some rows, some schema, some autoInc, some lastTimestamp] =>
    pure ⟨← rows.list? Row.ofJson?, ← Schema.ofJson? schema, ← autoInc.word?, ← lastTimestamp.int?⟩
  | _ => none

end Table

namespace Store

def tablesToJson (tables : Dict Table) : Json := .record [("tables", .ofDict Table.toJson tables)]

def tablesOfJson? (j : Json) : Option (Dict Table) := do
  match ← j.record? ["tables"] with
  | [some tables] => tables.dict? Table.ofJson?
  | _ => none

def toJson (s : Store) : Json :=
  .record [("local", tablesToJson s.localTables), ("session", tablesToJson s.sessionTables)]

def ofJson? (j : Json) : Option Store := do
  match ← j.record? ["local", "session"] with
  | [some localTables, some sessionTables] =>
    pure ⟨← tablesOfJson? localTables, ← tablesOfJson? sessionTables⟩
  | _ => none

/-- The text of the store, as a snapshot keeps it. -/
def render (s : Store) : String := s.toJson.render

def ofText? (text : String) : Option Store := (Json.parse? text).bind ofJson?

end Store
end TableQuery
