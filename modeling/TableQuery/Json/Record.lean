import TableQuery.Json
import TableQuery.Dict

/-! The shapes in which records, alternatives, lists and dictionaries are stored in a document. -/
namespace TableQuery.Json

/-- The members of a record, in the order of `names`. A record is an object, in which unknown keys
are skipped and a known one stands at most once, or an array of its first members. -/
def record? (names : List String) : Json → Option (List (Option Json))
  | .array items =>
    if items.length ≤ names.length then
      some (items.map some ++ List.replicate (names.length - items.length) none)
    else none
  | .object members =>
    if members.all fun m => m.1.isSome then
      names.mapM fun name =>
        match members.filter fun m => m.1 == some name with
        | [] => some none
        | [m] => some (some m.2)
        | _ => none
    else none
  | _ => none

/-- An alternative: its name alone, or the one member of an object, which holds its content. -/
def alternative? : Json → Option (String × Option Json)
  | .text (some name) => some (name, none)
  | .object [(some name, content)] => some (name, some content)
  | _ => none

/-- The name of an alternative without content, for which null may stand. -/
def name? (j : Json) : Option String :=
  match j.alternative? with
  | some (name, none) => some name
  | some (name, some .null) => some name
  | _ => none

def string? : Json → Option String
  | .text s => s
  | _ => none

def list? {α : Type} (f : Json → Option α) : Json → Option (List α)
  | .array items => items.mapM f
  | _ => none

/-- A dictionary; of two members with one key the later one counts. -/
def dict? {α : Type} (f : Json → Option α) : Json → Option (Dict α)
  | .object members => do
    let entries ← members.mapM fun m => do
      let key ← m.1
      let value ← f m.2
      pure (key, value)
    pure (.ofList entries)
  | _ => none

def ofList {α : Type} (f : α → Json) (xs : List α) : Json := .array (xs.map f)

def ofDict {α : Type} (f : α → Json) (d : Dict α) : Json :=
  .record (d.entries.map fun e => (e.1, f e.2))

end TableQuery.Json
