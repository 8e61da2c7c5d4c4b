import TableQuery.Schema
import TableQuery.Statement.Parser

/-! Reading the description of a field: its name, then its behaviors. -/
namespace TableQuery.FieldDef

open Statement (current value?)

def fail {α : Type} (fault : SchemaFault) : Except QueryError α := .error (.invalidSchema fault)

/-- The behaviors after the name of a field, up to the end. -/
def takeBehaviors (e : Extraction) (field : String) : List Token → Except QueryError (List Behavior)
  | .ident word :: ts =>
    let small := Text.smallLetters word.toList
    if small = "auto_inc".toList then (takeBehaviors e field ts).map (.autoIncrement :: ·)
    else if small = "timestamp".toList then (takeBehaviors e field ts).map (.timestamp :: ·)
    else if small = "default".toList then
      match ts with
      | [] => fail (.missingDefault field)
      | t :: ts =>
        match value? e t with
        | some v => (takeBehaviors e field ts).map (.default v :: ·)
        | none => fail (.missingDefault field)
    else fail (.unknownAttribute word field)
  | ts => if current ts = .eof then .ok [] else fail (.form (.expectedIdent (current ts)))

def ofTokens (e : Extraction) : List Token → Except QueryError FieldDef
  | .ident name :: ts => (takeBehaviors e name ts).map fun behaviors => ⟨name, behaviors⟩
  | ts => fail (.form (.expectedIdent (current ts)))

/-- Reads a field such as `role default 'guest'`. -/
def ofText (text : String) : Except QueryError FieldDef := do
  let e ← Extraction.ofText text none
  let ts ← Token.scan e.text
  ofTokens e ts

end TableQuery.FieldDef
