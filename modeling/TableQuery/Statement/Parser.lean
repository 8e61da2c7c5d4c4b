import TableQuery.Statement
import TableQuery.Literal
import TableQuery.Token.Lexer

/-! Reading a statement from its tokens. Each step takes the tokens that it reads from the front and
returns the others. -/
namespace TableQuery.Statement

def fail {α : Type} (fault : SyntaxFault) : Except QueryError α := .error (.malformed fault)

/-- The token at the front; behind the last one there is the end. -/
def current : List Token → Token
  | [] => .eof
  | t :: _ => t

/-- Takes exactly this token. -/
def expect (wanted : Token) (ts : List Token) : Except QueryError (List Token) :=
  if current ts = wanted then .ok ts.tail else fail (.expected wanted (current ts))

def takeIdent : List Token → Except QueryError (String × List Token)
  | .ident word :: ts => .ok (word, ts)
  | ts => fail (.expectedIdent (current ts))

/-- The value of a bare word: null, a boolean, or the word itself. -/
def bareWord (word : String) : Value :=
  let small := Text.smallLetters word.toList
  if small = "true".toList then .bool true
  else if small = "false".toList then .bool false
  else if small = "null".toList then .null
  else .text word

/-- The value that a token stands for. -/
def value? (e : Extraction) : Token → Option Value
  | .number n => some (.int n)
  | .float x => some (.float x)
  | .ident word => some ((e.resolve? word).getD (bareWord word))
  | _ => none

def takeValue (e : Extraction) (ts : List Token) : Except QueryError (Value × List Token) :=
  match value? e (current ts) with
  | some v => .ok (v, ts.tail)
  | none => fail (.expectedValue (current ts))

/-- More identifiers, each after a comma. -/
def takeMoreIdents : List Token → Except QueryError (List String × List Token)
  | .comma :: .ident word :: ts => do
    let (words, ts) ← takeMoreIdents ts
    pure (word :: words, ts)
  | .comma :: ts => fail (.expectedIdent (current ts))
  | ts => .ok ([], ts)

def takeIdents (ts : List Token) : Except QueryError (List String × List Token) := do
  let (word, ts) ← takeIdent ts
  let (words, ts) ← takeMoreIdents ts
  pure (word :: words, ts)

/-- More values, each after a comma. -/
def takeMoreValues (e : Extraction) : List Token → Except QueryError (List Value × List Token)
  | .comma :: t :: ts =>
    match value? e t with
    | some v => do
      let (vs, ts) ← takeMoreValues e ts
      pure (v :: vs, ts)
    | none => fail (.expectedValue t)
  | .comma :: [] => fail (.expectedValue .eof)
  | ts => .ok ([], ts)

def takeValues (e : Extraction) (ts : List Token) : Except QueryError (List Value × List Token) := do
  let (v, ts) ← takeValue e ts
  let (vs, ts) ← takeMoreValues e ts
  pure (v :: vs, ts)

def takePath (ts : List Token) : Except QueryError (TablePath × List Token) := do
  let (first, ts) ← takeIdent ts
  match ts with
  | .dot :: ts => do
    let (table, ts) ← takeIdent ts
    pure (⟨some first, table⟩, ts)
  | ts => pure (⟨none, first⟩, ts)

/-- The parts of a clause, up to the token that ends it. -/
def takeParts (e : Extraction) : List Token → Except QueryError (List ClausePart × List Token)
  | .leftParen :: ts => do
    let (ps, ts) ← takeParts e ts
    pure (.openGroup :: ps, ts)
  | .rightParen :: ts => do
    let (ps, ts) ← takeParts e ts
    pure (.closeGroup :: ps, ts)
  | .keyword .and :: ts => do
    let (ps, ts) ← takeParts e ts
    pure (.and :: ps, ts)
  | .keyword .or :: ts => do
    let (ps, ts) ← takeParts e ts
    pure (.or :: ps, ts)
  | .ident field :: .op comparator :: t :: ts =>
    match value? e t with
    | some v => do
      let (ps, ts) ← takeParts e ts
      pure (.term ⟨field, comparator, v⟩ :: ps, ts)
    | none => fail (.expectedValue t)
  | .ident _ :: .op _ :: [] => fail (.expectedValue .eof)
  | .ident _ :: ts => fail (.expectedComparator (current ts))
  | .keyword .orderBy :: ts => .ok ([], .keyword .orderBy :: ts)
  | .keyword .limit :: ts => .ok ([], .keyword .limit :: ts)
  | .semicolon :: ts => .ok ([], .semicolon :: ts)
  | .eof :: ts => .ok ([], .eof :: ts)
  | [] => .ok ([], [])
  | t :: _ => fail (.notInWhere t)

/-- An optional clause; its parts are all read before they are checked. -/
def takeCondition (e : Extraction) : List Token → Except QueryError (Option Clause × List Token)
  | .keyword .whereRows :: ts => do
    let (parts, ts) ← takeParts e ts
    match Clause.ofParts parts with
    | .ok clause => pure (some clause, ts)
    | .error fault => fail fault
  | ts => .ok (none, ts)

def takeOrder : List Token → Except QueryError (Option SortOrder × List Token)
  | .keyword .orderBy :: ts => do
    let (columns, ts) ← takeIdents ts
    match ts with
    | .keyword .asc :: ts => pure (some ⟨columns, .ascending⟩, ts)
    | .keyword .desc :: ts => pure (some ⟨columns, .descending⟩, ts)
    | ts => pure (some ⟨columns, .ascending⟩, ts)
  | ts => .ok (none, ts)

/-- The greatest limit; larger numbers are taken for it. -/
def greatestLimit : Nat := 2 ^ 64 - 1

/-- The number of rows that a limit allows: any value that reads as a finite number and is not
negative, without its fraction. -/
def limit? : Value → Option Nat
  | .int n => if 0 ≤ n.toInt then some n.toInt.toNat else none
  | v =>
    let x := v.toNumber
    if x.isFinite && 0 ≤ x.key then some (min x.truncate greatestLimit) else none

def takeLimit (e : Extraction) : List Token → Except QueryError (Option Nat × List Token)
  | .keyword .limit :: ts => do
    let (v, ts) ← takeValue e ts
    match limit? v with
    | some n => pure (some n, ts)
    | none => fail (.limit v)
  | ts => .ok (none, ts)

def takeColumns : List Token → Except QueryError (Columns × List Token)
  | .star :: ts => .ok (.all, ts)
  | ts => do
    let (words, ts) ← takeIdents ts
    pure (.names words, ts)

/-- What follows `SELECT`. -/
def takeSelect (e : Extraction) (ts : List Token) : Except QueryError (Statement × List Token) := do
  let (columns, ts) ← takeColumns ts
  let ts ← expect (.keyword .fromTable) ts
  let (table, ts) ← takePath ts
  let (condition, ts) ← takeCondition e ts
  let (order, ts) ← takeOrder ts
  let (limit, ts) ← takeLimit e ts
  pure (.select ⟨columns, table, condition, order, limit⟩, ts)

/-- What follows `INSERT INTO`. -/
def takeInsert (e : Extraction) (ts : List Token) : Except QueryError (Statement × List Token) := do
  let (table, ts) ← takePath ts
  let ts ← expect .leftParen ts
  let (columns, ts) ← takeIdents ts
  let ts ← expect .rightParen ts
  let ts ← expect (.keyword .values) ts
  let ts ← expect .leftParen ts
  let (values, ts) ← takeValues e ts
  let ts ← expect .rightParen ts
  if columns.length = values.length then pure (.insert ⟨table, columns, values⟩, ts)
  else fail (.fieldCount columns.length values.length)

/-- One assignment of a field. -/
def takeAssignment (e : Extraction) (ts : List Token) :
    Except QueryError ((String × Value) × List Token) := do
  let (field, ts) ← takeIdent ts
  let ts ← expect (.op .eq) ts
  let (v, ts) ← takeValue e ts
  pure ((field, v), ts)

/-- More assignments, each after a comma. -/
def takeMoreAssignments (e : Extraction) :
    List Token → Except QueryError (List (String × Value) × List Token)
  | .comma :: .ident field :: .op .eq :: t :: ts =>
    match value? e t with
    | some v => do
      let (more, ts) ← takeMoreAssignments e ts
      pure ((field, v) :: more, ts)
    | none => fail (.expectedValue t)
  | .comma :: .ident _ :: .op .eq :: [] => fail (.expectedValue .eof)
  | .comma :: .ident _ :: ts => fail (.expected (.op .eq) (current ts))
  | .comma :: ts => fail (.expectedIdent (current ts))
  | ts => .ok ([], ts)

/-- What follows `UPDATE`. -/
def takeUpdate (e : Extraction) (ts : List Token) : Except QueryError (Statement × List Token) := do
  let (table, ts) ← takePath ts
  let ts ← expect (.keyword .setFields) ts
  let (first, ts) ← takeAssignment e ts
  let (more, ts) ← takeMoreAssignments e ts
  let (condition, ts) ← takeCondition e ts
  pure (.update ⟨table, first :: more, condition⟩, ts)

/-- What follows `DELETE FROM`. -/
def takeDelete (e : Extraction) (ts : List Token) : Except QueryError (Statement × List Token) := do
  let (table, ts) ← takePath ts
  let (condition, ts) ← takeCondition e ts
  pure (.delete ⟨table, condition⟩, ts)

def takeCommand (e : Extraction) : List Token → Except QueryError (Statement × List Token)
  | .keyword .select :: ts => takeSelect e ts
  | .keyword .insertInto :: ts => takeInsert e ts
  | .keyword .update :: ts => takeUpdate e ts
  | .keyword .deleteFrom :: ts => takeDelete e ts
  | ts => fail (.unknownCommand (current ts))

/-- Reads one command, with at most a semicolon after it. -/
def ofTokens (e : Extraction) (ts : List Token) : Except QueryError Statement := do
  let (statement, ts) ← takeCommand e ts
  let ts := if current ts = .semicolon then ts.tail else ts
  if current ts = .eof then pure statement else fail (.afterStatement (current ts))

/-- Reads a command whose placeholders are filled by the substitutions. -/
def ofText (text : String) (subs : Option Substitutions) : Except QueryError Statement := do
  let e ← Extraction.ofText text subs
  let ts ← Token.scan e.text
  ofTokens e ts

end TableQuery.Statement
