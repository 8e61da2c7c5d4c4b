import TableQuery.Json.Lexeme

/-! Reading a JSON document from its lexemes. Each step returns what it leaves, which is shorter than
what it was given. -/
namespace TableQuery.Json

/-- What follows a part of the lexemes `ts` that is not empty. -/
abbrev Rest (ts : List Lexeme) := { r : List Lexeme // r.length < ts.length }

mutual

def takeValue (ts : List Lexeme) : Option (Json × Rest ts) :=
  match ts with
  | .null :: rest => some (.null, ⟨rest, Nat.lt_succ_self _⟩)
  | .bool b :: rest => some (.bool b, ⟨rest, Nat.lt_succ_self _⟩)
  | .number n :: rest => some (.number n, ⟨rest, Nat.lt_succ_self _⟩)
  | .text s :: rest => some (.text s, ⟨rest, Nat.lt_succ_self _⟩)
  | .openArray :: .closeArray :: rest => some (.array [], ⟨rest, Nat.lt_succ_of_lt (Nat.lt_succ_self _)⟩)
  | .openArray :: rest =>
    match takeItems rest with
    | some (items, ⟨after, h⟩) => some (.array items, ⟨after, Nat.lt_succ_of_lt h⟩)
    | none => none
  | .openObject :: .closeObject :: rest => some (.object [], ⟨rest, Nat.lt_succ_of_lt (Nat.lt_succ_self _)⟩)
  | .openObject :: rest =>
    match takeMembers rest with
    | some (members, ⟨after, h⟩) => some (.object members, ⟨after, Nat.lt_succ_of_lt h⟩)
    | none => none
  | _ => none
termination_by (ts.length, 0)

/-- The items of an array up to its closing bracket; there is at least one. -/
def takeItems (ts : List Lexeme) : Option (List Json × Rest ts) :=
  match takeValue ts with
  | some (v, ⟨.closeArray :: rest, h⟩) => some ([v], ⟨rest, Nat.lt_of_succ_lt h⟩)
  | some (v, ⟨.comma :: rest, h⟩) =>
    have hrest : rest.length < ts.length := Nat.lt_of_succ_lt h
    match takeItems rest with
    | some (vs, ⟨after, h'⟩) => some (v :: vs, ⟨after, Nat.lt_trans h' hrest⟩)
    | none => none
  | _ => none
termination_by (ts.length, 1)

/-- The members of an object up to its closing brace; there is at least one. -/
def takeMembers (ts : List Lexeme) : Option (List (Option String × Json) × Rest ts) :=
  match ts with
  | .text k :: .colon :: rest =>
    match takeValue rest with
    | some (v, ⟨.closeObject :: rest', h⟩) =>
      some ([(k, v)], ⟨rest', Nat.lt_succ_of_lt (Nat.lt_succ_of_lt (Nat.lt_of_succ_lt h))⟩)
    | some (v, ⟨.comma :: rest', h⟩) =>
      have hrest : rest'.length < rest.length := Nat.lt_of_succ_lt h
      match takeMembers rest' with
      | some (ms, ⟨after, h'⟩) =>
        some ((k, v) :: ms, ⟨after, Nat.lt_succ_of_lt (Nat.lt_succ_of_lt (Nat.lt_trans h' hrest))⟩)
      | none => none
    | _ => none
  | _ => none
termination_by (ts.length, 1)

end

/-- Reads a document, which is one value with nothing after it. -/
def parseChars? (cs : List Char) : Option Json :=
  match lexemes cs with
  | none => none
  | some ts =>
    match takeValue ts with
    | some (v, ⟨[], _⟩) => some v
    | _ => none

def parse? (s : String) : Option Json := parseChars? s.toList

end TableQuery.Json
