import TableQuery.Number.Numeral

/-! JSON documents as trees whose leaves are still as written: numbers are numerals, members keep
their order and may repeat a key. What a leaf is worth is decided by whoever reads it. -/
namespace TableQuery

open Number

/-- A text is `none` when an escape in it is half of a surrogate pair, which no text can hold. -/
inductive Json
  | null
  | bool (b : Bool)
  | number (n : Numeral)
  | text (s : Option String)
  | array (items : List Json)
  | object (members : List (Option String × Json))

namespace Json

instance : Inhabited Json := ⟨.null⟩

def ofString (s : String) : Json := .text (some s)

def ofInt (n : Int) : Json := .number (Numeral.ofInt n)

/-- An object with the given keys. -/
def record (members : List (String × Json)) : Json :=
  .object (members.map fun m => (some m.1, m.2))

/-- One character between the quotes of a JSON text. -/
def escapeChar (c : Char) : List Char :=
  if c = '"' || c = '\\' then ['\\', c]
  else if c = '\n' then ['\\', 'n']
  else if c = '\t' then ['\\', 't']
  else if c = '\r' then ['\\', 'r']
  else if c = '\x08' then ['\\', 'b']
  else if c = '\x0c' then ['\\', 'f']
  else if c < ' ' then
    ['\\', 'u', '0', '0', Nat.digitChar (c.toNat / 16), Nat.digitChar (c.toNat % 16)]
  else [c]

def textChars : Option String → List Char
  | some s => '"' :: s.toList.flatMap escapeChar ++ ['"']
  | none => "\"\\ud800\"".toList

mutual

/-- The document without any blanks. -/
def chars : Json → List Char
  | .null => "null".toList
  | .bool true => "true".toList
  | .bool false => "false".toList
  | .number n => n.chars
  | .text s => textChars s
  | .array items => '[' :: itemChars items ++ [']']
  | .object members => '\x7b' :: memberChars members ++ ['\x7d']

def itemChars : List Json → List Char
  | [] => []
  | [v] => v.chars
  | v :: w :: rest => v.chars ++ ',' :: itemChars (w :: rest)

def memberChars : List (Option String × Json) → List Char
  | [] => []
  | [(k, v)] => textChars k ++ ':' :: v.chars
  | (k, v) :: m :: rest => textChars k ++ ':' :: v.chars ++ ',' :: memberChars (m :: rest)

end

def render (j : Json) : String := String.ofList j.chars

end Json
end TableQuery
