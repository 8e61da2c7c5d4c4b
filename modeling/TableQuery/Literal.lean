import TableQuery.Error
import TableQuery.Dict
import TableQuery.Text.Word
import TableQuery.Text.Run

/-! Literals and placeholders. Quoted texts, then placeholders, are taken out of a command and each
leaves a label in its place, so that nothing in a value can be mistaken for a part of the command. -/
namespace TableQuery

/-- The values that fill the placeholders of a command: by name, or one after the other. -/
inductive Substitutions
  | named (values : Dict Value)
  | positional (values : List Value)

namespace Substitutions

def positions : Option Substitutions → List Value
  | some (.positional values) => values
  | _ => []

def byName? (subs : Option Substitutions) (name : String) : Option Value :=
  match subs with
  | some (.named values) => values.get? name
  | _ => none

end Substitutions

/-- The label left by the literal with this number; the first has number one. -/
def label (number : Nat) : List Char := "_LIT".toList ++ Nat.toDigits 10 number ++ ['_']

/-- The content of a quoted text, and what follows its closing quote. A backslash stands for the
quote or the backslash after it, and for itself before anything else. -/
def takeQuoted (quote : Char) : List Char → Option (List Char × List Char)
  | [] => none
  | '\\' :: c :: rest =>
    if c = quote || c = '\\' then (takeQuoted quote rest).map fun p => (c :: p.1, p.2)
    else (takeQuoted quote (c :: rest)).map fun p => ('\\' :: p.1, p.2)
  | c :: rest =>
    if c = quote then some ([], rest) else (takeQuoted quote rest).map fun p => (c :: p.1, p.2)

theorem length_takeQuoted {quote : Char} {cs content rest : List Char}
    (h : takeQuoted quote cs = some (content, rest)) : rest.length < cs.length := by
  fun_induction takeQuoted quote cs generalizing content rest with
  | case1 => simp at h
  | case2 c r _ ih =>
      obtain ⟨⟨x, y⟩, hxy, he⟩ := Option.map_eq_some_iff.1 h
      have := ih hxy
      simp_all
      omega
  | case3 c r _ ih =>
      obtain ⟨⟨x, y⟩, hxy, he⟩ := Option.map_eq_some_iff.1 h
      have := ih hxy
      simp_all
      omega
  | case4 => simp_all
  | case5 c r _ _ ih =>
      obtain ⟨⟨x, y⟩, hxy, he⟩ := Option.map_eq_some_iff.1 h
      have := ih hxy
      simp_all
      omega

/-- Replaces the quoted texts; `count` labels have been given out before. -/
def replaceQuoted (count : Nat) : List Char → Except QueryError (List Char × List Value)
  | [] => .ok ([], [])
  | c :: cs =>
    if c = '\'' || c = '"' then
      match h : takeQuoted c cs with
      | none => .error (.malformed (.openQuote c))
      | some (content, rest) => do
        have := length_takeQuoted h
        let (text, values) ← replaceQuoted (count + 1) rest
        pure (label (count + 1) ++ text, .text (String.ofList content) :: values)
    else do
      let (text, values) ← replaceQuoted count cs
      pure (c :: text, values)
termination_by cs => cs.length
decreasing_by all_goals grind

/-- Replaces the placeholders; `count` labels have been given out before, and `given` positional
values, of which `left` are not used yet. -/
def replacePlaceholders (subs : Option Substitutions) (given count : Nat) (left : List Value) :
    List Char → Except QueryError (List Char × List Value)
  | [] => if left.isEmpty then .ok ([], []) else .error (.unusedPositions left.length)
  | ':' :: c :: cs =>
    if Text.isWordStart c then
      let name := String.ofList ((c :: cs).takeWhile Text.isWordChar)
      match Substitutions.byName? subs name with
      | none => .error (.unresolvedName name)
      | some value => do
        have := Text.length_dropWhile_le Text.isWordChar (c :: cs)
        let (text, values) ←
          replacePlaceholders subs given (count + 1) left ((c :: cs).dropWhile Text.isWordChar)
        pure (label (count + 1) ++ text, value :: values)
    else do
      let (text, values) ← replacePlaceholders subs given count left (c :: cs)
      pure (':' :: text, values)
  | c :: cs =>
    if c = '?' then
      match left with
      | [] => .error (.unresolvedPosition given)
      | value :: left => do
        let (text, values) ← replacePlaceholders subs given (count + 1) left cs
        pure (label (count + 1) ++ text, value :: values)
    else do
      let (text, values) ← replacePlaceholders subs given count left cs
      pure (c :: text, values)
termination_by cs => cs.length
decreasing_by all_goals grind

/-- A command with labels for its literals, and the values of the labels in order. -/
structure Extraction where
  text : List Char
  values : List Value

namespace Extraction

/-- Takes the literals and placeholders out of a command. -/
def ofText (input : String) (subs : Option Substitutions) : Except QueryError Extraction := do
  let (quoted, literals) ← replaceQuoted 0 input.toList
  let given := Substitutions.positions subs
  let (text, filled) ← replacePlaceholders subs given.length literals.length given quoted
  pure ⟨text, literals ++ filled⟩

/-- The value of the first label that reads like the word, counting from `number`. -/
def resolveFrom (number : Nat) (word : List Char) : List Value → Option Value
  | [] => none
  | value :: rest => if word = label number then some value else resolveFrom (number + 1) word rest

/-- The value that a word stands for, if it is one of the labels. -/
def resolve? (e : Extraction) (word : String) : Option Value := resolveFrom 1 word.toList e.values

end Extraction
end TableQuery
