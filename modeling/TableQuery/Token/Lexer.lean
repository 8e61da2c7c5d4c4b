import TableQuery.Error
import TableQuery.Text.Word
import TableQuery.Text.Run
import TableQuery.Text.Blank
import TableQuery.Number.Spelling

/-! The tokens of a text whose literals have been taken out. -/
namespace TableQuery.Token

open Number

def isOperatorChar (c : Char) : Bool := c = '!' || c = '=' || c = '<' || c = '>'

/-- An integer of 64 bits where the numeral spells one, else the nearest float. -/
def ofNumeral (n : Numeral) : Token :=
  match n.int? with
  | some i =>
    if -2 ^ 63 ≤ i ∧ i < 2 ^ 63 then .number (Int64.ofInt i) else .float n.nearest
  | none => .float n.nearest

/-- The number at the start of a text: digits with at most one point, which may come last. -/
def takeNumber (negative : Bool) (cs : List Char) : Except QueryError (Token × List Char) :=
  let whole := cs.takeWhile Char.isDigit
  match cs.dropWhile Char.isDigit with
  | '.' :: rest =>
    match rest.dropWhile Char.isDigit with
    | '.' :: _ => .error (.malformed .secondPoint)
    | after => .ok (ofNumeral ⟨negative, whole, some (rest.takeWhile Char.isDigit), none⟩, after)
  | rest => .ok (ofNumeral ⟨negative, whole, none, none⟩, rest)

/-- The second word of a compound keyword, after any blanks, and what follows it. -/
def takeSecond (second : String) (cs : List Char) : Option (List Char) :=
  let cs := cs.dropWhile Text.isBlank
  match cs with
  | [] => none
  | c :: _ =>
    if Text.isAlphabetic c &&
        (cs.takeWhile Text.isWordChar).map Char.toUpper = second.toList then
      some (cs.dropWhile Text.isWordChar)
    else none

/-- The word at the start of a text: a keyword or an identifier. -/
def takeWord (cs : List Char) : Token × List Char :=
  let word := cs.takeWhile Text.isWordChar
  let rest := cs.dropWhile Text.isWordChar
  let upper := String.ofList (Text.capitals word)
  let single := match Keyword.ofWord? upper with
    | some k => (.keyword k, rest)
    | none => (.ident (String.ofList word), rest)
  match Keyword.compound? upper with
  | none => single
  | some (second, k) =>
    match takeSecond second rest with
    | some after => (.keyword k, after)
    | none => single

/-- The token of a character that is one on its own. -/
def ofChar? (c : Char) : Option Token :=
  match c with
  | '(' => some .leftParen
  | ')' => some .rightParen
  | ',' => some .comma
  | '.' => some .dot
  | ';' => some .semicolon
  | '*' => some .star
  | _ => none

/-- The token that begins with `c`, and what follows it. -/
def take (c : Char) (cs : List Char) : Except QueryError (Token × List Char) :=
  match ofChar? c with
  | some t => .ok (t, cs)
  | none =>
    if isOperatorChar c then
      let symbol := String.ofList ((c :: cs).takeWhile isOperatorChar)
      match Comparator.ofSymbol? symbol with
      | some comparator => .ok (.op comparator, (c :: cs).dropWhile isOperatorChar)
      | none => .error (.unknownComparator symbol)
    else if c = '-' && (cs.head?.any Char.isDigit) then takeNumber true cs
    else if c.isDigit then takeNumber false (c :: cs)
    else if Text.isWordStart c then .ok (takeWord (c :: cs))
    else .error (.malformed (.unsupported c))

theorem length_takeNumber {negative : Bool} {cs rest : List Char} {t : Token}
    (h : takeNumber negative cs = .ok (t, rest)) :
    rest.length ≤ (cs.dropWhile Char.isDigit).length := by
  unfold takeNumber at h
  simp only at h
  split at h
  next r hr =>
    split at h
    · simp at h
    · simp only [Except.ok.injEq, Prod.mk.injEq] at h
      have := Text.length_dropWhile_le Char.isDigit r
      simp only [hr, ← h.2, List.length_cons]
      omega
  · simp_all

theorem length_takeSecond {second : String} {cs rest : List Char}
    (h : takeSecond second cs = some rest) : rest.length ≤ cs.length := by
  unfold takeSecond at h
  simp only at h
  split at h
  · simp at h
  split at h
  · simp only [Option.some.injEq] at h
    have h1 := Text.length_dropWhile_le Text.isWordChar (cs.dropWhile Text.isBlank)
    have h2 := Text.length_dropWhile_le Text.isBlank cs
    rw [← h]
    omega
  · simp at h

theorem length_takeWord (cs : List Char) :
    (takeWord cs).2.length ≤ (cs.dropWhile Text.isWordChar).length := by
  unfold takeWord
  simp only
  split
  · split <;> simp
  split
  next h => exact length_takeSecond h
  · split <;> simp

theorem length_take {c : Char} {cs rest : List Char} {t : Token}
    (h : take c cs = .ok (t, rest)) : rest.length < (c :: cs).length := by
  unfold take at h
  split at h
  · simp_all
  split at h
  next ho =>
    simp only at h
    split at h
    · have := Text.length_dropWhile_lt ho cs
      simp_all
    · simp at h
  split at h
  · have h1 := length_takeNumber h
    have h2 := Text.length_dropWhile_le Char.isDigit cs
    simp only [List.length_cons]
    omega
  split at h
  next hd =>
    have h1 := length_takeNumber h
    have h2 := Text.length_dropWhile_lt hd cs
    omega
  split at h
  next hw =>
    simp only [Except.ok.injEq] at h
    have h1 := length_takeWord (c :: cs)
    have h2 := Text.length_dropWhile_lt (Text.isWordChar_of_isWordStart hw) cs
    rw [h] at h1
    exact Nat.lt_of_le_of_lt h1 h2
  · simp at h

/-- All tokens of a text, with the end as the last one. Blanks only separate tokens. -/
def scan : List Char → Except QueryError (List Token)
  | [] => .ok [.eof]
  | c :: cs =>
    if Text.isBlank c then scan cs
    else match h : take c cs with
      | .error e => .error e
      | .ok (t, rest) => do
        have := length_take h
        let ts ← scan rest
        pure (t :: ts)
termination_by cs => cs.length
decreasing_by all_goals grind

end TableQuery.Token
