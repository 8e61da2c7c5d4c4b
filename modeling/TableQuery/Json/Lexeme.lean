import TableQuery.Json
import TableQuery.Text.Run

/-! The lexemes of a JSON document. -/
namespace TableQuery.Json

open Number

inductive Lexeme
  | openObject | closeObject | openArray | closeArray | colon | comma
  | null
  | bool (b : Bool)
  | number (n : Numeral)
  | text (s : Option String)
  deriving DecidableEq

/-- A piece of a text: a character, or a code unit given by an escape. -/
inductive Piece
  | char (c : Char)
  | unit (code : Nat)

def hexValue (c : Char) : Option Nat :=
  if c.isDigit then some (c.toNat - 48)
  else if 'a' ≤ c && c ≤ 'f' then some (c.toNat - 87)
  else if 'A' ≤ c && c ≤ 'F' then some (c.toNat - 55)
  else none

/-- The code unit that four hexadecimal digits spell. -/
def codeUnit (a b c d : Char) : Option Nat := do
  let a ← hexValue a
  let b ← hexValue b
  let c ← hexValue c
  let d ← hexValue d
  pure (((a * 16 + b) * 16 + c) * 16 + d)

/-- The character that a backslash and a letter stand for. -/
def escaped? (c : Char) : Option Char :=
  if c = '"' || c = '\\' || c = '/' then some c
  else if c = 'b' then some '\x08'
  else if c = 'f' then some '\x0c'
  else if c = 'n' then some '\n'
  else if c = 'r' then some '\r'
  else if c = 't' then some '\t'
  else none

/-- The pieces of a text up to its closing quote, and what follows the quote. -/
def pieces : List Char → Option (List Piece × List Char)
  | [] => none
  | '"' :: rest => some ([], rest)
  | '\\' :: 'u' :: a :: b :: c :: d :: rest => do
    let code ← codeUnit a b c d
    let (ps, after) ← pieces rest
    pure (.unit code :: ps, after)
  | '\\' :: c :: rest => do
    let c ← escaped? c
    let (ps, after) ← pieces rest
    pure (.char c :: ps, after)
  | c :: rest =>
    if c < ' ' || c = '\\' then none
    else do
      let (ps, after) ← pieces rest
      pure (.char c :: ps, after)

theorem length_pieces {cs after : List Char} {ps : List Piece}
    (h : pieces cs = some (ps, after)) : after.length < cs.length := by
  fun_induction pieces cs generalizing ps after with
  | case1 => simp at h
  | case2 => simp_all
  | case3 a b c d rest ih =>
      simp only [Option.bind_eq_bind, Option.bind_eq_some_iff, Option.pure_def] at h
      obtain ⟨_, -, ⟨_, r⟩, hr, h⟩ := h
      have := ih hr
      simp_all
      omega
  | case4 c rest _ ih =>
      simp only [Option.bind_eq_bind, Option.bind_eq_some_iff, Option.pure_def] at h
      obtain ⟨_, -, ⟨_, r⟩, hr, h⟩ := h
      have := ih hr
      simp_all
      omega
  | case5 => simp at h
  | case6 c rest _ _ _ _ ih =>
      simp only [Option.bind_eq_bind, Option.bind_eq_some_iff, Option.pure_def] at h
      obtain ⟨⟨_, r⟩, hr, h⟩ := h
      have := ih hr
      simp_all
      omega

def isLeading (code : Nat) : Bool := 0xD800 ≤ code && code < 0xDC00

def isTrailing (code : Nat) : Bool := 0xDC00 ≤ code && code < 0xE000

/-- Joins the pieces of a text, two halves of a surrogate pair into one character. -/
def joinPieces : List Piece → Option (List Char)
  | [] => some []
  | .char c :: rest => (joinPieces rest).map (c :: ·)
  | .unit h :: .unit l :: rest =>
    if isLeading h && isTrailing l then
      (joinPieces rest).map (Char.ofNat (0x10000 + (h - 0xD800) * 0x400 + (l - 0xDC00)) :: ·)
    else if isLeading h || isTrailing h then none
    else (joinPieces (.unit l :: rest)).map (Char.ofNat h :: ·)
  | .unit u :: rest =>
    if isLeading u || isTrailing u then none else (joinPieces rest).map (Char.ofNat u :: ·)

/-- The fraction of a numeral: a point is followed by at least one digit. -/
def takeFraction : List Char → Option (Option (List Char) × List Char)
  | '.' :: rest =>
    let digits := rest.takeWhile Char.isDigit
    if digits.isEmpty then none else some (some digits, rest.dropWhile Char.isDigit)
  | rest => some (none, rest)

/-- The sign in front of the digits of an exponent. -/
def takeSign : List Char → ExponentSign × List Char
  | '+' :: rest => (.plus, rest)
  | '-' :: rest => (.minus, rest)
  | rest => (.bare, rest)

def takeExponent : List Char → Option (Option Exponent × List Char)
  | [] => some (none, [])
  | c :: rest =>
    if c = 'e' || c = 'E' then
      let (sign, after) := takeSign rest
      let digits := after.takeWhile Char.isDigit
      if digits.isEmpty then none else some (some ⟨sign, digits⟩, after.dropWhile Char.isDigit)
    else some (none, c :: rest)

/-- An unsigned numeral in front of a text: digits without a needless zero, then the fraction and
the exponent. -/
def takeUnsigned (negative : Bool) (cs : List Char) : Option (Numeral × List Char) :=
  let whole := cs.takeWhile Char.isDigit
  if whole.isEmpty || (whole.head? = some '0' && whole.length != 1) then none
  else do
    let (fraction, rest) ← takeFraction (cs.dropWhile Char.isDigit)
    let (exponent, rest) ← takeExponent rest
    pure (⟨negative, whole, fraction, exponent⟩, rest)

theorem length_takeFraction {cs rest : List Char} {f : Option (List Char)}
    (h : takeFraction cs = some (f, rest)) : rest.length ≤ cs.length := by
  unfold takeFraction at h
  split at h
  next r =>
    simp only at h
    split at h
    · simp at h
    · simp only [Option.some.injEq, Prod.mk.injEq] at h
      have := Text.length_dropWhile_le Char.isDigit r
      simp only [← h.2, List.length_cons]
      omega
  · simp_all

theorem length_takeSign (cs : List Char) : (takeSign cs).2.length ≤ cs.length := by
  unfold takeSign
  split <;> simp

theorem length_takeExponent {cs rest : List Char} {e : Option Exponent}
    (h : takeExponent cs = some (e, rest)) : rest.length ≤ cs.length := by
  unfold takeExponent at h
  split at h
  · simp_all
  next c r =>
    split at h
    · simp only at h
      split at h
      · simp at h
      · simp only [Option.some.injEq, Prod.mk.injEq] at h
        have h1 := Text.length_dropWhile_le Char.isDigit (takeSign r).2
        have h2 := length_takeSign r
        simp only [← h.2, List.length_cons]
        omega
    · simp_all

theorem length_takeUnsigned {negative : Bool} {cs rest : List Char} {n : Numeral}
    (h : takeUnsigned negative cs = some (n, rest)) : rest.length < cs.length := by
  unfold takeUnsigned at h
  simp only at h
  split at h
  · simp at h
  next hw =>
    simp only [Option.bind_eq_bind, Option.bind_eq_some_iff] at h
    obtain ⟨⟨f, r⟩, hf, ⟨e, r'⟩, he, h⟩ := h
    simp only [Option.pure_def, Option.some.injEq, Prod.mk.injEq] at h
    have h1 := length_takeFraction hf
    have h2 : r'.length ≤ r.length := length_takeExponent he
    have h3 : (cs.takeWhile Char.isDigit).length + (cs.dropWhile Char.isDigit).length = cs.length := by
      rw [← List.length_append, List.takeWhile_append_dropWhile]
    have h4 : 0 < (cs.takeWhile Char.isDigit).length := by
      rw [List.length_pos_iff]
      intro h0
      simp [h0] at hw
    rw [← h.2]
    omega

/-- The word that a text begins with, if it is one of the three. -/
def takeWord : List Char → Option (Lexeme × List Char)
  | 'n' :: 'u' :: 'l' :: 'l' :: rest => some (.null, rest)
  | 't' :: 'r' :: 'u' :: 'e' :: rest => some (.bool true, rest)
  | 'f' :: 'a' :: 'l' :: 's' :: 'e' :: rest => some (.bool false, rest)
  | _ => none

/-- The lexeme that begins with `c`, and what follows it. -/
def takeLexeme (c : Char) (rest : List Char) : Option (Lexeme × List Char) :=
  if c = '\x7b' then some (.openObject, rest)
  else if c = '\x7d' then some (.closeObject, rest)
  else if c = '[' then some (.openArray, rest)
  else if c = ']' then some (.closeArray, rest)
  else if c = ':' then some (.colon, rest)
  else if c = ',' then some (.comma, rest)
  else if c = '"' then (pieces rest).map fun p => (.text ((joinPieces p.1).map String.ofList), p.2)
  else if c = '-' then (takeUnsigned true rest).map fun p => (.number p.1, p.2)
  else if c.isDigit then (takeUnsigned false (c :: rest)).map fun p => (.number p.1, p.2)
  else takeWord (c :: rest)

theorem length_takeWord {cs after : List Char} {l : Lexeme} (h : takeWord cs = some (l, after)) :
    after.length < cs.length := by
  unfold takeWord at h
  split at h <;> simp_all <;> omega

theorem length_takeLexeme {c : Char} {rest after : List Char} {l : Lexeme}
    (h : takeLexeme c rest = some (l, after)) : after.length < rest.length + 1 := by
  unfold takeLexeme at h
  repeat' split at h
  all_goals try (simp only [Option.some.injEq, Prod.mk.injEq] at h; rw [← h.2]; omega)
  · simp only [Option.map_eq_some_iff] at h
    obtain ⟨⟨ps, r⟩, hp, h⟩ := h
    have := length_pieces hp
    simp_all
    omega
  · simp only [Option.map_eq_some_iff] at h
    obtain ⟨⟨ps, r⟩, hp, h⟩ := h
    have := length_takeUnsigned hp
    simp_all
    omega
  · simp only [Option.map_eq_some_iff] at h
    obtain ⟨⟨ps, r⟩, hp, h⟩ := h
    have := length_takeUnsigned hp
    simp_all
  · simpa using length_takeWord h

/-- JSON allows four characters between lexemes. -/
def isGap (c : Char) : Bool := c = ' ' || c = '\n' || c = '\t' || c = '\r'

/-- All lexemes of a document. -/
def lexemes : List Char → Option (List Lexeme)
  | [] => some []
  | c :: rest =>
    if isGap c then lexemes rest
    else match h : takeLexeme c rest with
      | none => none
      | some (l, after) =>
        have := length_takeLexeme h
        (lexemes after).map (l :: ·)
termination_by cs => cs.length
decreasing_by all_goals grind

end TableQuery.Json
