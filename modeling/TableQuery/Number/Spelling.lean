import TableQuery.Number.Binary64
import TableQuery.Number.Numeral
import TableQuery.Text.Blank

/-! Text read as a number: blank text is zero, then the spellings of infinity, naturals in base
sixteen, eight or two, and decimal numerals. -/
namespace TableQuery.Number

/-- The digit that a character stands for in a base up to sixteen. -/
def digitIn (base : Nat) (c : Char) : Option Nat :=
  let d := if c.isDigit then c.toNat - 48 else if c.isAlpha then c.toLower.toNat - 87 else base
  if d < base then some d else none

/-- The natural that a run of digits spells. -/
def naturalIn (base : Nat) (ds : List Char) : Option Nat :=
  ds.foldlM (fun n c => (digitIn base c).map (base * n + ·)) 0

/-- Digits in a base, after an optional plus sign, spelling a natural below `2 ^ 64`. -/
def wordIn (base : Nat) (cs : List Char) : Option Nat :=
  let ds := match cs with
    | '+' :: rest => rest
    | _ => cs
  if ds.isEmpty then none else (naturalIn base ds).filter (· < 2 ^ 64)

/-- The base that a leading `0x`, `0o` or `0b` announces, with what follows. -/
def based? : List Char → Option (Nat × List Char)
  | '0' :: c :: rest =>
    if c = 'x' || c = 'X' then some (16, rest)
    else if c = 'o' || c = 'O' then some (8, rest)
    else if c = 'b' || c = 'B' then some (2, rest)
    else none
  | _ => none

/-- A sign, if there is one, and what follows. -/
def signed : List Char → Option Bool × List Char
  | '+' :: rest => (some false, rest)
  | '-' :: rest => (some true, rest)
  | rest => (none, rest)

/-- The exponent of a numeral, which ends the text. -/
def exponent? : List Char → Option (Option Exponent)
  | [] => some none
  | c :: rest =>
    if c = 'e' || c = 'E' then
      let (sign, ds) := signed rest
      if ds.isEmpty || !ds.all Char.isDigit then none
      else
        let sign : ExponentSign := match sign with
          | none => .bare
          | some false => .plus
          | some true => .minus
        some (some ⟨sign, ds⟩)
    else none

/-- A decimal numeral: an optional sign, digits with at most one point among them, at least one
digit, and an optional exponent. -/
def numeral? (cs : List Char) : Option Numeral :=
  let (sign, rest) := signed cs
  let whole := rest.takeWhile Char.isDigit
  let rest := rest.dropWhile Char.isDigit
  let (fraction, rest) := match rest with
    | '.' :: rest => (some (rest.takeWhile Char.isDigit), rest.dropWhile Char.isDigit)
    | _ => (none, rest)
  if whole.isEmpty && (fraction.getD []).isEmpty then none
  else (exponent? rest).map fun e => ⟨sign.getD false, whole, fraction, e⟩

/-- The number nearest to what a numeral spells. -/
def Numeral.nearest (n : Numeral) : Binary64 :=
  .ofMagnitude n.negative (nearestDecimal n.coefficient n.scale)

/-- The number that a text spells, if it spells one. -/
def spelled? (cs : List Char) : Option Binary64 :=
  let cs := Text.trimChars cs
  if cs.isEmpty then some .zero
  else if cs = "Infinity".toList || cs = "+Infinity".toList then some .infinity
  else if cs = "-Infinity".toList then some .negInfinity
  else match based? cs with
    | some (base, rest) => (wordIn base rest).map fun n => .ofInt n
    | none => (numeral? cs).map Numeral.nearest

end TableQuery.Number
