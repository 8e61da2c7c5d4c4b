import TableQuery.Json.Lexeme
import TableQuery.Proofs.Text.CharClass

/-! The lexemes of written leaves. A numeral in the form of a document is read back from its
characters wherever a character follows that does not go on with it, and a text is read back from its
escaped characters up to the closing quote. -/

namespace TableQuery

open Number Text

namespace Number

structure Exponent.IsJson (e : Exponent) : Prop where
  ne_nil : e.digits ≠ []
  digits : ∀ c ∈ e.digits, c.isDigit

/-- The numeral has the form of a document's: digits on both sides of a point and in the exponent, and
no needless zero in front. -/
structure Numeral.IsJson (n : Numeral) : Prop where
  ne_nil : n.whole ≠ []
  digits : ∀ c ∈ n.whole, c.isDigit
  zero : n.whole.head? = some '0' → n.whole = ['0']
  fraction : ∀ ds, n.fraction = some ds → ds ≠ [] ∧ ∀ c ∈ ds, c.isDigit
  exponent : ∀ e, n.exponent = some e → e.IsJson

end Number

namespace Json

/-! ### Numerals -/

/-- What follows does not go on with a numeral. -/
def EndsNumeral (rest : List Char) : Prop :=
  ∀ c ∈ rest.head?, c.isDigit = false ∧ c ≠ '.' ∧ c ≠ 'e' ∧ c ≠ 'E'

variable {rest : List Char}

def exponentChars : Option Exponent → List Char
  | none => []
  | some e => e.chars

def fractionChars : Option (List Char) → List Char
  | none => []
  | some ds => '.' :: ds

theorem takeSign_digits {ds : List Char} (hne : ds ≠ []) (hds : ∀ c ∈ ds, c.isDigit) (rest : List Char) :
    takeSign (ds ++ rest) = (.bare, ds ++ rest) := by
  obtain ⟨d, ds, rfl⟩ := List.exists_cons_of_ne_nil hne
  have hd := hds d List.mem_cons_self
  rw [List.cons_append, takeSign.eq_def]
  split
  next heq =>
    rw [(List.cons.inj heq).1] at hd
    cases hd
  next heq =>
    rw [(List.cons.inj heq).1] at hd
    cases hd
  · rfl

theorem takeExponent_chars {e : Option Exponent} (he : ∀ x, e = some x → x.IsJson)
    (hrest : EndsNumeral rest) : takeExponent (exponentChars e ++ rest) = some (e, rest) := by
  cases e with
  | none =>
      cases rest with
      | nil => rfl
      | cons c rest =>
          obtain ⟨-, -, hlower, hupper⟩ := hrest c rfl
          simp [exponentChars, takeExponent, hlower, hupper]
  | some e =>
      obtain ⟨hne, hdigits⟩ := he e rfl
      obtain ⟨sign, digits⟩ := e
      have htake := takeWhile_run hdigits fun c hc => (hrest c hc).1
      have hdrop := dropWhile_run hdigits fun c hc => (hrest c hc).1
      have hbare : takeSign (digits ++ rest) = (.bare, digits ++ rest) := takeSign_digits hne hdigits rest
      have hne' : digits ≠ [] := hne
      simp only at htake hdrop
      cases sign with
      | bare => simp [exponentChars, Exponent.chars, takeExponent, hbare, htake, hdrop, hne']
      | _ => simp [exponentChars, Exponent.chars, takeExponent, takeSign, htake, hdrop, hne']

theorem takeFraction_chars {f : Option (List Char)} (hf : ∀ ds, f = some ds → ds ≠ [] ∧ ∀ c ∈ ds, c.isDigit)
    (hrest : ∀ c ∈ rest.head?, c.isDigit = false ∧ c ≠ '.') :
    takeFraction (fractionChars f ++ rest) = some (f, rest) := by
  cases f with
  | none =>
      rw [fractionChars, List.nil_append, takeFraction.eq_def]
      split
      next => exact absurd rfl (hrest '.' rfl).2
      · rfl
  | some ds =>
      obtain ⟨hne, hds⟩ := hf ds rfl
      have htake := takeWhile_run hds fun c hc => (hrest c hc).1
      have hdrop := dropWhile_run hds fun c hc => (hrest c hc).1
      simp [fractionChars, takeFraction, htake, hdrop, hne]

theorem head?_exponentChars {e : Option Exponent} (hrest : EndsNumeral rest) :
    ∀ c ∈ (exponentChars e ++ rest).head?, c.isDigit = false ∧ c ≠ '.' := by
  cases e with
  | none => exact fun c hc => ⟨(hrest c hc).1, (hrest c hc).2.1⟩
  | some e =>
      obtain ⟨sign, digits⟩ := e
      intro c hc
      have hmark : c = 'e' := by
        cases sign <;> simpa [exponentChars, Exponent.chars, eq_comm] using hc
      rw [hmark]
      decide

theorem takeUnsigned_chars {n : Numeral} (hn : n.IsJson) (hrest : EndsNumeral rest) :
    takeUnsigned n.negative (n.whole ++ (fractionChars n.fraction ++ (exponentChars n.exponent ++ rest))) =
      some (n, rest) := by
  have hexponent := head?_exponentChars (e := n.exponent) hrest
  have hfraction : ∀ c ∈ (fractionChars n.fraction ++ (exponentChars n.exponent ++ rest)).head?,
      c.isDigit = false := by
    cases n.fraction with
    | none => exact fun c hc => (hexponent c hc).1
    | some ds =>
        rintro c ⟨⟩
        rfl
  have htake := takeWhile_run hn.digits hfraction
  have hdrop := dropWhile_run hn.digits hfraction
  have hempty : n.whole.isEmpty = false := List.isEmpty_eq_false_iff.2 hn.ne_nil
  have hzero : (decide (n.whole.head? = some '0') && n.whole.length != 1) = false := by
    rw [Bool.and_eq_false_iff, decide_eq_false_iff_not, or_iff_not_imp_left, not_not]
    intro h
    rw [hn.zero h]
    rfl
  rw [takeUnsigned, htake, hdrop, hempty, hzero]
  simp [takeFraction_chars hn.fraction hexponent, takeExponent_chars hn.exponent hrest]

theorem chars_eq (n : Numeral) : n.chars = (if n.negative then ['-'] else []) ++
    (n.whole ++ (fractionChars n.fraction ++ exponentChars n.exponent)) := by
  rw [Numeral.chars, List.append_assoc, List.append_assoc]
  cases n.fraction <;> cases n.exponent <;> rfl

/-! ### Lexemes -/

theorem lexemes_cons {c : Char} {cs after : List Char} {l : Lexeme} (hc : isGap c = false)
    (h : takeLexeme c cs = some (l, after)) : lexemes (c :: cs) = (lexemes after).map (l :: ·) := by
  have hgap : ¬ isGap c := by simp [hc]
  rw [lexemes, if_neg hgap]
  split
  · rename_i hnone
    rw [h] at hnone
    cases hnone
  · rename_i l' after' hsome
    rw [h] at hsome
    cases hsome
    rfl

/-- A digit is none of the signs that are lexemes, nor a gap. -/
theorem takeLexeme_digit {c : Char} (hc : c.isDigit) (cs : List Char) :
    isGap c = false ∧
      takeLexeme c cs = (takeUnsigned false (c :: cs)).map fun p => (.number p.1, p.2) := by
  have hne : ∀ d : Char, d.isDigit = false → c ≠ d := by
    rintro d hd rfl
    rw [hc] at hd
    cases hd
  have h1 := hne '\x7b' rfl
  have h2 := hne '\x7d' rfl
  have h3 := hne '[' rfl
  have h4 := hne ']' rfl
  have h5 := hne ':' rfl
  have h6 := hne ',' rfl
  have h7 := hne '"' rfl
  have h8 := hne '-' rfl
  constructor
  · simp [isGap, hne ' ' rfl, hne '\n' rfl, hne '\t' rfl, hne '\r' rfl]
  · simp only [takeLexeme, h1, h2, h3, h4, h5, h6, h7, h8, hc, if_true, if_false]

theorem lexemes_number {n : Numeral} (hn : n.IsJson) (hrest : EndsNumeral rest) :
    lexemes (n.chars ++ rest) = (lexemes rest).map (.number n :: ·) := by
  have htake := takeUnsigned_chars hn hrest
  rw [chars_eq, List.append_assoc, List.append_assoc, List.append_assoc]
  obtain ⟨d, ds, hwhole⟩ := List.exists_cons_of_ne_nil hn.ne_nil
  have hd := hn.digits d (hwhole ▸ List.mem_cons_self)
  rw [hwhole] at htake ⊢
  cases hneg : n.negative with
  | true =>
      rw [hneg] at htake
      refine lexemes_cons (by decide) ?_
      exact congrArg (Option.map fun p => (Lexeme.number p.1, p.2)) htake
  | false =>
      rw [hneg] at htake
      obtain ⟨hgap, hlexeme⟩ := takeLexeme_digit hd (ds ++ (fractionChars n.fraction ++
        (exponentChars n.exponent ++ rest)))
      refine lexemes_cons hgap (hlexeme.trans ?_)
      exact congrArg (Option.map fun p => (Lexeme.number p.1, p.2)) htake

/-! ### Texts -/

/-- Control characters without a letter of their own. -/
def isBareControl (c : Char) : Bool :=
  c < ' ' && !(c = '\n' || c = '\t' || c = '\r' || c = '\x08' || c = '\x0c')

/-- What an escaped character is read as. -/
def pieceOf (c : Char) : Piece := if isBareControl c then .unit c.toNat else .char c

theorem hexValue_digitChar {n : Nat} (h : n < 16) : hexValue (Nat.digitChar n) = some n := by
  have hall : ∀ n : Fin 16, hexValue (Nat.digitChar n) = some n.val := by decide
  exact hall ⟨n, h⟩

theorem pieces_letter {c d : Char} (hd : escaped? d = some c) (hu : d ≠ 'u') (rest : List Char) :
    pieces ('\\' :: d :: rest) = (pieces rest).map fun p => (.char c :: p.1, p.2) := by
  rw [pieces, hd]
  · cases pieces rest <;> rfl
  · exact fun _ _ _ _ _ h _ => hu h

theorem pieces_control {c : Char} (h : c.toNat < 32) (rest : List Char) :
    pieces ('\\' :: 'u' :: '0' :: '0' :: Nat.digitChar (c.toNat / 16) :: Nat.digitChar (c.toNat % 16) ::
      rest) = (pieces rest).map fun p => (.unit c.toNat :: p.1, p.2) := by
  have hhigh := hexValue_digitChar (n := c.toNat / 16) (by omega)
  have hlow := hexValue_digitChar (n := c.toNat % 16) (by omega)
  have hzero : hexValue '0' = some 0 := by decide
  have hcode : codeUnit '0' '0' (Nat.digitChar (c.toNat / 16)) (Nat.digitChar (c.toNat % 16)) =
      some c.toNat := by
    simp only [codeUnit, hzero, hhigh, hlow, Option.bind_eq_bind, Option.bind_some, Option.pure_def,
      Option.some.injEq]
    omega
  rw [pieces, hcode]
  cases pieces rest <;> rfl

theorem pieces_plain {c : Char} (hquote : c ≠ '"') (hbackslash : c ≠ '\\') (hcontrol : ¬ c < ' ')
    (rest : List Char) : pieces (c :: rest) = (pieces rest).map fun p => (.char c :: p.1, p.2) := by
  have hcond : (decide (c < ' ') || decide (c = '\\')) = false := by
    simp [hbackslash, hcontrol]
  rw [pieces.eq_def]
  split
  next heq => cases heq
  next heq => exact absurd (List.cons.inj heq).1 hquote
  next heq => exact absurd (List.cons.inj heq).1 hbackslash
  next heq => exact absurd (List.cons.inj heq).1 hbackslash
  next heq =>
    cases heq
    rw [hcond, if_neg Bool.false_ne_true]
    cases pieces rest <;> rfl

theorem pieces_escapeChar (c : Char) (rest : List Char) :
    pieces (escapeChar c ++ rest) = (pieces rest).map fun p => (pieceOf c :: p.1, p.2) := by
  have hnotBare : isBareControl c = false → pieceOf c = .char c := fun h => by
    rw [pieceOf, h, if_neg Bool.false_ne_true]
  unfold escapeChar
  split
  next h =>
    have hc : c = '"' ∨ c = '\\' := by simpa using h
    rcases hc with rfl | rfl
    · exact pieces_letter rfl (by decide) rest
    · exact pieces_letter rfl (by decide) rest
  split
  next h =>
    subst h
    exact pieces_letter rfl (by decide) rest
  split
  next h =>
    subst h
    exact pieces_letter rfl (by decide) rest
  split
  next h =>
    subst h
    exact pieces_letter rfl (by decide) rest
  split
  next h =>
    subst h
    exact pieces_letter rfl (by decide) rest
  split
  next h =>
    subst h
    exact pieces_letter rfl (by decide) rest
  split
  next hescape hn ht hr hb hf hcontrol =>
    have hbare : isBareControl c = true := by simp [isBareControl, *]
    have hlt : c.toNat < 32 := hcontrol
    rw [pieceOf, if_pos hbare]
    exact pieces_control hlt rest
  next hescape hn ht hr hb hf hcontrol =>
    have hbare : isBareControl c = false := by simp [isBareControl, hcontrol]
    have hne : c ≠ '"' ∧ c ≠ '\\' := by simpa using hescape
    rw [hnotBare hbare]
    exact pieces_plain hne.1 hne.2 hcontrol rest

/-- A code unit that is no half of a pair is a character. -/
theorem joinPieces_unit {u : Nat} (hleading : isLeading u = false) (htrailing : isTrailing u = false)
    (ps : List Piece) : joinPieces (.unit u :: ps) = (joinPieces ps).map (Char.ofNat u :: ·) := by
  cases ps with
  | nil => simp [joinPieces, hleading, htrailing]
  | cons p ps => cases p <;> simp [joinPieces, hleading, htrailing]

theorem joinPieces_pieceOf (cs : List Char) : joinPieces (cs.map pieceOf) = some cs := by
  induction cs with
  | nil => rfl
  | cons c cs ih =>
      cases hbare : isBareControl c with
      | false =>
          rw [List.map_cons, pieceOf, hbare, if_neg Bool.false_ne_true, joinPieces, ih, Option.map_some]
      | true =>
          have hcode : c.toNat < 32 := by
            rw [isBareControl, Bool.and_eq_true, decide_eq_true_iff] at hbare
            exact hbare.1
          have hleading : isLeading c.toNat = false := by
            simp [isLeading]
            omega
          have htrailing : isTrailing c.toNat = false := by
            simp [isTrailing]
            omega
          rw [List.map_cons, pieceOf, if_pos hbare, joinPieces_unit hleading htrailing, ih,
            Option.map_some, Char.ofNat_toNat]

theorem pieces_escaped (cs rest : List Char) :
    pieces (cs.flatMap escapeChar ++ '"' :: rest) = some (cs.map pieceOf, rest) := by
  induction cs with
  | nil => rw [List.flatMap_nil, List.nil_append, pieces, List.map_nil]
  | cons c cs ih =>
      rw [List.flatMap_cons, List.append_assoc, pieces_escapeChar, ih]
      rfl

theorem takeLexeme_quote (cs : List Char) : takeLexeme '"' cs =
    (pieces cs).map fun p => (.text ((joinPieces p.1).map String.ofList), p.2) := by
  simp [takeLexeme]

theorem textChars_some (s : String) (rest : List Char) :
    textChars (some s) ++ rest = '"' :: (s.toList.flatMap escapeChar ++ '"' :: rest) :=
  congrArg (List.cons '"') (List.append_assoc _ _ _)

theorem lexemes_text (s : String) (rest : List Char) :
    lexemes (textChars (some s) ++ rest) = (lexemes rest).map (.text (some s) :: ·) := by
  rw [textChars_some]
  refine lexemes_cons (by decide) ?_
  rw [takeLexeme_quote, pieces_escaped, Option.map_some, joinPieces_pieceOf, Option.map_some,
    String.ofList_toList]

end Json
end TableQuery
