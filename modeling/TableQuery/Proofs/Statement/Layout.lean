import TableQuery.Proofs.Literal.Label
import TableQuery.Proofs.Literal.Steps
import TableQuery.Proofs.Statement.Reading

/-! How a command is written: its symbols with blanks between them, and each value either written out
or marked by a placeholder. Taking out the literals and the placeholders keeps the symbols and their
order, and only changes how some of the values are written. -/

namespace TableQuery

open Text Token

/-- A value as it is supplied to a command: written in it, or bound to a placeholder. -/
inductive Supplied
  | null
  | bool (b : Bool)
  | int (n : Int64)
  | text (quote : Char) (s : String)
  | position (v : Value)
  | named (name : String) (v : Value)

namespace Supplied

def value : Supplied → Value
  | .null => .null
  | .bool b => .bool b
  | .int n => .int n
  | .text _ s => .text s
  | .position v => v
  | .named _ v => v

/-- The value of a quoted text. -/
def literal? : Supplied → Option Value
  | .text _ s => some (.text s)
  | _ => none

/-- The value that fills a placeholder without a name. -/
def position? : Supplied → Option Value
  | .position v => some v
  | _ => none

/-- The value that fills a placeholder. -/
def filling? : Supplied → Option Value
  | .position v => some v
  | .named _ v => some v
  | _ => none

def isLiteral (x : Supplied) : Bool := x.literal?.isSome

/-- Whether the value is taken out of the command. -/
def isTaken (x : Supplied) : Bool := x.literal?.isSome || x.filling?.isSome

end Supplied

/-- How a token is written that stands for no value. -/
inductive Spells : Token → List Char → Prop
  | keyword {k : Keyword} {w : List Char} (h : SpellsKeyword k w) : Spells (.keyword k) w
  | ident (name : String) : Spells (.ident name) name.toList
  | op (c : Comparator) : Spells (.op c) c.symbol.toList
  | mark {c : Char} {t : Token} (h : ofChar? c = some t) : Spells t [c]

/-- How a value is supplied in the text of a command. -/
inductive Written : Supplied → List Char → Prop
  | null {w : List Char} (h : InSomeCase "NULL" w) : Written .null w
  | bool {b : Bool} {w : List Char} (h : InSomeCase (if b then "TRUE" else "FALSE") w) :
      Written (.bool b) w
  | int (n : Int64) : Written (.int n) (Number.Numeral.ofInt n.toInt).chars
  | text {quote : Char} (h : isQuote quote) (s : String) :
      Written (.text quote s) (quote :: (escaped quote s.toList ++ [quote]))
  | position (v : Value) : Written (.position v) ['?']
  | named {name : String} (h : IsWord name.toList) (v : Value) :
      Written (.named name v) (':' :: name.toList)

/-- The text is the symbols in their order, with blanks between them; `W` says how a value is
written. -/
inductive Layout (W : Supplied → List Char → Prop) : List (Symbol Supplied) → List Char → Prop
  | nil {bs : List Char} (hbs : ∀ c ∈ bs, isBlank c) : Layout W [] bs
  | sign {t : Token} {symbols : List (Symbol Supplied)} {bs w cs : List Char}
      (hbs : ∀ c ∈ bs, isBlank c) (hw : Spells t w) (hcs : Parted cs) (rest : Layout W symbols cs) :
      Layout W (.sign t :: symbols) (bs ++ (w ++ cs))
  | value {x : Supplied} {symbols : List (Symbol Supplied)} {bs w cs : List Char}
      (hbs : ∀ c ∈ bs, isBlank c) (hw : W x w) (hcs : Parted cs) (rest : Layout W symbols cs) :
      Layout W (.value x :: symbols) (bs ++ (w ++ cs))

/-- A name that is read as one, whatever follows it. -/
structure IsName (name : String) : Prop where
  word : IsWord name.toList
  keyword : Keyword.ofWord? (upper name.toList) = none
  compound : Keyword.compound? (upper name.toList) = none

/-- The names among the symbols are read as names. -/
def NamesIn {ν : Type} (symbols : List (Symbol ν)) : Prop :=
  ∀ name, Symbol.sign (.ident name) ∈ symbols → IsName name

theorem NamesIn.tail {ν : Type} {x : Symbol ν} {symbols : List (Symbol ν)} (h : NamesIn (x :: symbols)) :
    NamesIn symbols := fun name hname => h name (List.mem_cons_of_mem _ hname)

/-- The values among some symbols, in their order. -/
def valuesIn {ν : Type} (symbols : List (Symbol ν)) : List ν :=
  symbols.filterMap fun
    | .sign _ => none
    | .value v => some v

@[simp] theorem valuesIn_sign {ν : Type} (t : Token) (symbols : List (Symbol ν)) :
    valuesIn (.sign t :: symbols) = valuesIn symbols := rfl

@[simp] theorem valuesIn_value {ν : Type} (v : ν) (symbols : List (Symbol ν)) :
    valuesIn (.value v :: symbols) = v :: valuesIn symbols := rfl

/-! ### Characters that are left in their place -/

/-- A character that begins neither a quoted text nor a placeholder. -/
def Plain (c : Char) : Prop := isQuote c = false ∧ c ≠ '?' ∧ c ≠ ':'

theorem plain_of_class {p : Char → Bool} (hp : ['\'', '"', '?', ':'].any p = false) {c : Char}
    (h : p c) : Plain c := by
  have hne : ∀ d ∈ ['\'', '"', '?', ':'], c ≠ d := by
    rintro d hd rfl
    exact List.any_eq_false.1 hp c hd h
  refine ⟨?_, hne '?' (by decide), hne ':' (by decide)⟩
  simp [isQuote, hne '\'' (by decide), hne '"' (by decide)]

theorem plain_of_isBlank {c : Char} (h : isBlank c) : Plain c := plain_of_class (by decide) h

theorem plain_of_isWordChar {c : Char} (h : isWordChar c) : Plain c := plain_of_class (by decide) h

theorem plain_of_inSomeCase {word : String} (hword : ∀ c ∈ word.toList, c.isUpper) {w : List Char}
    (h : InSomeCase word w) : ∀ c ∈ w, Plain c := fun c hc =>
  plain_of_class (p := Char.isAlpha) (by decide) (isAlpha_of_inSomeCase hword h c hc).1

theorem plain_of_spells {t : Token} {w : List Char} (h : Spells t w)
    (hname : ∀ name, t = .ident name → IsName name) : ∀ c ∈ w, Plain c := by
  cases h with
  | @keyword k _ h =>
      obtain ⟨-, hupper⟩ := keywordWords_first k
      cases h with
      | single hk hw =>
          rw [hk] at hupper
          exact plain_of_inSomeCase hupper hw
      | compound hk hv hbs hne hw =>
          rw [hk] at hupper
          obtain ⟨-, hupper'⟩ := keywordWords_second (congrArg Prod.snd hk)
          intro c hc
          rcases List.mem_append.1 hc with hc | hc
          · exact plain_of_inSomeCase hupper hv c hc
          · rcases List.mem_append.1 hc with hc | hc
            · exact plain_of_isBlank (hbs c hc)
            · exact plain_of_inSomeCase hupper' hw c hc
  | ident name => exact fun c hc => plain_of_isWordChar ((hname name rfl).word.all c hc)
  | op op =>
      intro c hc
      have hall : ∀ c ∈ op.symbol.toList, isOperatorChar c := by
        cases op <;> exact List.all_eq_true.1 rfl
      exact plain_of_class (by decide) (hall c hc)
  | @mark d t h =>
      intro c hc
      rw [List.mem_singleton.1 hc]
      refine plain_of_class (p := fun d => (ofChar? d).isSome) (by decide) ?_
      rw [h]
      rfl

theorem plain_of_int (n : Int) : ∀ c ∈ (Number.Numeral.ofInt n).chars, Plain c := by
  intro c hc
  rcases mem_chars_ofInt hc with rfl | hdigit
  · exact ⟨rfl, by decide, by decide⟩
  · exact plain_of_isWordChar (isWordChar_of_isDigit hdigit)

theorem plain_of_written {x : Supplied} {w : List Char} (h : Written x w) (hx : x.isTaken = false) :
    ∀ c ∈ w, Plain c := by
  cases h with
  | null h => exact plain_of_inSomeCase (List.all_eq_true.1 rfl) h
  | @bool b _ h => cases b <;> exact plain_of_inSomeCase (List.all_eq_true.1 rfl) h
  | int n => exact plain_of_int n.toInt
  | text => cases hx
  | position => cases hx
  | named => cases hx

/-- No quote is in the placeholder of a name. -/
theorem isQuote_of_isWord {w : List Char} (hw : IsWord w) : ∀ c ∈ ':' :: w, isQuote c = false := by
  intro c hc
  rcases List.mem_cons.1 hc with rfl | hc
  · rfl
  · exact (plain_of_isWordChar (hw.all c hc)).1

theorem isQuote_of_written {x : Supplied} {w : List Char} (h : Written x w)
    (hx : x.isLiteral = false) : ∀ c ∈ w, isQuote c = false := by
  cases h with
  | text => cases hx
  | position v =>
      intro c hc
      rw [List.mem_singleton.1 hc]
      rfl
  | named hname v => exact isQuote_of_isWord hname
  | null h => exact fun c hc => (plain_of_written (.null h) rfl c hc).1
  | bool h => exact fun c hc => (plain_of_written (.bool h) rfl c hc).1
  | int n => exact fun c hc => (plain_of_written (.int n) rfl c hc).1

theorem replaceQuoted_of_plain {w : List Char} (h : ∀ c ∈ w, isQuote c = false) (count : Nat)
    (cs : List Char) :
    replaceQuoted count (w ++ cs) = (replaceQuoted count cs).map fun p => (w ++ p.1, p.2) := by
  induction w with
  | nil =>
      rw [List.nil_append]
      cases replaceQuoted count cs <;> rfl
  | cons c w ih =>
      have hc : ¬ isQuote c := by simp [h c List.mem_cons_self]
      rw [List.cons_append, replaceQuoted_plain hc, ih fun d hd => h d (List.mem_cons_of_mem _ hd)]
      cases replaceQuoted count cs <;> rfl

theorem replacePlaceholders_of_plain {w : List Char} (h : ∀ c ∈ w, Plain c)
    (subs : Option Substitutions) (given count : Nat) (left : List Value) (cs : List Char) :
    replacePlaceholders subs given count left (w ++ cs) =
      (replacePlaceholders subs given count left cs).map fun p => (w ++ p.1, p.2) := by
  induction w with
  | nil =>
      rw [List.nil_append]
      cases replacePlaceholders subs given count left cs <;> rfl
  | cons c w ih =>
      obtain ⟨-, hposition, hcolon⟩ := h c List.mem_cons_self
      have hc : Unmarked c (w ++ cs) := ⟨hposition, fun heq => absurd heq hcolon⟩
      rw [List.cons_append, replacePlaceholders_plain _ _ _ hc,
        ih fun d hd => h d (List.mem_cons_of_mem _ hd)]
      cases replacePlaceholders subs given count left cs <;> rfl

theorem startsName_of_isWord {name : List Char} (h : IsWord name) (cs : List Char) :
    startsName (name ++ cs) := by
  obtain ⟨c, w, rfl, hstart⟩ := h.start
  exact hstart

/-- A placeholder with a name, up to the end of the name. -/
theorem replacePlaceholders_word {name : String} (hname : IsWord name.toList) {cs : List Char}
    (hcs : ∀ c ∈ cs.head?, isWordChar c = false) (subs : Option Substitutions) (given count : Nat)
    (left : List Value) :
    replacePlaceholders subs given count left (':' :: (name.toList ++ cs)) =
      filled count (.unresolvedName name) (Substitutions.byName? subs name)
        (replacePlaceholders subs given (count + 1) left cs) := by
  rw [replacePlaceholders_name _ _ _ (startsName_of_isWord hname cs), nameAt, takeWhile_run hname.all hcs,
    dropWhile_run hname.all hcs, String.ofList_toList]

end TableQuery
