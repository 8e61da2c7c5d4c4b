import TableQuery.Json.Reader
import TableQuery.Proofs.Json.Lexeme

/-! Documents are read back from their text. The text of a document without half pairs, whose numerals
are well formed, is cut into the lexemes of the document, and the lexemes are put together again into
the document. -/

namespace TableQuery.Json

open Number

/-- A document whose leaves can be read back: its numerals are well formed, and its texts are texts. -/
inductive Legible : Json → Prop
  | null : Legible .null
  | bool (b : Bool) : Legible (.bool b)
  | number {n : Numeral} (h : n.IsJson) : Legible (.number n)
  | text (s : String) : Legible (.text (some s))
  | array {items : List Json} (h : ∀ v ∈ items, Legible v) : Legible (.array items)
  | object {members : List (Option String × Json)} (hkeys : ∀ m ∈ members, m.1.isSome)
      (h : ∀ m ∈ members, Legible m.2) : Legible (.object members)

mutual

/-- The lexemes of a document. -/
def lexed : Json → List Lexeme
  | .null => [.null]
  | .bool b => [.bool b]
  | .number n => [.number n]
  | .text s => [.text s]
  | .array items => .openArray :: itemsLexed items ++ [.closeArray]
  | .object members => .openObject :: membersLexed members ++ [.closeObject]

def itemsLexed : List Json → List Lexeme
  | [] => []
  | [v] => v.lexed
  | v :: w :: rest => v.lexed ++ .comma :: itemsLexed (w :: rest)

def membersLexed : List (Option String × Json) → List Lexeme
  | [] => []
  | [(k, v)] => .text k :: .colon :: v.lexed
  | (k, v) :: m :: rest => .text k :: .colon :: v.lexed ++ .comma :: membersLexed (m :: rest)

end

/-! ### From characters to lexemes -/

theorem endsNumeral_of_sign {c : Char} (hc : c.isDigit = false ∧ c ≠ '.' ∧ c ≠ 'e' ∧ c ≠ 'E')
    (rest : List Char) : EndsNumeral (c :: rest) := by
  rintro d ⟨⟩
  exact hc

theorem endsNumeral_nil : EndsNumeral [] := by
  rintro d ⟨⟩

theorem lexemes_null (rest : List Char) : lexemes (Json.null.chars ++ rest) = (lexemes rest).map (.null :: ·) := by
  have hword : "null".toList = ['n', 'u', 'l', 'l'] := String.toList_ofList
  rw [chars, hword]
  exact lexemes_cons (by decide) rfl

theorem lexemes_bool (b : Bool) (rest : List Char) :
    lexemes ((Json.bool b).chars ++ rest) = (lexemes rest).map (.bool b :: ·) := by
  have htrue : "true".toList = ['t', 'r', 'u', 'e'] := String.toList_ofList
  have hfalse : "false".toList = ['f', 'a', 'l', 's', 'e'] := String.toList_ofList
  cases b with
  | true =>
      rw [chars, htrue]
      exact lexemes_cons (by decide) rfl
  | false =>
      rw [chars, hfalse]
      exact lexemes_cons (by decide) rfl

/-- The lexemes of a document are found in its characters, where nothing follows that goes on with a
numeral. -/
def Scans (j : Json) : Prop :=
  ∀ rest, EndsNumeral rest → lexemes (j.chars ++ rest) = (lexemes rest).map (j.lexed ++ ·)

theorem lexemes_items {items : List Json} (h : ∀ v ∈ items, Scans v) (rest : List Char) :
    lexemes (itemChars items ++ ']' :: rest) =
      (lexemes rest).map fun ts => itemsLexed items ++ .closeArray :: ts := by
  have hclose : lexemes (']' :: rest) = (lexemes rest).map (.closeArray :: ·) := lexemes_cons (by decide) rfl
  induction items with
  | nil => exact hclose
  | cons v items ih =>
      have hv := h v List.mem_cons_self
      cases items with
      | nil =>
          rw [itemChars, itemsLexed, hv _ (endsNumeral_of_sign (by decide) rest), hclose, Option.map_map]
          rfl
      | cons w items =>
          have hcomma : ∀ cs, lexemes (',' :: cs) = (lexemes cs).map (.comma :: ·) := fun cs =>
            lexemes_cons (by decide) rfl
          rw [itemChars, itemsLexed, List.append_assoc, List.cons_append,
            hv _ (endsNumeral_of_sign (by decide) _), hcomma, ih fun u hu => h u (List.mem_cons_of_mem _ hu),
            Option.map_map, Option.map_map]
          simp [Function.comp_def]

theorem lexemes_members {members : List (Option String × Json)} (hkeys : ∀ m ∈ members, m.1.isSome)
    (h : ∀ m ∈ members, Scans m.2) (rest : List Char) :
    lexemes (memberChars members ++ '\x7d' :: rest) =
      (lexemes rest).map fun ts => membersLexed members ++ .closeObject :: ts := by
  have hclose : lexemes ('\x7d' :: rest) = (lexemes rest).map (.closeObject :: ·) :=
    lexemes_cons (by decide) rfl
  have hcolon : ∀ cs, lexemes (':' :: cs) = (lexemes cs).map (.colon :: ·) := fun cs =>
    lexemes_cons (by decide) rfl
  induction members with
  | nil => exact hclose
  | cons m members ih =>
      obtain ⟨key, v⟩ := m
      obtain ⟨k, rfl⟩ := Option.isSome_iff_exists.1 (hkeys _ List.mem_cons_self)
      have hv := h _ List.mem_cons_self
      cases members with
      | nil =>
          rw [memberChars, membersLexed, List.append_assoc, lexemes_text, List.cons_append, hcolon,
            hv _ (endsNumeral_of_sign (by decide) rest), hclose]
          simp [Function.comp_def]
      | cons m' members =>
          have hcomma : ∀ cs, lexemes (',' :: cs) = (lexemes cs).map (.comma :: ·) := fun cs =>
            lexemes_cons (by decide) rfl
          have hothers := ih (fun u hu => hkeys u (List.mem_cons_of_mem _ hu))
            fun u hu => h u (List.mem_cons_of_mem _ hu)
          rw [memberChars, membersLexed]
          simp only [List.append_assoc, List.cons_append]
          rw [lexemes_text, hcolon, hv _ (endsNumeral_of_sign (by decide) _), hcomma, hothers]
          simp [Function.comp_def]

theorem Legible.scans {j : Json} (h : Legible j) : Scans j := by
  induction h with
  | null => exact fun rest _ => lexemes_null rest
  | bool b => exact fun rest _ => lexemes_bool b rest
  | number hn => exact fun rest hrest => lexemes_number hn hrest
  | text s => exact fun rest _ => lexemes_text s rest
  | @array items _ ih =>
      intro rest _
      have hopen : ∀ cs, lexemes ('[' :: cs) = (lexemes cs).map (.openArray :: ·) := fun cs =>
        lexemes_cons (by decide) rfl
      rw [chars, lexed, List.append_assoc, List.cons_append, hopen]
      rw [List.singleton_append, lexemes_items ih]
      simp [Function.comp_def]
  | @object members hkeys _ ih =>
      intro rest _
      have hopen : ∀ cs, lexemes ('\x7b' :: cs) = (lexemes cs).map (.openObject :: ·) := fun cs =>
        lexemes_cons (by decide) rfl
      rw [chars, lexed, List.append_assoc, List.cons_append, hopen]
      rw [List.singleton_append, lexemes_members hkeys ih]
      simp [Function.comp_def]

/-! ### From lexemes to documents -/

/-- The value at the front, without the bound on what follows. -/
def value (ts : List Lexeme) : Option (Json × List Lexeme) := (takeValue ts).map fun p => (p.1, p.2.val)

def items (ts : List Lexeme) : Option (List Json × List Lexeme) :=
  (takeItems ts).map fun p => (p.1, p.2.val)

def members (ts : List Lexeme) : Option (List (Option String × Json) × List Lexeme) :=
  (takeMembers ts).map fun p => (p.1, p.2.val)

variable {ts rest : List Lexeme} {v : Json} {k : Option String}

theorem value_array (h : ts.head? ≠ some .closeArray) :
    value (.openArray :: ts) = (items ts).map fun p => (.array p.1, p.2) := by
  rw [value, takeValue, items]
  · cases takeItems ts <;> rfl
  · rintro rest rfl
    exact h rfl

theorem value_object (h : ts.head? ≠ some .closeObject) :
    value (.openObject :: ts) = (members ts).map fun p => (.object p.1, p.2) := by
  rw [value, takeValue, members]
  · cases takeMembers ts <;> rfl
  · rintro rest rfl
    exact h rfl

theorem takeValue_of_value (h : value ts = some (v, rest)) :
    ∃ hlt, takeValue ts = some (v, ⟨rest, hlt⟩) := by
  obtain ⟨⟨v', rest', hlt⟩, htake, heq⟩ := Option.map_eq_some_iff.1 h
  cases heq
  exact ⟨hlt, htake⟩

theorem items_last (h : value ts = some (v, .closeArray :: rest)) : items ts = some ([v], rest) := by
  obtain ⟨hlt, htake⟩ := takeValue_of_value h
  rw [items, takeItems, htake]
  rfl

theorem items_more (h : value ts = some (v, .comma :: rest)) :
    items ts = (items rest).map fun p => (v :: p.1, p.2) := by
  obtain ⟨hlt, htake⟩ := takeValue_of_value h
  rw [items, takeItems, htake]
  dsimp only
  rw [items]
  cases takeItems rest <;> rfl

theorem members_last (h : value ts = some (v, .closeObject :: rest)) :
    members (.text k :: .colon :: ts) = some ([(k, v)], rest) := by
  obtain ⟨hlt, htake⟩ := takeValue_of_value h
  rw [members, takeMembers, htake]
  rfl

theorem members_more (h : value ts = some (v, .comma :: rest)) :
    members (.text k :: .colon :: ts) = (members rest).map fun p => ((k, v) :: p.1, p.2) := by
  obtain ⟨hlt, htake⟩ := takeValue_of_value h
  rw [members, takeMembers, htake]
  dsimp only
  rw [members]
  cases takeMembers rest <;> rfl

theorem lexed_head (v : Json) (rest : List Lexeme) :
    (v.lexed ++ rest).head? ≠ some .closeArray := by
  cases v <;> simp [lexed]

/-- The document is put together again from its lexemes. -/
def Parses (j : Json) : Prop :=
  ∀ rest, value (j.lexed ++ rest) = some (j, rest)

theorem items_lexed {v : Json} {vs : List Json} (h : ∀ u ∈ v :: vs, Parses u) (rest : List Lexeme) :
    items (itemsLexed (v :: vs) ++ .closeArray :: rest) = some (v :: vs, rest) := by
  induction vs generalizing v with
  | nil =>
      rw [itemsLexed]
      exact items_last (h v List.mem_cons_self _)
  | cons w vs ih =>
      rw [itemsLexed, List.append_assoc, List.cons_append, items_more (h v List.mem_cons_self _),
        ih fun u hu => h u (List.mem_cons_of_mem _ hu)]
      rfl

theorem members_lexed {m : Option String × Json} {ms : List (Option String × Json)}
    (h : ∀ u ∈ m :: ms, Parses u.2) (rest : List Lexeme) :
    members (membersLexed (m :: ms) ++ .closeObject :: rest) = some (m :: ms, rest) := by
  induction ms generalizing m with
  | nil =>
      rw [membersLexed]
      exact members_last (h m List.mem_cons_self _)
  | cons m' ms ih =>
      have hothers := ih fun u hu => h u (List.mem_cons_of_mem _ hu)
      rw [membersLexed]
      simp only [List.append_assoc, List.cons_append]
      rw [members_more (h m List.mem_cons_self _), hothers]
      rfl

theorem parses_array {vs : List Json} (h : ∀ v ∈ vs, Parses v) : Parses (.array vs) := by
  intro rest
  cases vs with
  | nil =>
      rw [lexed, itemsLexed, value]
      simp only [List.cons_append, List.nil_append]
      rw [takeValue]
      rfl
  | cons v vs =>
      have hhead : (itemsLexed (v :: vs) ++ .closeArray :: rest).head? ≠ some .closeArray := by
        cases vs with
        | nil => exact lexed_head v _
        | cons w vs =>
            rw [itemsLexed, List.append_assoc]
            exact lexed_head v _
      rw [lexed, List.append_assoc, List.cons_append, List.singleton_append, value_array hhead,
        items_lexed h]
      rfl

theorem parses_object {ms : List (Option String × Json)} (h : ∀ m ∈ ms, Parses m.2) :
    Parses (.object ms) := by
  intro rest
  cases ms with
  | nil =>
      rw [lexed, membersLexed, value]
      simp only [List.cons_append, List.nil_append]
      rw [takeValue]
      rfl
  | cons m ms =>
      have hhead : (membersLexed (m :: ms) ++ .closeObject :: rest).head? ≠ some .closeObject := by
        cases ms <;> simp [membersLexed]
      rw [lexed, List.append_assoc, List.cons_append, List.singleton_append, value_object hhead,
        members_lexed h]
      rfl

theorem Legible.parses {j : Json} (h : Legible j) : Parses j := by
  induction h with
  | array _ ih => exact parses_array ih
  | object _ _ ih => exact parses_object ih
  | _ =>
      intro rest
      rw [lexed, value]
      simp only [List.cons_append, List.nil_append]
      rw [takeValue]
      rfl

/-- **A legible document is read back from its text.** -/
theorem parse?_render {j : Json} (h : Legible j) : parse? j.render = some j := by
  have hlexemes := h.scans [] endsNumeral_nil
  have hvalue := h.parses []
  rw [List.append_nil, lexemes, Option.map_some, List.append_nil] at hlexemes
  rw [List.append_nil] at hvalue
  obtain ⟨hlt, htake⟩ := takeValue_of_value hvalue
  rw [parse?, render, String.toList_ofList, parseChars?, hlexemes]
  dsimp only
  rw [htake]

end TableQuery.Json
