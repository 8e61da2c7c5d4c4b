import TableQuery.Error
import TableQuery.Proofs.Json.Float
import TableQuery.Store.Document

/-! Texts on one line. Numerals, quoted texts and documents have no line feed, whatever texts are quoted
or written in them. -/

namespace TableQuery

open Number

/-- The text has no line feed. -/
def OneLine (s : String) : Prop := '\n' ∉ s.toList

instance (s : String) : Decidable (OneLine s) := inferInstanceAs (Decidable ('\n' ∉ s.toList))

@[simp] theorem oneLine_append {s t : String} : OneLine (s ++ t) ↔ OneLine s ∧ OneLine t := by
  rw [OneLine, String.toList_append, List.mem_append, not_or]
  rfl

theorem OneLine.append {s t : String} (hs : OneLine s) (ht : OneLine t) : OneLine (s ++ t) :=
  oneLine_append.2 ⟨hs, ht⟩

@[simp] theorem oneLine_ofList {cs : List Char} : OneLine (String.ofList cs) ↔ '\n' ∉ cs := by
  rw [OneLine, String.toList_ofList]

theorem not_mem_of_forall {p : Char → Bool} {cs : List Char} (h : ∀ c ∈ cs, p c) (hp : p '\n' = false) :
    '\n' ∉ cs := by
  intro hmem
  rw [h _ hmem] at hp
  cases hp

theorem oneLine_of_isWordChar {cs : List Char} (h : ∀ c ∈ cs, Text.isWordChar c) :
    OneLine (String.ofList cs) :=
  oneLine_ofList.2 (not_mem_of_forall h (Text.isWordChar_of_isBlank (by decide)))

/-! ### Numerals -/

theorem not_mem_of_isDigit {cs : List Char} (h : ∀ c ∈ cs, c.isDigit) : '\n' ∉ cs :=
  not_mem_of_forall h rfl

theorem Number.Exponent.IsJson.not_mem_chars {e : Exponent} (h : e.IsJson) : '\n' ∉ e.chars := by
  have hdigits := not_mem_of_isDigit h.digits
  rw [Exponent.chars, List.mem_append, not_or]
  refine ⟨?_, hdigits⟩
  cases e.sign <;> decide

theorem Number.Numeral.IsJson.not_mem_chars {n : Numeral} (h : n.IsJson) : '\n' ∉ n.chars := by
  have hwhole := not_mem_of_isDigit h.digits
  have hfraction : '\n' ∉ Json.fractionChars n.fraction := by
    cases hn : n.fraction with
    | none => exact List.not_mem_nil
    | some ds => exact List.not_mem_cons_of_ne_of_not_mem (by decide) (not_mem_of_isDigit (h.fraction ds hn).2)
  have hexponent : '\n' ∉ Json.exponentChars n.exponent := by
    cases hn : n.exponent with
    | none => exact List.not_mem_nil
    | some e => exact (h.exponent e hn).not_mem_chars
  have hsign : '\n' ∉ if n.negative then ['-'] else [] := by
    cases n.negative <;> decide
  simp only [Json.chars_eq, List.mem_append, not_or]
  exact ⟨hsign, hwhole, hfraction, hexponent⟩

theorem oneLine_show (layout : Number.Layout) (x : Binary64) : OneLine (x.show layout) := by
  rw [Binary64.show]
  split
  · decide
  split
  next hfinite => exact oneLine_ofList.2 (Value.isJson_numeralOf layout hfinite).not_mem_chars
  · split <;> decide

/-! ### Quoted texts -/

theorem digitChar_ne {n : Nat} (h : n < 16) : Nat.digitChar n ≠ '\n' := by
  intro heq
  have hvalue := Json.hexValue_digitChar h
  rw [heq] at hvalue
  cases hvalue

theorem not_mem_toDigits (n : Nat) : '\n' ∉ Nat.toDigits 16 n := by
  induction n using Nat.strongRecOn with
  | ind n ih =>
      by_cases hn : n < 16
      · rw [Nat.toDigits_of_lt_base hn, List.mem_singleton]
        exact (digitChar_ne hn).symm
      · have hbase : 16 ≤ n := Nat.le_of_not_lt hn
        rw [Nat.toDigits_of_base_le (by decide) hbase, List.mem_append, List.mem_singleton, not_or]
        exact ⟨ih (n / 16) (by omega), (digitChar_ne (Nat.mod_lt n (by decide))).symm⟩

namespace Text

theorem not_mem_escapeChar (quote c : Char) : '\n' ∉ escapeChar quote c := by
  by_cases hline : c = '\n'
  · rw [hline]
    simp [escapeChar]
  · have hne : '\n' ≠ c := Ne.symm hline
    rw [escapeChar]
    split_ifs <;> simp [hne, not_mem_toDigits]

theorem oneLine_quotedString (s : String) : OneLine (quotedString s) := by
  rw [quotedString, oneLine_ofList]
  simp only [List.mem_append, List.mem_cons, List.mem_flatMap, not_or, not_exists, not_and]
  exact ⟨⟨by decide, fun c _ => not_mem_escapeChar _ c⟩, by decide, List.not_mem_nil⟩

theorem oneLine_quotedChar (c : Char) : OneLine (quotedChar c) := by
  rw [quotedChar, oneLine_ofList]
  simp only [List.mem_append, List.mem_cons, not_or]
  exact ⟨⟨by decide, not_mem_escapeChar _ c⟩, by decide, List.not_mem_nil⟩

end Text

/-! ### Documents -/

namespace Json

theorem not_mem_escapeChar (c : Char) : '\n' ∉ escapeChar c := by
  by_cases hline : c = '\n'
  · rw [hline]
    decide
  have hne : '\n' ≠ c := Ne.symm hline
  by_cases hcontrol : c < ' '
  · have hlt : c.toNat < 32 := hcontrol
    have hhigh := (digitChar_ne (show c.toNat / 16 < 16 by omega)).symm
    have hlow := (digitChar_ne (show c.toNat % 16 < 16 by omega)).symm
    rw [escapeChar]
    split_ifs <;> simp [hne, hhigh, hlow]
  · rw [escapeChar]
    split_ifs
    all_goals simp [hne]

theorem not_mem_textChars (s : Option String) : '\n' ∉ textChars s := by
  cases s with
  | none =>
      have hpair : OneLine "\"\\ud800\"" := by decide
      exact hpair
  | some s =>
      change '\n' ∉ '"' :: s.toList.flatMap escapeChar ++ ['"']
      simp only [List.mem_append, List.mem_cons, List.mem_flatMap, not_or, not_exists, not_and]
      exact ⟨⟨by decide, fun c _ => not_mem_escapeChar c⟩, by decide, List.not_mem_nil⟩

theorem not_mem_itemChars {items : List Json} (h : ∀ v ∈ items, '\n' ∉ v.chars) :
    '\n' ∉ itemChars items := by
  induction items with
  | nil => exact List.not_mem_nil
  | cons v items ih =>
      obtain ⟨hv, hitems⟩ := List.forall_mem_cons.1 h
      cases items with
      | nil => exact hv
      | cons w items =>
          rw [itemChars, List.mem_append, List.mem_cons, not_or, not_or]
          exact ⟨hv, by decide, ih hitems⟩

theorem not_mem_memberChars {members : List (Option String × Json)} (h : ∀ m ∈ members, '\n' ∉ m.2.chars) :
    '\n' ∉ memberChars members := by
  induction members with
  | nil => exact List.not_mem_nil
  | cons m members ih =>
      obtain ⟨hm, hmembers⟩ := List.forall_mem_cons.1 h
      have hkey := not_mem_textChars m.1
      cases members with
      | nil =>
          rw [memberChars, List.mem_append, List.mem_cons, not_or, not_or]
          exact ⟨hkey, by decide, hm⟩
      | cons m' members =>
          rw [memberChars, List.append_assoc, List.mem_append, List.cons_append, List.mem_cons,
            List.mem_append, List.mem_cons, not_or, not_or, not_or, not_or]
          exact ⟨hkey, by decide, hm, by decide, ih hmembers⟩

theorem Legible.not_mem_chars {j : Json} (h : j.Legible) : '\n' ∉ j.chars := by
  induction h with
  | null => decide
  | bool b => cases b <;> decide
  | number hn => exact hn.not_mem_chars
  | text s => exact not_mem_textChars (some s)
  | array _ ih =>
      rw [chars, List.mem_append, List.mem_cons, not_or, not_or]
      exact ⟨⟨by decide, not_mem_itemChars ih⟩, by decide⟩
  | object _ _ ih =>
      rw [chars, List.mem_append, List.mem_cons, not_or, not_or]
      exact ⟨⟨by decide, not_mem_memberChars ih⟩, by decide⟩

end Json

theorem Value.legible_toJson (v : Value) : v.toJson.Legible := by
  cases v with
  | null => exact .null
  | bool b => exact .bool b
  | int n => exact Json.legible_ofInt _
  | float x =>
      rw [toJson]
      split
      next hfinite => exact .number (isJson_numeralOf documentLayout hfinite)
      · exact .null
  | text s => exact .text s

theorem Row.legible_rows (rows : List Row) : (Json.ofList Row.toJson rows).Legible := by
  refine .array fun v hv => ?_
  obtain ⟨row, -, rfl⟩ := List.mem_map.1 hv
  refine Json.legible_record fun m hm => ?_
  obtain ⟨e, -, rfl⟩ := List.mem_map.1 hm
  exact e.2.legible_toJson

/-- **The rows of a result are written on one line.** -/
theorem Row.oneLine_rows (rows : List Row) : OneLine (Json.ofList Row.toJson rows).render :=
  oneLine_ofList.2 (legible_rows rows).not_mem_chars

/-! ### Messages -/

theorem oneLine_numeral (n : Int) : OneLine (String.ofList (Numeral.ofInt n).chars) :=
  oneLine_ofList.2 (Numeral.isJson_ofInt n).not_mem_chars

theorem oneLine_repr (n : Nat) : OneLine n.repr := by
  rw [OneLine, Nat.toList_repr]
  exact not_mem_of_isDigit (Text.isDigit_toDigits n)

theorem Value.oneLine_display {v : Value} (h : ∀ s, v = .text s → OneLine s) : OneLine v.display := by
  cases v with
  | null => decide
  | bool b => cases b <;> decide
  | int n => exact oneLine_numeral n.toInt
  | float x => exact oneLine_show plainLayout x
  | text s => exact h s rfl

theorem Value.oneLine_tagged (v : Value) : OneLine v.tagged := by
  cases v with
  | null => decide
  | bool b => cases b <;> decide
  | int n => simp +decide [tagged, -oneLine_ofList, oneLine_numeral]
  | float x => simp +decide [tagged, oneLine_show]
  | text s => simp +decide [tagged, Text.oneLine_quotedString]

theorem Token.oneLine_tagged (t : Token) : OneLine t.tagged := by
  cases t with
  | keyword k => cases k <;> decide
  | ident word => simp +decide [tagged, Text.oneLine_quotedString]
  | number n => simp +decide [tagged, Value.oneLine_display]
  | float x => simp +decide [tagged, oneLine_show]
  | op c => cases c <;> decide
  | _ => decide

theorem ClausePart.oneLine_tagged (part : ClausePart) : OneLine part.tagged := by
  cases part with
  | term t =>
      have hop : OneLine t.op.name := by
        cases t.op <;> decide
      have hfield := Text.oneLine_quotedString t.field
      exact .append (.append (.append (.append (.append (.append (by decide) hfield) (by decide)) hop)
        (by decide)) t.value.oneLine_tagged) (by decide)
  | _ => decide

end TableQuery
