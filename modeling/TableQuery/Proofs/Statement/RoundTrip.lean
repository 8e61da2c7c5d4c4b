import TableQuery.Proofs.Statement.Relabelling
import TableQuery.Proofs.Statement.WellFormed

/-! Reading what has been written. A statement with good names can be laid out as a command, and
whatever layout, letter case and way of supplying its values is chosen, the command is read as that
statement. -/

namespace TableQuery

open Text Token

/-! ### The tokens of a layout -/

theorem lexes_spells {t : Token} {w : List Char} (h : Spells t w)
    (hname : ∀ name, t = .ident name → IsName name) : Lexes w t := by
  cases h with
  | keyword h => exact lexes_spelled h
  | ident name =>
      obtain ⟨hword, hkeyword, hcompound⟩ := hname name rfl
      have hlexes := lexes_ident hword hkeyword hcompound
      rw [String.ofList_toList] at hlexes
      exact hlexes
  | op op => exact lexes_comparator op
  | mark h => exact lexes_mark h

section BareWord

variable {e : Extraction} {word : String} {w : List Char}

theorem ne_label_of_inSomeCase (hword : ∀ c ∈ word.toList, c.isUpper) (h : InSomeCase word w) (n : Nat) :
    w ≠ label n := by
  rintro rfl
  have hmem : '_' ∈ label n := label_eq_cons n ▸ List.mem_cons_self
  exact absurd (isAlpha_of_inSomeCase hword h '_' hmem).1 (by decide)

/-- A word that is neither a keyword nor a label stands for what it spells in small letters. -/
theorem means_of_inSomeCase (hupper : ∀ c ∈ word.toList, c.isUpper) (hne : word.toList ≠ [])
    (hword : Keyword.ofWord? word = none) (hcompound : Keyword.compound? word = none)
    (h : InSomeCase word w) :
    ∃ t, Lexes w t ∧ e.Means (Statement.bareWord (String.ofList w)) t := by
  have hw : upper w = word := upper_of_inSomeCase hupper h
  rw [← hw] at hword hcompound
  refine ⟨_, lexes_ident (isWord_of_inSomeCase hupper hne h) hword hcompound, ?_⟩
  have hresolve : e.resolve? (String.ofList w) = none := by
    rw [Extraction.resolve?, String.toList_ofList]
    exact Extraction.resolveFrom_of_ne (ne_label_of_inSomeCase hupper h) 1 e.values
  rw [Extraction.Means, Statement.value?, hresolve]
  rfl

end BareWord

theorem bareWord_null {w : List Char} (h : InSomeCase "NULL" w) :
    Statement.bareWord (String.ofList w) = .null := by
  have hsmall := smallLetters_of_inSomeCase h
  rw [Statement.bareWord, String.toList_ofList, hsmall]
  rfl

theorem bareWord_bool {b : Bool} {w : List Char} (h : InSomeCase (if b then "TRUE" else "FALSE") w) :
    Statement.bareWord (String.ofList w) = .bool b := by
  have hsmall := smallLetters_of_inSomeCase h
  rw [Statement.bareWord, String.toList_ofList, hsmall]
  cases b <;> rfl

theorem means_label {e : Extraction} {v : Value} {k : Nat} (h : e.values[k]? = some v) :
    e.Means v (.ident (String.ofList (label (k + 1)))) := by
  have hresolve : e.resolve? (String.ofList (label (k + 1))) = some v := by
    rw [Extraction.resolve?, String.toList_ofList, Nat.add_comm k 1]
    exact Extraction.resolveFrom_label h 1
  rw [Extraction.Means, Statement.value?, hresolve]
  rfl

theorem lexes_labelled {e : Extraction} {x : Supplied} {w : List Char}
    (h : Labelled Supplied.isTaken e.values x w) : ∃ t, Lexes w t ∧ e.Means x.value t := by
  cases h with
  | @label k htaken hvalue => exact ⟨_, lexes_label (k + 1), means_label hvalue⟩
  | kept htaken hwritten =>
      cases hwritten with
      | null h =>
          rw [Supplied.value, ← bareWord_null h]
          exact means_of_inSomeCase (List.all_eq_true.1 rfl) (by decide) rfl rfl h
      | @bool b _ h =>
          rw [Supplied.value, ← bareWord_bool h]
          cases b
          · exact means_of_inSomeCase (List.all_eq_true.1 rfl) (by decide) rfl rfl h
          · exact means_of_inSomeCase (List.all_eq_true.1 rfl) (by decide) rfl rfl h
      | int n => exact ⟨_, lexes_int n, rfl⟩
      | text => cases htaken
      | position => cases htaken
      | named => cases htaken

theorem scan_layout {e : Extraction} {symbols : List (Symbol Supplied)} {cs : List Char}
    (h : Layout (Labelled Supplied.isTaken e.values) symbols cs) (hnames : NamesIn symbols) :
    ∃ ts, scan cs = .ok ts ∧ Leads e.Means (symbols.map (Symbol.map Supplied.value)) ts [.eof] := by
  induction h with
  | @nil bs hbs =>
      refine ⟨[.eof], ?_, .nil⟩
      rw [← List.append_nil bs, scan_blanks hbs, scan_nil]
  | @sign t symbols bs w cs hbs hw hcs rest ih =>
      obtain ⟨ts, hts, hleads⟩ := ih hnames.tail
      have hlexes := lexes_spells hw fun name hname => hnames name (hname ▸ List.mem_cons_self)
      refine ⟨t :: ts, ?_, .sign hleads⟩
      rw [scan_blanks hbs, hlexes cs hcs, hts]
      rfl
  | @value x symbols bs w cs hbs hw hcs rest ih =>
      obtain ⟨ts, hts, hleads⟩ := ih hnames.tail
      obtain ⟨t, hlexes, hmeans⟩ := lexes_labelled hw
      refine ⟨t :: ts, ?_, .value hmeans hleads⟩
      rw [scan_blanks hbs, hlexes cs hcs, hts]
      rfl

/-! ### Reading a layout -/

/-- The substitutions bind the values of the placeholders. -/
structure Substitutions.Fill (subs : Option Substitutions) (xs : List Supplied) : Prop where
  positions : Substitutions.positions subs = Supplied.positions xs
  named : ∀ name v, .named name v ∈ xs → Substitutions.byName? subs name = some v

/-- What is left of a layout when the literals and placeholders are taken out, and of plain text in front of
it. -/
theorem Extraction.exists_of_layout {symbols : List (Symbol Supplied)} {subs : Option Substitutions}
    {text : String} {front cs : List Char} (htext : text.toList = front ++ cs) (hfront : ∀ c ∈ front, Plain c)
    (hnames : NamesIn symbols) (hfill : Substitutions.Fill subs (valuesIn symbols))
    (hlayout : Layout Written symbols cs) :
    ∃ (labelled : List Char) (values : List Value), ofText text subs = .ok ⟨front ++ labelled, values⟩ ∧
      Layout (Labelled Supplied.isTaken values) symbols labelled ∧ (Parted cs → Parted labelled) := by
  have hliterals : Supplied.literals (valuesIn symbols) <+: (Supplied.literals
      (valuesIn symbols) ++ Supplied.fillings (valuesIn symbols)).drop 0 :=
    List.prefix_append _ _
  have hfillings : Supplied.fillings (valuesIn symbols) <+: (Supplied.literals
      (valuesIn symbols) ++ Supplied.fillings (valuesIn symbols)).drop
        (Supplied.literals (valuesIn symbols)).length :=
    List.drop_left.symm ▸ List.prefix_rfl
  obtain ⟨quoted, hquoted, hlayout⟩ := replaceQuoted_layout hlayout hnames hliterals
  obtain ⟨labelled, hlabelled, hlayout⟩ := replacePlaceholders_layout hlayout hnames hfill.named
    (Substitutions.positions subs).length hfillings
  have hparted : Parted cs → Parted labelled := fun hcs =>
    parted_of_replacePlaceholders hlabelled (parted_of_replaceQuoted hquoted hcs)
  refine ⟨labelled, _, ?_, hlayout, hparted⟩
  rw [← hfill.positions] at hlabelled
  rw [ofText, htext, replaceQuoted_of_plain fun c hc => (hfront c hc).1, hquoted]
  simp only [Except.map, ok_bind, replacePlaceholders_of_plain hfront, hlabelled]
  rfl

theorem Statement.ofText_of_layout {form : Form Supplied} {subs : Option Substitutions} {text : String}
    (hnames : NamesIn form.symbols) (hfill : Substitutions.Fill subs (valuesIn form.symbols))
    (hlayout : Layout Written form.symbols text.toList) :
    ofText text subs = (form.map Supplied.value).statement := by
  obtain ⟨labelled, values, hextraction, hlayout, -⟩ :=
    Extraction.exists_of_layout (List.nil_append _).symm (List.forall_mem_nil _) hnames hfill hlayout
  obtain ⟨ts, hts, hleads⟩ := scan_layout (e := ⟨labelled, values⟩) hlayout hnames
  rw [← Form.symbols_map] at hleads
  rw [ofText, hextraction, ok_bind, List.nil_append, hts, ok_bind]
  exact ofTokens_of_leads hleads (Or.inl rfl)

/-- The text writes the statement as a command: it lays out a form of the statement whose values are
written out or bound by the substitutions. -/
def Statement.WrittenAs (s : Statement) (text : String) (subs : Option Substitutions) : Prop :=
  ∃ form : Form Supplied, (form.map Supplied.value).statement = .ok s ∧
    Substitutions.Fill subs (valuesIn form.symbols) ∧ Layout Written form.symbols text.toList

theorem valuesIn_map {ν μ : Type} (f : ν → μ) (symbols : List (Symbol ν)) :
    valuesIn (symbols.map (Symbol.map f)) = (valuesIn symbols).map f := by
  induction symbols with
  | nil => rfl
  | cons x symbols ih =>
      cases x with
      | sign t => exact ih
      | value v => exact congrArg (f v :: ·) ih

theorem Substitutions.fill_positional (values : List Value) :
    Substitutions.Fill (some (.positional values)) (values.map Supplied.position) where
  positions := by
    rw [Supplied.positions, List.filterMap_map]
    exact (List.filterMap_some).symm
  named := by
    intro name v hmem
    obtain ⟨u, -, hu⟩ := List.mem_map.1 hmem
    cases hu

/-- A well-formed statement can be written with all its values bound to placeholders. -/
theorem Statement.WellFormed.exists_text {s : Statement} (hs : s.WellFormed) :
    ∃ text subs, s.WrittenAs text subs := by
  obtain ⟨form, hform⟩ := hs.exists_form
  have hvalue : (form.map Supplied.position).map Supplied.value = form := by
    rw [Form.map_map]
    exact form.map_id
  have hvalues : valuesIn (form.map Supplied.position).symbols =
      (valuesIn form.symbols).map Supplied.position := by
    rw [Form.symbols_map, valuesIn_map]
  have hsigns : SignsOf s.names (form.map Supplied.position).symbols := by
    refine SignsOf.of_map (f := Supplied.value) ?_
    rw [← Form.symbols_map, hvalue]
    exact Form.signsOf hform
  have hwritten : ∀ x ∈ valuesIn (form.map Supplied.position).symbols, ∃ w, Written x w := by
    rw [hvalues]
    intro x hx
    obtain ⟨v, -, rfl⟩ := List.mem_map.1 hx
    exact ⟨_, .position v⟩
  obtain ⟨cs, -, hlayout⟩ := exists_layout hsigns hwritten
  refine ⟨String.ofList cs, some (.positional (valuesIn form.symbols)), form.map Supplied.position,
    by rw [hvalue, hform], ?_, ?_⟩
  · rw [hvalues]
    exact Substitutions.fill_positional _
  · rw [String.toList_ofList]
    exact hlayout

/-- **A well-formed statement can be written as a command, and all ways to write it are read as that
statement.** -/
theorem Statement.ofText_of_writtenAs {s : Statement} (hs : s.WellFormed) :
    (∃ text subs, s.WrittenAs text subs) ∧
      ∀ text subs, s.WrittenAs text subs → ofText text subs = .ok s := by
  refine ⟨hs.exists_text, ?_⟩
  rintro text subs ⟨form, hform, hfill, hlayout⟩
  rw [ofText_of_layout (hs.namesIn hform) hfill hlayout, hform]

theorem IsName.of_isAlpha {name : String} (hne : name.toList ≠ []) (h : ∀ c ∈ name.toList, c.isAlpha)
    (hword : Keyword.ofWord? (upper name.toList) = none)
    (hcompound : Keyword.compound? (upper name.toList) = none) : IsName name :=
  ⟨isWord_of_isAlpha hne h, hword, hcompound⟩

/-- An update with a placeholder, a quoted text in which a quote is escaped, and a negative number. -/
theorem Statement.ofText_mixed_update :
    (Statement.update ⟨⟨none, "t"⟩, [("a", .float .one), ("b", .text "it's ?")],
        some ⟨[.term ⟨"c", .lt, .int (-5)⟩]⟩⟩).WellFormed ∧
      ofText "update t SET a = ? , b = 'it\\'s ?' WHERE c < -5" (some (.positional [.float .one])) =
        .ok (.update ⟨⟨none, "t"⟩, [("a", .float .one), ("b", .text "it's ?")],
          some ⟨[.term ⟨"c", .lt, .int (-5)⟩]⟩⟩) := by
  have hs : (Statement.update ⟨⟨none, "t"⟩, [("a", .float .one), ("b", .text "it's ?")],
      some ⟨[.term ⟨"c", .lt, .int (-5)⟩]⟩⟩).WellFormed := by
    refine ⟨?_, List.cons_ne_nil _ _, ?_⟩
    · intro name hname
      have hmem : name ∈ ["t", "a", "b", "c"] := hname
      simp only [List.mem_cons, List.not_mem_nil, or_false] at hmem
      rcases hmem with rfl | rfl | rfl | rfl
      all_goals exact .of_isAlpha (by decide) (List.all_eq_true.1 rfl) rfl rfl
    · rintro c hc
      cases hc
      exact ⟨.last (.leaf ⟨"c", .lt, .int (-5)⟩), rfl⟩
  refine ⟨hs, (ofText_of_writtenAs hs).2 _ _ ⟨.update ⟨none, "t"⟩
    ⟨("a", .position (.float .one)), [("b", .text '\'' "it's ?")]⟩
    (some (.last (.leaf ⟨"c", .lt, .int (-5)⟩))), rfl, ?_, ?_⟩⟩
  · refine ⟨rfl, fun name v hmem => ?_⟩
    have hvalues : Supplied.named name v ∈
        [.position (.float .one), .text '\'' "it's ?", Supplied.int (-5)] := hmem
    simp at hvalues
  · show Layout Written _ ([] ++ ("update".toList ++ ([' '] ++ ("t".toList ++ ([' '] ++ ("SET".toList ++
      ([' '] ++ ("a".toList ++ ([' '] ++ ("=".toList ++ ([' '] ++ (['?'] ++ ([' '] ++ ([','] ++
      ([' '] ++ ("b".toList ++ ([' '] ++ ("=".toList ++ ([' '] ++
      (('\'' :: (escaped '\'' "it's ?".toList ++ ['\''])) ++ ([' '] ++ ("WHERE".toList ++ ([' '] ++
      ("c".toList ++ ([' '] ++ ("<".toList ++ ([' '] ++ ("-5".toList ++ []))))))))))))))))))))))))))))
    have hblank := isBlank_of_mem_space
    refine .sign (List.forall_mem_nil _) (.keyword (.single rfl rfl)) (parted_space _) ?_
    refine .sign hblank (.ident "t") (parted_space _) ?_
    refine .sign hblank (.keyword (.single rfl rfl)) (parted_space _) ?_
    refine .sign hblank (.ident "a") (parted_space _) ?_
    refine .sign hblank (.op .eq) (parted_space _) ?_
    refine .value hblank (.position _) (parted_space _) ?_
    refine .sign hblank (.mark rfl) (parted_space _) ?_
    refine .sign hblank (.ident "b") (parted_space _) ?_
    refine .sign hblank (.op .eq) (parted_space _) ?_
    refine .value hblank (.text rfl _) (parted_space _) ?_
    refine .sign hblank (.keyword (.single rfl rfl)) (parted_space _) ?_
    refine .sign hblank (.ident "c") (parted_space _) ?_
    refine .sign hblank (.op .lt) (parted_space _) ?_
    exact .value hblank (.int (-5)) parted_nil (.nil (List.forall_mem_nil _))

end TableQuery
