import TableQuery.Proofs.Number.Spelling
import TableQuery.Proofs.Statement.Places
import TableQuery.Proofs.Statement.RoundTrip
import TableQuery.Proofs.Statement.Substitution
import TableQuery.Proofs.Token.Origin

/-! What becomes of the labels of a command. A label is a word like any other, so it stands for its value
where the grammar has a value and the label is the whole word. Elsewhere it is read as a name or as a part
of a word; and a word that is written like a label is read as that label. -/

namespace TableQuery

open Text Token

/-! ### Readings of a command -/

/-- How a command is read as a statement: the stretches of its labelled text, the tokens with the stretches
that each is read from, and the derivation of the tokens. -/
structure Reading (text : String) (subs : Option Substitutions) (s : Statement) where
  extraction : Extraction
  extracted : Extraction.ofText text subs = .ok extraction
  stretches : List Stretch
  labels : Labels text.toList subs stretches extraction.values
  labelled : Stretch.text stretches = extraction.text
  lexemes : List (Token × List Stretch)
  lexed : Lexemes stretches lexemes
  derivation : Derivation
  derived : derivation.tokens = lexemes.map Prod.fst
  stands : derivation.statement extraction = .ok s

variable {text : String} {subs : Option Substitutions} {s : Statement}

theorem Statement.nonempty_reading (h : ofText text subs = .ok s) : Nonempty (Reading text subs s) := by
  obtain ⟨e, ts, he, hts, hs⟩ := ofText_eq_ok_iff.1 h
  obtain ⟨ss, hlabels, htext⟩ := exists_labels he
  rw [← htext] at hts
  obtain ⟨us, hus, rfl⟩ := exists_lexemes ss hts
  obtain ⟨d, htokens, hstatement⟩ := Derivation.exists_of_ofTokens (Token.scan_endsOnce hts) hs
  exact ⟨⟨e, he, ss, hlabels, htext, us, hus, d, htokens, hstatement⟩⟩

namespace Reading

variable (r : Reading text subs s)

/-- The symbols of the command, each with the stretches that it is read from. -/
def leaves : List (Symbol Scalar × List Stretch) := r.derivation.form.symbols.zip (r.lexemes.map Prod.snd)

/-- The token of a symbol, with the stretches that it is read from. -/
def lexeme (leaf : Symbol Scalar × List Stretch) : Token × List Stretch := (leaf.1.token, leaf.2)

variable {r} {x : Symbol Scalar} {own : List Stretch} {w : String}

theorem exists_leaves_eq (r : Reading text subs s) : ∃ front last, r.lexemes = front ++ last ∧
    tokensOf r.derivation.form.symbols = front.map Prod.fst ∧ r.derivation.ending = last.map Prod.fst ∧
    r.leaves = r.derivation.form.symbols.zip (front.map Prod.snd) := by
  obtain ⟨front, last, hlexemes, hfront, hlast⟩ := List.map_eq_append_iff.1 r.derived.symm
  have hlength : r.derivation.form.symbols.length = (front.map Prod.snd).length := by
    have hlength := congrArg List.length hfront
    rw [List.length_map] at hlength ⊢
    rw [hlength]
    exact (List.length_map _).symm
  refine ⟨front, last, hlexemes, hfront.symm, hlast.symm, ?_⟩
  have hzip : (r.derivation.form.symbols ++ []).zip (front.map Prod.snd ++ last.map Prod.snd) =
      r.derivation.form.symbols.zip (front.map Prod.snd) ++ [].zip (last.map Prod.snd) :=
    List.zip_append hlength
  rwa [List.append_nil, List.zip_nil_left, List.append_nil, ← List.map_append, ← hlexemes] at hzip

/-- Behind the symbols there are only a semicolon and the end. -/
theorem exists_lexemes_eq (r : Reading text subs s) : ∃ last, r.leaves.map lexeme ++ last = r.lexemes ∧
    last.map Prod.fst = r.derivation.ending := by
  obtain ⟨front, last, hlexemes, hfront, hlast, hleaves⟩ := r.exists_leaves_eq
  refine ⟨last, ?_, hlast.symm⟩
  have hmap : r.leaves.map lexeme = (tokensOf r.derivation.form.symbols).zip (front.map Prod.snd) := by
    rw [hleaves, tokensOf, List.zip_map_left]
    rfl
  rw [hmap, hfront, hlexemes, ← List.zip_of_prod rfl rfl]

theorem leaves_symbols (r : Reading text subs s) : r.leaves.map Prod.fst = r.derivation.form.symbols := by
  obtain ⟨front, last, -, hfront, -, hleaves⟩ := r.exists_leaves_eq
  rw [hleaves, List.map_fst_zip]
  have hlength := congrArg List.length hfront
  rw [tokensOf, List.length_map, List.length_map] at hlength
  rw [List.length_map, hlength]

theorem lexeme_mem (h : (x, own) ∈ r.leaves) : (x.token, own) ∈ r.lexemes := by
  obtain ⟨last, hlexemes, -⟩ := r.exists_lexemes_eq
  rw [← hlexemes]
  exact List.mem_append_left _ (List.mem_map_of_mem (f := lexeme) h)

theorem exists_leaf_of_ident (h : (.ident w, own) ∈ r.lexemes) :
    ∃ x, (x, own) ∈ r.leaves ∧ x.token = .ident w := by
  obtain ⟨last, hlexemes, hlast⟩ := r.exists_lexemes_eq
  rw [← hlexemes] at h
  rcases List.mem_append.1 h with hleaf | hending
  · obtain ⟨⟨x, own'⟩, hx, heq⟩ := List.mem_map.1 hleaf
    obtain ⟨htoken, rfl⟩ := Prod.mk.inj heq
    exact ⟨x, hx, htoken⟩
  · have hmem : .ident w ∈ r.derivation.ending := hlast ▸ List.mem_map_of_mem (f := Prod.fst) hending
    unfold Derivation.ending at hmem
    split at hmem <;> simp at hmem

theorem exists_leaf (h : x ∈ r.derivation.form.symbols) : ∃ own, (x, own) ∈ r.leaves := by
  rw [← r.leaves_symbols] at h
  obtain ⟨⟨x, own⟩, hleaf, rfl⟩ := List.mem_map.1 h
  exact ⟨own, hleaf⟩

theorem symbol_mem (h : (x, own) ∈ r.leaves) : x ∈ r.derivation.form.symbols := (List.of_mem_zip h).1

/-- The names of the statement are the identifiers among the symbols. -/
theorem names_eq (r : Reading text subs s) : namesOf r.derivation.form.symbols = s.names := by
  rw [← Form.namesOf_symbols r.stands, Form.symbols_map, namesOf_map]

/-- The values of the statement, and then the value of a limit, are what the places stand for. -/
theorem values_eq (r : Reading text subs s) :
    (valuesIn r.derivation.form.symbols).map (Scalar.value r.extraction) =
      s.values ++ (r.derivation.form.map (Scalar.value r.extraction)).limit?.toList := by
  rw [← Form.valuesIn_symbols r.stands, Form.symbols_map, valuesIn_map]

/-! ### Names and places -/

theorem name_mem (h : (.sign (.ident w), own) ∈ r.leaves) : w ∈ s.names := by
  rw [← r.names_eq, mem_namesOf]
  exact symbol_mem h

theorem exists_name (r : Reading text subs s) (h : w ∈ s.names) :
    ∃ own, (.sign (.ident w), own) ∈ r.leaves := by
  rw [← r.names_eq, mem_namesOf] at h
  exact exists_leaf h

theorem isCount_limit (r : Reading text subs s) {v : Value}
    (h : (r.derivation.form.map (Scalar.value r.extraction)).limit? = some v) : v.IsCount := by
  have hlimit : (r.derivation.form.map (Scalar.value r.extraction)).limit? =
      r.derivation.form.limit?.map (Scalar.value r.extraction) := by
    cases r.derivation.form <;> rfl
  rw [hlimit] at h
  obtain ⟨y, hy, rfl⟩ := Option.map_eq_some_iff.1 h
  exact r.derivation.exists_statement_iff.1 ⟨s, r.stands⟩ y hy

/-- What a place stands for is a value of the statement, or a limit. -/
theorem value_mem {y : Scalar} (h : (.value y, own) ∈ r.leaves) :
    y.value r.extraction ∈ s.values ∨ (y.value r.extraction).IsCount := by
  have hmem := List.mem_map_of_mem (f := Scalar.value r.extraction) (mem_valuesIn.2 (symbol_mem h))
  rw [r.values_eq, List.mem_append, Option.mem_toList] at hmem
  exact hmem.imp_right r.isCount_limit

theorem exists_place (r : Reading text subs s) {v : Value} (h : v ∈ s.values) :
    ∃ y own, (.value y, own) ∈ r.leaves ∧ y.value r.extraction = v := by
  have hmem := List.mem_append_left (r.derivation.form.map (Scalar.value r.extraction)).limit?.toList h
  rw [← r.values_eq] at hmem
  obtain ⟨y, hy, hv⟩ := List.mem_map.1 hmem
  obtain ⟨own, hown⟩ := exists_leaf (mem_valuesIn.1 hy)
  exact ⟨y, own, hown, hv⟩

/-! ### Words -/

theorem word_of_ident (h : (x, own) ∈ r.leaves) (hx : x.token = .ident w) :
    w.toList = Stretch.text own ∧ IsWord w.toList := by
  rcases r.lexed.ident_or_written (lexeme_mem h) with ⟨htoken, hword, -⟩ | ⟨-, hno⟩
  · rw [hx] at htoken
    cases htoken
    rw [String.toList_ofList]
    exact ⟨rfl, hword⟩
  · exact absurd hx (hno w)

/-- A symbol whose stretches have a label among them is a name, or a word in a place. -/
theorem ident_of_label {n : Nat} (h : (x, own) ∈ r.leaves) (hn : .label n ∈ own) :
    ∃ w, x = .sign (.ident w) ∨ x = .value (.word w) := by
  rcases r.lexed.ident_or_written (lexeme_mem h) with ⟨htoken, -⟩ | ⟨hwritten, -⟩
  · cases x with
    | sign t => exact ⟨_, Or.inl (congrArg Symbol.sign htoken)⟩
    | value y =>
        cases y with
        | word w => exact ⟨w, Or.inr rfl⟩
        | number n => cases htoken
        | float x => cases htoken
  · exact absurd hn (hwritten n)

/-- What is read from written stretches stands in the command. -/
theorem infix_of_written (h : (x, own) ∈ r.leaves) (hown : Stretch.Written own) :
    Stretch.text own <:+: text.toList :=
  r.labels.infix_of_written (r.lexed.isInfix (lexeme_mem h)) hown

/-! ### Labels -/

/-- Every label is read alone, in the place of a value. -/
def LabelsAlone (r : Reading text subs s) : Prop :=
  ∀ x own n, (x, own) ∈ r.leaves → .label n ∈ own → own = [.label n] ∧ ∃ y, x = .value y

end Reading

theorem Statement.eq_of_bareWord {w v : String} (h : bareWord w = .text v) : w = v := by
  have htext : (bareWord w).TextIs (· = w) := bareWord_textIs rfl
  rw [h] at htext
  exact htext.symm

theorem Statement.bareWord_of_underscore {w : String} (h : '_' ∈ w.toList) : bareWord w = .text w := by
  have hsmall : '_' ∈ smallLetters w.toList := List.mem_map.2 ⟨'_', h, by decide⟩
  have hne : ∀ name : String, '_' ∉ name.toList → smallLetters w.toList ≠ name.toList :=
    fun name hname heq => hname (heq ▸ hsmall)
  unfold bareWord
  simp only [if_neg (hne "true" (by decide)), if_neg (hne "false" (by decide)), if_neg (hne "null" (by decide))]

theorem Value.not_isCount_word {w : String} (hw : IsWord w.toList) : ¬ (Value.text w).IsCount := by
  rintro ⟨hfinite, -⟩
  rw [toNumber] at hfinite
  cases hx : Number.spelled? w.toList with
  | none =>
      rw [hx] at hfinite
      cases hfinite
  | some x =>
      rw [hx, Option.getD_some, Number.isFinite_word hw hx] at hfinite
      cases hfinite

/-- No name and no text of the statement has a label in it. -/
def Statement.Unlabelled (s : Statement) : Prop :=
  ∀ n, (∀ name ∈ s.names, ¬ label n <:+: name.toList) ∧
    ∀ w, .text w ∈ s.values → ¬ label n <:+: w.toList

namespace Reading

variable {r : Reading text subs s}

theorem labelsAlone_of_unlabelled (h : s.Unlabelled) : r.LabelsAlone := by
  intro x own n hleaf hn
  obtain ⟨w, rfl | rfl⟩ := ident_of_label hleaf hn
  · obtain ⟨hw, -⟩ := word_of_ident hleaf rfl
    exact absurd (hw ▸ Stretch.infix_text_of_mem hn) ((h n).1 w (name_mem hleaf))
  · refine ⟨?_, _, rfl⟩
    obtain ⟨hw, hword⟩ := word_of_ident hleaf rfl
    have hlabel : label n <:+: w.toList := hw ▸ Stretch.infix_text_of_mem hn
    by_contra halone
    -- a longer word is not looked up, so it stays a text with the label in it
    have hvalue : (Scalar.word w).value r.extraction = .text w := by
      have hne : ∀ k, w.toList ≠ label k := fun k heq =>
        halone (Stretch.eq_of_text_eq_label hn (hw.symm.trans heq))
      rw [Scalar.value, Extraction.resolve?, Extraction.resolveFrom_of_ne hne, Option.getD_none]
      exact Statement.bareWord_of_underscore (hlabel.mem (label_eq_cons n ▸ List.mem_cons_self))
    rcases value_mem hleaf with hmem | hcount
    · exact (h n).2 w (hvalue ▸ hmem) hlabel
    · exact Value.not_isCount_word hword (hvalue ▸ hcount)

/-- A word that is written in the command has no label in it where the command has none. -/
theorem not_infix_of_written (htext : ¬ "_LIT".toList <:+: text.toList) {n : Nat} {x : Symbol Scalar}
    {own : List Stretch} (h : (x, own) ∈ r.leaves) (hown : Stretch.Written own) :
    ¬ label n <:+: Stretch.text own :=
  fun hlabel => htext ((infix_label n).trans (hlabel.trans (infix_of_written h hown)))

theorem word_of_alone {n : Nat} {x : Symbol Scalar} (h : (x, [.label n]) ∈ r.leaves) {w : String}
    (hx : x.token = .ident w) : w = String.ofList (label n) := by
  have hw := (word_of_ident h hx).1
  rw [Stretch.text_label, Stretch.text_nil, List.append_nil] at hw
  rw [← hw, String.ofList_toList]

theorem number_of_leaf {n : Nat} {x : Symbol Scalar} {own : List Stretch} (h : (x, own) ∈ r.leaves)
    (hn : .label n ∈ own) : 0 < n ∧ n ≤ r.extraction.values.length :=
  r.labels.number_le ((r.lexed.isInfix (lexeme_mem h)).mem hn)

theorem unlabelled_of_labelsAlone (htext : ¬ "_LIT".toList <:+: text.toList)
    (hvalues : ∀ w, .text w ∈ r.extraction.values → ¬ "_LIT".toList <:+: w.toList) (h : r.LabelsAlone) :
    s.Unlabelled := by
  -- a leaf without a label in its stretches, or a label alone in a place
  have hcases : ∀ x own, (x, own) ∈ r.leaves →
      Stretch.Written own ∨ ∃ n, own = [.label n] ∧ ∃ y, x = .value y := by
    intro x own hleaf
    by_cases hown : Stretch.Written own
    · exact Or.inl hown
    · obtain ⟨n, hn⟩ : ∃ n, .label n ∈ own := by simpa [Stretch.Written] using hown
      exact Or.inr ⟨n, h x own n hleaf hn⟩
  intro n
  constructor
  · intro name hname hlabel
    obtain ⟨own, hleaf⟩ := r.exists_name hname
    rcases hcases _ _ hleaf with hown | ⟨k, -, y, hy⟩
    · rw [(word_of_ident hleaf rfl).1] at hlabel
      exact not_infix_of_written htext hleaf hown hlabel
    · cases hy
  · intro w hw hlabel
    obtain ⟨y, own, hleaf, hy⟩ := r.exists_place hw
    cases y with
    | number m => cases hy
    | float x => cases hy
    | word v =>
        rw [Scalar.value] at hy
        cases hresolve : r.extraction.resolve? v with
        | some u =>
            rw [hresolve, Option.getD_some] at hy
            obtain ⟨k, hk, -⟩ := Extraction.exists_of_resolve? hresolve
            exact hvalues w (hy ▸ List.mem_of_getElem? hk) ((infix_label n).trans hlabel)
        | none =>
            rw [hresolve, Option.getD_none] at hy
            obtain rfl := Statement.eq_of_bareWord hy
            rcases hcases _ _ hleaf with hown | ⟨k, rfl, -⟩
            · rw [(word_of_ident hleaf rfl).1] at hlabel
              exact not_infix_of_written htext hleaf hown hlabel
            · obtain ⟨hpos, hlast⟩ := number_of_leaf hleaf (List.mem_singleton_self _)
              obtain ⟨k, rfl⟩ := Nat.exists_eq_succ_of_ne_zero hpos.ne'
              have hvalue := List.getElem?_eq_getElem (Nat.lt_of_succ_le hlast)
              rw [word_of_alone hleaf rfl, Extraction.resolve?_label hvalue] at hresolve
              cases hresolve

/-- What comes of the labels of a command. -/
structure LabelsRead (r : Reading text subs s) : Prop where
  /-- The statement has no label in it exactly if each is read alone, in the place of a value. -/
  unlabelled_iff : s.Unlabelled ↔ r.LabelsAlone
  /-- A label that is read so stands for the quoted text or the placeholder that left it. -/
  stands : r.LabelsAlone → ∀ k v, r.extraction.values[k]? = some v → .label (k + 1) ∈ r.stretches →
    ∃ y, (.value y, [.label (k + 1)]) ∈ r.leaves ∧ y.value r.extraction = v
  /-- No label is lost in the name of a placeholder, unless the name spells one. -/
  kept : Substitutions.KeysApart subs → ∀ k < r.extraction.values.length, .label (k + 1) ∈ r.stretches

theorem place_of_label (h : r.LabelsAlone) {k : Nat} {v : Value} (hv : r.extraction.values[k]? = some v)
    (hk : .label (k + 1) ∈ r.stretches) :
    ∃ y, (.value y, [.label (k + 1)]) ∈ r.leaves ∧ y.value r.extraction = v := by
  obtain ⟨t, own, hlexeme, hn⟩ := r.lexed.exists_of_label hk
  rcases r.lexed.ident_or_written hlexeme with ⟨rfl, -⟩ | ⟨hwritten, -⟩
  · obtain ⟨x, hleaf, hx⟩ := exists_leaf_of_ident hlexeme
    obtain ⟨rfl, y, rfl⟩ := h x own _ hleaf hn
    refine ⟨y, hleaf, ?_⟩
    cases y with
    | number m => cases hx
    | float x => cases hx
    | word w =>
        rw [word_of_alone hleaf rfl, Scalar.value, Extraction.resolve?_label hv, Option.getD_some]
  · exact absurd hn (hwritten _)

end Reading

/-- **Labels are hidden exactly where each is a word of its own in the place of a value.** -/
theorem Statement.labels_read (h : ofText text subs = .ok s) (htext : ¬ "_LIT".toList <:+: text.toList)
    (hvalues : ∀ e, Extraction.ofText text subs = .ok e →
      ∀ w, .text w ∈ e.values → ¬ "_LIT".toList <:+: w.toList) :
    Nonempty (Reading text subs s) ∧ ∀ r : Reading text subs s, r.LabelsRead := by
  refine ⟨nonempty_reading h, fun r => ⟨⟨Reading.labelsAlone_of_unlabelled, ?_⟩, ?_, ?_⟩⟩
  · exact Reading.unlabelled_of_labelsAlone htext (hvalues _ r.extracted)
  · exact fun halone k v => Reading.place_of_label halone
  · exact fun hkeys k hk => r.labels.label_mem hkeys (Nat.succ_pos k) hk

theorem Statement.ofText_of_derivation {e : Extraction} {d : Derivation} (he : Extraction.ofText text subs = .ok e)
    (hts : Token.scan e.text = .ok d.tokens) (hs : d.statement e = .ok s) : ofText text subs = .ok s :=
  ofText_eq_ok_iff.2 ⟨e, d.tokens, he, hts, d.ofTokens_tokens.trans hs⟩

/-- The deletion of the rows in which `a` is `x` and `b` is `y`. -/
def deletion : Statement :=
  .delete ⟨⟨none, "t"⟩, some ⟨[.term ⟨"a", .eq, .text "x"⟩, .and, .term ⟨"b", .eq, .text "y"⟩]⟩⟩

/-- A quoted text and a placeholder in the places of values. -/
theorem Statement.labels_read_in_deletion :
    ofText "DELETE FROM t WHERE a = 'x' AND b = ?" (some (.positional [.text "y"])) = .ok deletion ∧
      Nonempty (Reading "DELETE FROM t WHERE a = 'x' AND b = ?" (some (.positional [.text "y"])) deletion) ∧
      ∀ r : Reading "DELETE FROM t WHERE a = 'x' AND b = ?" (some (.positional [.text "y"])) deletion,
        r.LabelsRead := by
  have he : Extraction.ofText "DELETE FROM t WHERE a = 'x' AND b = ?" (some (.positional [.text "y"])) =
      .ok ⟨"DELETE FROM t WHERE a = _LIT1_ AND b = _LIT2_".toList, [.text "x", .text "y"]⟩ := by
    cbv
  have hs : ofText "DELETE FROM t WHERE a = 'x' AND b = ?" (some (.positional [.text "y"])) = .ok deletion :=
    ofText_of_derivation he (d := ⟨.delete ⟨none, "t"⟩ (some (.join (.leaf ⟨"a", .eq, .word "_LIT1_"⟩)
      .and (.last (.leaf ⟨"b", .eq, .word "_LIT2_"⟩)))), false⟩) (by decide +kernel) (by decide +kernel)
  refine ⟨hs, labels_read hs (by decide) fun e he' w hw => ?_⟩
  rw [he] at he'
  cases he'
  simp only [List.mem_cons, Value.text.injEq, List.not_mem_nil, or_false] at hw
  rcases hw with rfl | rfl <;> decide

/-- A quoted text where the grammar has a column. -/
theorem Statement.label_read_as_column : ¬ "_LIT".toList <:+: "SELECT 'x' FROM t".toList ∧
    ofText "SELECT 'x' FROM t" none = .ok (.select ⟨.names ["_LIT1_"], ⟨none, "t"⟩, none, none, none⟩) ∧
    ¬ (Statement.select ⟨.names ["_LIT1_"], ⟨none, "t"⟩, none, none, none⟩).Unlabelled := by
  have he : Extraction.ofText "SELECT 'x' FROM t" none = .ok ⟨"SELECT _LIT1_ FROM t".toList, [.text "x"]⟩ := by
    cbv
  refine ⟨by decide, ofText_of_derivation he (d := ⟨.select (some ⟨"_LIT1_", []⟩) ⟨none, "t"⟩ none none none,
    false⟩) (by decide +kernel) rfl, fun hhidden => ?_⟩
  exact (hhidden 1).1 "_LIT1_" List.mem_cons_self List.infix_rfl

end TableQuery
