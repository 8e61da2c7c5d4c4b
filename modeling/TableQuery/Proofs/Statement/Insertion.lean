import TableQuery.Proofs.Statement.Grammar
import TableQuery.Proofs.Statement.Layout
import TableQuery.Proofs.Token.Concatenation

/-! The text of an insertion with a placeholder for each value, from its characters to its statement.
The placeholders leave labels in their places, a name is read as an identifier before any of the marks
that can follow it here, and the labels stand for the values in their order. -/

namespace TableQuery

open Text Token

/-- A name that is read as an identifier where no second word of a keyword follows. -/
structure IsIdentifier (name : String) : Prop where
  word : IsWord name.toList
  keyword : Keyword.ofWord? (upper name.toList) = none

theorem isIdentifier_of_isAlpha {name : String} (hne : name.toList ≠ [])
    (halpha : name.toList.all Char.isAlpha) (hkeyword : Keyword.ofWord? (upper name.toList) = none) :
    IsIdentifier name := ⟨isWord_of_isAlpha hne (List.all_eq_true.1 halpha), hkeyword⟩

/-- An insertion of one row: its columns, which may repeat, and a value for each. -/
structure Insertion where
  columns : List String
  values : List Value
  columns_ne_nil : columns ≠ []
  identifiers : ∀ c ∈ columns, IsIdentifier c
  length_eq : columns.length = values.length

namespace Insertion

/-- The command that inserts into this path, with a placeholder for each value. -/
def text (i : Insertion) (path : String) : String :=
  "INSERT INTO " ++ path ++ " (" ++ ", ".intercalate i.columns ++ ") VALUES (" ++
    ", ".intercalate (i.values.map fun _ => "?") ++ ")"

/-- The row that is inserted: of two values for one column the later one counts. -/
def row (i : Insertion) : Row := .ofList (i.columns.zip i.values)

end Insertion

/-! ### The characters of an insertion -/

/-- Words with a comma and a blank between them. -/
def joined (ws : List (List Char)) : List Char := [',', ' '].intercalate ws

theorem joined_singleton (w : List Char) : joined [w] = w := by
  simp [joined]

theorem joined_cons_cons (w v : List Char) (ws : List (List Char)) :
    joined (w :: v :: ws) = w ++ ',' :: ' ' :: joined (v :: ws) := by
  simp [joined]

theorem forall_mem_joined {P : Char → Prop} (hcomma : P ',') (hblank : P ' ') {ws : List (List Char)}
    (h : ∀ w ∈ ws, ∀ c ∈ w, P c) : ∀ c ∈ joined ws, P c := by
  induction ws with
  | nil => simp [joined]
  | cons w ws ih =>
      cases ws with
      | nil =>
          rw [joined_singleton]
          exact h w List.mem_cons_self
      | cons v ws =>
          rw [joined_cons_cons]
          simp only [List.forall_mem_append, List.forall_mem_cons]
          exact ⟨h w List.mem_cons_self, hcomma, hblank, ih fun u hu => h u (List.mem_cons_of_mem _ hu)⟩

/-- What an insertion begins with, up to its values. -/
def insertionHead (path : List Char) (columns : List (List Char)) : List Char :=
  "INSERT INTO ".toList ++ (path ++ (" (".toList ++ (joined columns ++ ") VALUES (".toList)))

/-- The characters of an insertion, with these words in the places of its values. -/
def insertionChars (path : List Char) (columns places : List (List Char)) : List Char :=
  insertionHead path columns ++ (joined places ++ [')'])

theorem toList_concat (a b c d path : String) (columns places : List String) :
    (a ++ path ++ b ++ ", ".intercalate columns ++ c ++ ", ".intercalate places ++ d).toList =
      a.toList ++ (path.toList ++ (b.toList ++ (joined (columns.map String.toList) ++ c.toList))) ++
        (joined (places.map String.toList) ++ d.toList) := by
  have hcomma : ", ".toList = [',', ' '] := String.toList_ofList
  simp only [String.toList_append, String.toList_intercalate, List.append_assoc, hcomma, joined]

theorem Insertion.toList_text (i : Insertion) (path : String) :
    (i.text path).toList = insertionChars path.toList (i.columns.map String.toList)
      (i.values.map fun _ => ['?']) := by
  have hmark : "?".toList = ['?'] := String.toList_ofList
  have hmarks : (i.values.map fun _ => "?").map String.toList = i.values.map fun _ => ['?'] := by
    rw [List.map_map]
    exact List.map_congr_left fun _ _ => hmark
  have hclose : ")".toList = [')'] := String.toList_ofList
  have hconcat := toList_concat "INSERT INTO " " (" ") VALUES (" ")" path i.columns
    (i.values.map fun _ => "?")
  rw [hmarks, hclose] at hconcat
  exact hconcat

/-! ### The labels of the values -/

/-- The labels from this number on. -/
def labelsFrom (number length : Nat) : List (List Char) := (List.range' number length).map label

theorem labelsFrom_succ (number length : Nat) :
    labelsFrom number (length + 1) = label number :: labelsFrom (number + 1) length := rfl

theorem plain_singleton {c : Char} (h : Plain c) : ∀ d ∈ [c], Plain d := by
  intro d hd
  rw [List.mem_singleton.1 hd]
  exact h

theorem replacePlaceholders_marks (subs : Option Substitutions) (given count : Nat) {values : List Value}
    (hne : values ≠ []) :
    replacePlaceholders subs given count values (joined (values.map fun _ => ['?']) ++ [')']) =
      .ok (joined (labelsFrom (count + 1) values.length) ++ [')'], values) := by
  induction values generalizing count with
  | nil => exact absurd rfl hne
  | cons v values ih =>
      cases values with
      | nil =>
          have hclose := replacePlaceholders_of_plain (w := [')']) (plain_singleton ⟨rfl, by decide, by decide⟩)
            subs given (count + 1) [] []
          rw [List.map_cons, List.map_nil, joined_singleton, List.singleton_append,
            replacePlaceholders_position, List.tail_cons, ← List.append_nil [')'], hclose,
            replacePlaceholders_nil]
          simp [filled, Except.map, labelsFrom, joined_singleton]
      | cons v' values =>
          have hcomma : ∀ c ∈ [',', ' '], Plain c := by
            simp [Plain, isQuote]
          have hbetween := replacePlaceholders_of_plain hcomma subs given (count + 1) (v' :: values)
            (joined ((v' :: values).map fun _ => ['?']) ++ [')'])
          have hothers := ih (count + 1) (List.cons_ne_nil _ _)
          rw [hothers] at hbetween
          rw [List.map_cons, List.map_cons, joined_cons_cons, List.singleton_append, List.cons_append,
            replacePlaceholders_position, List.tail_cons]
          have hcommas : replacePlaceholders subs given (count + 1) (v' :: values)
              (',' :: ' ' :: joined (['?'] :: values.map fun _ => ['?']) ++ [')']) =
              .ok (',' :: ' ' :: joined (labelsFrom (count + 1 + 1) (values.length + 1)) ++ [')'], v' :: values) :=
            hbetween
          rw [hcommas]
          simp [filled, Except.map, labelsFrom_succ, joined_cons_cons]

theorem IsIdentifier.plain {name : String} (h : IsIdentifier name) : ∀ c ∈ name.toList, Plain c :=
  fun c hc => plain_of_isWordChar (h.word.all c hc)

/-- A path whose parts are identifiers. -/
structure TablePath.IsIdentifiers (p : TablePath) : Prop where
  table : IsIdentifier p.table
  datastore : ∀ name, p.datastore = some name → IsIdentifier name

theorem TablePath.IsIdentifiers.plain {p : TablePath} (h : p.IsIdentifiers) :
    ∀ c ∈ p.display.toList, Plain c := by
  obtain ⟨datastore, table⟩ := p
  cases datastore with
  | none => exact h.table.plain
  | some datastore =>
      have hpoint : Plain '.' := ⟨rfl, by decide, by decide⟩
      rw [display, String.toList_append, String.toList_append, List.forall_mem_append,
        List.forall_mem_append]
      exact ⟨⟨(h.datastore datastore rfl).plain, plain_singleton hpoint⟩, h.table.plain⟩

theorem plain_insertionHead (i : Insertion) {path : TablePath} (hpath : path.IsIdentifiers) :
    ∀ c ∈ insertionHead path.display.toList (i.columns.map String.toList), Plain c := by
  have hcolumns : ∀ c ∈ joined (i.columns.map String.toList), Plain c := by
    refine forall_mem_joined ⟨rfl, by decide, by decide⟩ ⟨rfl, by decide, by decide⟩ fun w hw => ?_
    obtain ⟨name, hname, rfl⟩ := List.mem_map.1 hw
    exact (i.identifiers name hname).plain
  have hclass : ∀ cs : List Char, (cs.all fun c => c.isAlpha || c = ' ' || c = '(' || c = ')') →
      ∀ c ∈ cs, Plain c := fun cs h c hc =>
    plain_of_class (p := fun c => c.isAlpha || c = ' ' || c = '(' || c = ')') (by decide)
      (List.all_eq_true.1 h c hc)
  unfold insertionHead
  simp only [List.forall_mem_append]
  exact ⟨hclass _ (by decide), hpath.plain, hclass _ (by decide), hcolumns, hclass _ (by decide)⟩

/-- What is left of the text of an insertion when its placeholders are taken out. -/
theorem Insertion.extraction (i : Insertion) {path : TablePath} (hpath : path.IsIdentifiers) :
    Extraction.ofText (i.text path.display) (some (.positional i.values)) =
      .ok ⟨insertionChars path.display.toList (i.columns.map String.toList) (labelsFrom 1 i.values.length),
        i.values⟩ := by
  have hhead := plain_insertionHead i hpath
  have hvalues : i.values ≠ [] := by
    rw [← List.length_pos_iff, ← i.length_eq, List.length_pos_iff]
    exact i.columns_ne_nil
  have hplaces : ∀ c ∈ joined (i.values.map fun _ => ['?']) ++ [')'], isQuote c = false := by
    refine List.forall_mem_append.2 ⟨forall_mem_joined (P := fun c => isQuote c = false) rfl rfl
      fun w hw => ?_, by simp [isQuote]⟩
    obtain ⟨v, -, rfl⟩ := List.mem_map.1 hw
    simp [isQuote]
  have hplain : ∀ c ∈ (i.text path.display).toList, isQuote c = false := by
    rw [i.toList_text, insertionChars]
    exact List.forall_mem_append.2 ⟨fun c hc => (hhead c hc).1, hplaces⟩
  have hquoted := replaceQuoted_of_plain hplain 0 []
  rw [List.append_nil, replaceQuoted_nil] at hquoted
  rw [Extraction.ofText, hquoted, i.toList_text, insertionChars]
  have hmarks := replacePlaceholders_marks (some (.positional i.values)) i.values.length 0 hvalues
  have hfilled := replacePlaceholders_of_plain hhead (some (.positional i.values)) i.values.length 0
    i.values (joined (i.values.map fun _ => ['?']) ++ [')'])
  rw [hmarks] at hfilled
  simp only [Except.map, ok_bind, List.append_nil, List.length_nil, Substitutions.positions, hfilled]
  rfl

/-! ### The tokens of an insertion -/

theorem not_isWordChar_of_ofChar? {c : Char} {t : Token} (h : ofChar? c = some t) :
    isWordChar c = false ∧ isAlphabetic c = false := by
  rw [ofChar?.eq_def] at h
  split at h
  all_goals first | exact ⟨by decide, by decide⟩ | cases h

/-- Before a mark, and blanks at most between, a name is an identifier. -/
theorem scan_identifier {w : List Char} (hw : IsWord w) (hkeyword : Keyword.ofWord? (upper w) = none)
    {bs : List Char} (hbs : ∀ c ∈ bs, isBlank c) {c : Char} {t : Token} (hc : ofChar? c = some t)
    (cs : List Char) :
    scan (w ++ (bs ++ c :: cs)) = (scan cs).map fun ts => .ident (String.ofList w) :: t :: ts := by
  obtain ⟨hword, halpha⟩ := not_isWordChar_of_ofChar? hc
  have hblank := isBlank_of_ofChar? hc
  have hend : ∀ d ∈ (bs ++ c :: cs).head?, isWordChar d = false := by
    cases bs with
    | nil =>
        rintro d ⟨⟩
        exact hword
    | cons b bs =>
        rintro d ⟨⟩
        exact isWordChar_of_isBlank (hbs b List.mem_cons_self)
  -- What follows the blanks is no letter, so no second word is read.
  have hsecond : ∀ second, takeSecond second (bs ++ c :: cs) = none := by
    intro second
    rw [takeSecond_blanks_append hbs]
    unfold takeSecond
    rw [List.dropWhile_cons_of_neg (by simp [hblank])]
    simp [halpha]
  rw [scan_apart hw hkeyword hend fun r _ => hsecond r.1, scan_blanks hbs,
    scan_cons hblank (take_mark hc cs)]
  cases scan cs <;> rfl

/-- The tokens of names with commas between them. -/
def joinedTokens (w : List Char) (ws : List (List Char)) : List Token :=
  .ident (String.ofList w) :: ws.flatMap fun v => [.comma, .ident (String.ofList v)]

theorem scan_joined {w : List Char} {ws : List (List Char)}
    (h : ∀ v ∈ w :: ws, IsWord v ∧ Keyword.ofWord? (upper v) = none) (cs : List Char) :
    scan (joined (w :: ws) ++ ')' :: cs) =
      (scan cs).map fun ts => joinedTokens w ws ++ .rightParen :: ts := by
  induction ws generalizing w with
  | nil =>
      obtain ⟨hword, hkeyword⟩ := h w List.mem_cons_self
      have hscan := scan_identifier hword hkeyword (List.forall_mem_nil _) (c := ')') rfl cs
      rw [joined_singleton]
      exact hscan
  | cons v ws ih =>
      obtain ⟨hword, hkeyword⟩ := h w List.mem_cons_self
      have hscan := scan_identifier hword hkeyword (List.forall_mem_nil _) (c := ',') rfl
        (' ' :: (joined (v :: ws) ++ ')' :: cs))
      have hblank := scan_blanks isBlank_of_mem_space (joined (v :: ws) ++ ')' :: cs)
      rw [List.singleton_append, ih fun u hu => h u (List.mem_cons_of_mem _ hu)] at hblank
      rw [hblank] at hscan
      rw [joined_cons_cons, List.append_assoc, List.cons_append, List.cons_append]
      refine hscan.trans ?_
      cases scan cs <;> simp [Except.map, joinedTokens]

theorem scan_path {p : TablePath} (hp : p.IsIdentifiers) (cs : List Char) :
    scan (p.display.toList ++ ' ' :: '(' :: cs) =
      (scan cs).map fun ts => tokensOf p.symbols ++ .leftParen :: ts := by
  obtain ⟨datastore, table⟩ := p
  have htable := scan_identifier hp.table.word hp.table.keyword isBlank_of_mem_space (c := '(') rfl cs
  simp only [String.ofList_toList, List.singleton_append] at htable
  cases datastore with
  | none => exact htable
  | some datastore =>
      have hdatastore := hp.datastore datastore rfl
      have hpoint : ".".toList = ['.'] := String.toList_ofList
      have hscan := scan_identifier hdatastore.word hdatastore.keyword (List.forall_mem_nil _) (c := '.') rfl
        (table.toList ++ ' ' :: '(' :: cs)
      have hdisplay : (TablePath.display ⟨some datastore, table⟩).toList =
          datastore.toList ++ '.' :: table.toList := by
        rw [TablePath.display, String.toList_append, String.toList_append, hpoint, List.append_assoc]
        rfl
      rw [htable] at hscan
      rw [hdisplay, List.append_assoc, List.cons_append]
      refine hscan.trans ?_
      cases scan cs with
      | error err => rfl
      | ok ts =>
          rw [String.ofList_toList]
          rfl

theorem scan_blank (cs : List Char) : scan (' ' :: cs) = scan cs := scan_blanks isBlank_of_mem_space cs

theorem scan_values_open (cs : List Char) :
    scan ("VALUES".toList ++ ' ' :: '(' :: cs) =
      (scan cs).map fun ts => .keyword .values :: .leftParen :: ts := by
  have hvalues := lexes_spelled (k := .values) (.single rfl (inSomeCase_self (List.all_eq_true.1 rfl)))
    (' ' :: '(' :: cs) (parted_space _)
  have hopen : scan ('(' :: cs) = (scan cs).map (.leftParen :: ·) := scan_cons (by decide) rfl
  rw [hvalues, scan_blank, hopen]
  cases scan cs <;> rfl

theorem scan_insertionHead {p : TablePath} (hp : p.IsIdentifiers) {w : List Char} {ws : List (List Char)}
    (h : ∀ v ∈ w :: ws, IsWord v ∧ Keyword.ofWord? (upper v) = none) (cs : List Char) :
    scan (insertionHead p.display.toList (w :: ws) ++ cs) = (scan cs).map fun ts =>
      .keyword .insertInto :: (tokensOf p.symbols ++ .leftParen :: (joinedTokens w ws ++
        .rightParen :: .keyword .values :: .leftParen :: ts)) := by
  have hinto : "INSERT INTO ".toList = "INSERT".toList ++ ([' '] ++ "INTO".toList) ++ [' '] := by decide
  have hopen : " (".toList = [' ', '('] := by decide
  have hvalues : ") VALUES (".toList = ')' :: ' ' :: ("VALUES".toList ++ [' ', '(']) := by decide
  have hshape : insertionHead p.display.toList (w :: ws) ++ cs =
      ("INSERT".toList ++ ([' '] ++ "INTO".toList)) ++ ' ' :: (p.display.toList ++ ' ' :: '(' ::
        (joined (w :: ws) ++ ')' :: ' ' :: ("VALUES".toList ++ ' ' :: '(' :: cs))) := by
    unfold insertionHead
    rw [hinto, hopen, hvalues]
    simp only [List.append_assoc, List.cons_append, List.nil_append]
  have hfirst : InSomeCase "INSERT" "INSERT".toList := inSomeCase_self (List.all_eq_true.1 rfl)
  have hsecond : InSomeCase "INTO" "INTO".toList := inSomeCase_self (List.all_eq_true.1 rfl)
  have hinsert := lexes_spelled (k := .insertInto) (.compound rfl hfirst isBlank_of_mem_space
    (List.cons_ne_nil _ _) hsecond) _ (parted_space (p.display.toList ++
      ' ' :: '(' :: (joined (w :: ws) ++ ')' :: ' ' :: ("VALUES".toList ++ ' ' :: '(' :: cs))))
  rw [hshape, hinsert, scan_blank, scan_path hp, scan_joined h, scan_blank, scan_values_open]
  cases scan cs <;> rfl

/-! ### The statement of an insertion -/

theorem tokensOf_names (l : Listing String) :
    tokensOf (l.symbols nameSymbols) = joinedTokens l.first.toList (l.others.map String.toList) := by
  simp [Listing.symbols, tokensOf, joinedTokens, nameSymbols, Symbol.token, List.map_flatMap,
    List.flatMap_map]

/-- The scalar that a label is read as. -/
def labelScalar (w : List Char) : Scalar := .word (String.ofList w)

theorem tokensOf_labels (l : Listing (List Char)) :
    tokensOf ((l.map labelScalar).symbols valueSymbols) = joinedTokens l.first l.others := by
  simp [Listing.symbols, Listing.map, tokensOf, joinedTokens, valueSymbols, labelScalar, Symbol.token,
    Scalar.token, List.map_flatMap, List.flatMap_map]

/-- The labels are read as the values that left them. -/
theorem toList_map_labels (text : List Char) (values : List Value) {labels : Listing (List Char)}
    (h : labels.toList = labelsFrom 1 values.length) :
    ((labels.map labelScalar).map (Scalar.value ⟨text, values⟩)).toList = values := by
  have hmap : (labelsFrom 1 values.length).map (fun w => (labelScalar w).value ⟨text, values⟩) = values := by
    refine List.ext_getElem (by simp [labelsFrom]) fun k hk hk' => ?_
    have hlabel := Extraction.resolveFrom_label (List.getElem?_eq_getElem hk') 1
    simp [labelsFrom, labelScalar, Scalar.value, Extraction.resolve?, hlabel]
  rw [← h] at hmap
  rw [Listing.map_map]
  exact hmap

/-- The form of an insertion has the columns on one side and the labels of the values on the other. -/
theorem Insertion.exists_form (i : Insertion) : ∃ entries : Listing (String × Scalar),
    ∃ labels : Listing (List Char), labels.toList = labelsFrom 1 i.values.length ∧
      (entries.map Prod.fst).toList = i.columns ∧ entries.map Prod.snd = labels.map labelScalar := by
  obtain ⟨c, cs, hcolumns⟩ := List.exists_cons_of_ne_nil i.columns_ne_nil
  have hlength := i.length_eq
  rw [hcolumns, List.length_cons] at hlength
  have hlabels : labelsFrom 1 i.values.length = label 1 :: labelsFrom 2 cs.length := by
    rw [← hlength, labelsFrom_succ]
  obtain ⟨entries, hnames, hscalars⟩ := Listing.exists_zip ⟨c, cs⟩
    ((⟨label 1, labelsFrom 2 cs.length⟩ : Listing (List Char)).map labelScalar)
    (by simp [Listing.toList, Listing.map, labelsFrom])
  exact ⟨entries, ⟨label 1, labelsFrom 2 cs.length⟩, hlabels.symm, by rw [hnames, hcolumns, Listing.toList],
    hscalars⟩

/-- **The text of an insertion is read as the insertion of its values.** -/
theorem Insertion.ofText_text (i : Insertion) {path : TablePath} (hpath : path.IsIdentifiers) :
    Statement.ofText (i.text path.display) (some (.positional i.values)) =
      .ok (.insert ⟨path, i.columns, i.values⟩) := by
  obtain ⟨entries, labels, hlabels, hcolumns, hscalars⟩ := i.exists_form
  have hnames : ∀ v ∈ (entries.map Prod.fst).first.toList :: (entries.map Prod.fst).others.map String.toList,
      IsWord v ∧ Keyword.ofWord? (upper v) = none := by
    rw [← List.map_cons, ← Listing.toList, hcolumns]
    intro v hv
    obtain ⟨name, hname, rfl⟩ := List.mem_map.1 hv
    exact ⟨(i.identifiers name hname).word, (i.identifiers name hname).keyword⟩
  have hmarks : ∀ v ∈ labels.first :: labels.others, IsWord v ∧ Keyword.ofWord? (upper v) = none := by
    rw [← Listing.toList, hlabels]
    intro v hv
    obtain ⟨n, -, rfl⟩ := List.mem_map.1 hv
    exact ⟨isWord_label n, (ofWord?_of_underscore (upper_label n)).1⟩
  have hhead := scan_insertionHead hpath hnames (joined labels.toList ++ [')'])
  have hplaces := scan_joined hmarks []
  rw [← Listing.toList, scan_nil] at hplaces
  rw [hplaces, ← List.map_cons, ← Listing.toList, hcolumns] at hhead
  have hscan : scan (insertionChars path.display.toList (i.columns.map String.toList)
      (labelsFrom 1 i.values.length)) = .ok ((Form.insert path entries).tokens ++ [.eof]) := by
    rw [insertionChars, ← hlabels, hhead, Form.tokens, Form.symbols]
    simp only [tokensOf_cons, tokensOf_append, tokensOf_names, hscalars, tokensOf_labels]
    simp [Except.map, Symbol.token, tokensOf]
  rw [Statement.ofText, i.extraction hpath]
  simp only [ok_bind, hscan]
  have hstands : Leads Scalar.Stands (Form.insert path entries).symbols
      ((Form.insert path entries).tokens ++ [.eof]) [.eof] := leads_stands_iff.2 rfl
  refine (Statement.ofTokens_of_stands hstands (Or.inl rfl)).trans ?_
  rw [Form.map, Form.statement, Listing.map_map, Listing.map_map, Prod.map_fst', Prod.map_snd',
    Function.id_comp, hcolumns, ← Listing.map_map, hscalars, toList_map_labels _ _ hlabels]

end TableQuery
