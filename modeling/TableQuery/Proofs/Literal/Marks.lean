import TableQuery.Proofs.Literal.Quotation
import TableQuery.Proofs.Literal.Source

/-! How the values of a command are accounted for. A command whose quotes are all closed is read as a
sequence of marks: its quoted texts, the placeholders outside of them, and the other characters. If no quoted
text touches the name of a placeholder, the outcome of the extraction is told by counting the placeholders
and by looking up their names. -/

namespace TableQuery

open Text

/-! ### Marks -/

inductive Mark
  | char (c : Char)
  | literal (content : String)
  | position
  | name (name : String)
  deriving DecidableEq

namespace Mark

def literal? : Mark → Option Value
  | .literal content => some (.text content)
  | _ => none

def name? : Mark → Option String
  | .name n => some n
  | _ => none

def isPosition : Mark → Bool
  | .position => true
  | _ => false

/-- Whether a word behind the mark would be read as a name, or as a part of one. -/
def joins (m : Mark) : Prop := m = .char ':' ∨ m.name?.isSome

/-- The values of the quoted texts. -/
def literals (ms : List Mark) : List Value := ms.filterMap literal?

/-- The names of the placeholders, in their order. -/
def names (ms : List Mark) : List String := ms.filterMap name?

/-- The number of the placeholders without a name. -/
def positions (ms : List Mark) : Nat := (ms.filter isPosition).length

/-- No quoted text directly follows a colon or the name of a placeholder. -/
def Apart (ms : List Mark) : Prop := ms.IsChain fun m m' => m.joins → m'.literal? = none

/-- The text with labels; the numbers of the labels of the literals and of the placeholders go on from
these. -/
def labelled (literals fillings : Nat) : List Mark → List Char
  | [] => []
  | .char c :: ms => c :: labelled literals fillings ms
  | .literal _ :: ms => label (literals + 1) ++ labelled (literals + 1) fillings ms
  | .position :: ms => label (fillings + 1) ++ labelled literals (fillings + 1) ms
  | .name _ :: ms => label (fillings + 1) ++ labelled literals (fillings + 1) ms

/-- The text with labels for the literals only. -/
def unquoted (literals : Nat) : List Mark → List Char
  | [] => []
  | .char c :: ms => c :: unquoted literals ms
  | .literal _ :: ms => label (literals + 1) ++ unquoted (literals + 1) ms
  | .position :: ms => '?' :: unquoted literals ms
  | .name n :: ms => ':' :: (n.toList ++ unquoted literals ms)

end Mark

/-- The text is read as these marks: quoted texts up to their closing quotes, and outside of them the
placeholders, with names that are as long as possible. -/
inductive Reads : List Char → List Mark → Prop
  | nil : Reads [] []
  | literal {quote : Char} {body content rest : List Char} {ms : List Mark} (hquote : isQuote quote)
      (hbody : Body quote body content) (hrest : Reads rest ms) :
      Reads (quote :: (body ++ quote :: rest)) (.literal (String.ofList content) :: ms)
  | position {rest : List Char} {ms : List Mark} (hrest : Reads rest ms) :
      Reads ('?' :: rest) (.position :: ms)
  | name {w rest : List Char} {ms : List Mark} (hw : IsWord w)
      (hend : ∀ c ∈ rest.head?, isWordChar c = false) (hrest : Reads rest ms) :
      Reads (':' :: (w ++ rest)) (.name (String.ofList w) :: ms)
  | char {c : Char} {rest : List Char} {ms : List Mark} (hquote : ¬ isQuote c) (hc : Unmarked c rest)
      (hrest : Reads rest ms) : Reads (c :: rest) (.char c :: ms)

/-! ### The literals -/

section Literals

variable {cs w : List Char} {ms : List Mark}

theorem replaceQuoted_reads (h : Reads cs ms) (count : Nat) :
    replaceQuoted count cs = .ok (Mark.unquoted count ms, Mark.literals ms) := by
  induction h generalizing count with
  | nil => exact replaceQuoted_nil count
  | literal hquote hbody _ ih =>
      have htake := takeQuoted_of_body (backslash_ne_of_isQuote hquote) hbody
      rw [replaceQuoted_quote hquote (htake _), ih]
      rfl
  | position _ ih =>
      rw [replaceQuoted_plain (by decide), ih]
      rfl
  | @name w rest ms hw _ _ ih =>
      rw [← List.cons_append, replaceQuoted_of_plain (isQuote_of_isWord hw), ih, Mark.unquoted,
        String.toList_ofList]
      rfl
  | char hquote _ _ ih =>
      rw [replaceQuoted_plain hquote, ih]
      rfl

theorem Reads.not_leavesOpen (h : Reads cs ms) (quote : Char) : ¬ LeavesOpen quote cs := by
  intro hopen
  have hok := replaceQuoted_reads h 0
  rw [replaceQuoted_of_leavesOpen hopen] at hok
  cases hok

theorem leavesOpen_append {quote : Char} (hw : ∀ c ∈ w, isQuote c = false) (h : LeavesOpen quote cs) :
    LeavesOpen quote (w ++ cs) := by
  induction w with
  | nil => exact h
  | cons c w ih =>
      exact .char (by simp [hw c List.mem_cons_self]) (ih fun d hd => hw d (List.mem_cons_of_mem c hd))

theorem isWord_takeWhile (h : startsName cs) : IsWord (cs.takeWhile isWordChar) := by
  rcases cs with _ | ⟨c, cs⟩
  · cases h
  have hstart : isWordStart c := h
  refine ⟨⟨c, cs.takeWhile isWordChar, ?_, hstart⟩, fun d hd => List.mem_takeWhile_imp hd⟩
  rw [List.takeWhile_cons_of_pos (isWordChar_of_isWordStart hstart)]

/-- A text without an open quote is read as some marks. -/
theorem exists_reads (cs : List Char) (h : ∀ quote, ¬ LeavesOpen quote cs) : ∃ ms, Reads cs ms := by
  by_cases hquote : ∃ c rest, cs = c :: rest ∧ isQuote c
  · obtain ⟨c, rest, rfl, hc⟩ := hquote
    have hbackslash := backslash_ne_of_isQuote hc
    cases htake : takeQuoted c rest with
    | none => exact absurd (.here hc ((takeQuoted_eq_none_iff hbackslash).1 htake)) (h c)
    | some p =>
        have hshort : p.2.length < rest.length := length_takeQuoted htake
        obtain ⟨body, hbody, hrest⟩ := exists_body hbackslash htake
        obtain ⟨ms, hms⟩ := exists_reads p.2 fun quote hopen => h quote <| by
          rw [hrest]
          exact .literal hc hbody hopen
        rw [hrest]
        exact ⟨_, .literal hc hbody hms⟩
  rcases text_cases cs with rfl | ⟨rest, rfl, hname⟩ | ⟨rest, rfl⟩ | ⟨c, rest, rfl, hplain⟩
  · exact ⟨[], .nil⟩
  · have hword := isWord_takeWhile hname
    have hparts : rest.takeWhile isWordChar ++ rest.dropWhile isWordChar = rest :=
      List.takeWhile_append_dropWhile
    obtain ⟨ms, hms⟩ := exists_reads (rest.dropWhile isWordChar) fun quote hopen => h quote <| by
      rw [← hparts, ← List.cons_append]
      exact leavesOpen_append (isQuote_of_isWord hword) hopen
    refine ⟨.name (String.ofList (rest.takeWhile isWordChar)) :: ms, ?_⟩
    have hreads := Reads.name hword head?_dropWhile hms
    rwa [hparts] at hreads
  · obtain ⟨ms, hms⟩ := exists_reads rest fun quote hopen => h quote (.char (by decide) hopen)
    exact ⟨_, .position hms⟩
  · have hc : ¬ isQuote c := fun hc => hquote ⟨c, rest, rfl, hc⟩
    obtain ⟨ms, hms⟩ := exists_reads rest fun quote hopen => h quote (.char hc hopen)
    exact ⟨_, .char hc hplain hms⟩
termination_by cs.length
decreasing_by
  all_goals subst cs
  · exact Nat.lt_succ_of_lt hshort
  · exact Nat.lt_succ_of_le (length_dropWhile_le isWordChar rest)
  · exact Nat.lt_succ_self _
  · exact Nat.lt_succ_self _

/-- A text is read in one way only. -/
theorem Reads.unique {ms' : List Mark} (h : Reads cs ms) (h' : Reads cs ms') : ms = ms' := by
  induction h generalizing ms' with
  | nil =>
      cases h'
      rfl
  | @literal quote body content rest ms hquote hbody _ ih =>
      have hbackslash := backslash_ne_of_isQuote hquote
      have htake := takeQuoted_of_body hbackslash hbody rest
      -- the text is given a name, for the other reading may split it elsewhere
      generalize hcs : quote :: (body ++ quote :: rest) = cs at h'
      cases h' with
      | nil => cases hcs
      | literal _ hbody' hrest' =>
          obtain ⟨rfl, htail⟩ := List.cons.inj hcs
          rw [htail, takeQuoted_of_body hbackslash hbody'] at htake
          cases htake
          rw [ih hrest']
      | position =>
          rw [(List.cons.inj hcs).1] at hquote
          cases hquote
      | name =>
          rw [(List.cons.inj hcs).1] at hquote
          cases hquote
      | char hc =>
          rw [(List.cons.inj hcs).1] at hquote
          exact absurd hquote hc
  | position _ ih =>
      cases h' with
      | literal hquote => cases hquote
      | position hrest' => rw [ih hrest']
      | char _ hc => exact absurd rfl hc.1
  | @name w rest ms hw hend _ ih =>
      generalize hcs : ':' :: (w ++ rest) = cs at h'
      cases h' with
      | nil => cases hcs
      | literal hquote =>
          rw [← (List.cons.inj hcs).1] at hquote
          cases hquote
      | position => exact absurd (List.cons.inj hcs).1 (by decide)
      | @name w' rest' ms' hw' hend' hrest' =>
          have htail := (List.cons.inj hcs).2
          have hname : w = w' := by
            rw [← takeWhile_run hw.all hend, htail, takeWhile_run hw'.all hend']
          subst hname
          rw [List.append_cancel_left htail] at ih
          rw [ih hrest']
      | char _ hc =>
          obtain ⟨rfl, rfl⟩ := List.cons.inj hcs
          exact absurd (startsName_of_isWord hw rest) (hc.2 rfl)
  | char hquote hc _ ih =>
      cases h' with
      | literal hquote' => exact absurd hquote' hquote
      | position => exact absurd rfl hc.1
      | name hw => exact absurd (startsName_of_isWord hw _) (hc.2 rfl)
      | char _ _ hrest' => rw [ih hrest']

theorem existsUnique_reads_iff : (∃! ms, Reads cs ms) ↔ ∀ quote, ¬ LeavesOpen quote cs := by
  constructor
  · rintro ⟨ms, hms, -⟩
    exact hms.not_leavesOpen
  · intro h
    obtain ⟨ms, hms⟩ := exists_reads cs h
    exact ⟨ms, hms, fun ms' hms' => hms'.unique hms⟩

end Literals

/-! ### The placeholders -/

namespace Mark

/-- What comes of a placeholder among the values: an error if it has none, else its value before the rest. -/
def supplied (err : QueryError) (value : Option Value) (rest : Except QueryError (List Value)) :
    Except QueryError (List Value) :=
  match value with
  | none => .error err
  | some v => rest.map (v :: ·)

/-- The values that fill the placeholders, if every one of them has a value and no positional value of
`left` is left over. -/
def fill (subs : Option Substitutions) (given : Nat) :
    List Value → List Mark → Except QueryError (List Value)
  | left, [] => if left.isEmpty then .ok [] else .error (.unusedPositions left.length)
  | left, .char _ :: ms => fill subs given left ms
  | left, .literal _ :: ms => fill subs given left ms
  | left, .position :: ms => supplied (.unresolvedPosition given) left.head? (fill subs given left.tail ms)
  | left, .name n :: ms =>
    supplied (.unresolvedName n) (Substitutions.byName? subs n) (fill subs given left ms)

end Mark

section Placeholders

variable {cs : List Char} {ms : List Mark}

theorem filled_map (count : Nat) (err : QueryError) (value : Option Value)
    (rest : Except QueryError (List Value)) (text : List Char) :
    filled count err value (rest.map fun vs => (text, vs)) =
      (Mark.supplied err value rest).map fun vs => (label (count + 1) ++ text, vs) := by
  cases value with
  | none => rfl
  | some v => cases rest <;> rfl

theorem head?_unquoted (h : Reads cs ms) (hfirst : ∀ m ∈ ms.head?, m.literal? = none) (literals : Nat) :
    (Mark.unquoted literals ms).head? = cs.head? := by
  cases h with
  | nil => rfl
  | literal => exact absurd (hfirst _ rfl) (Option.some_ne_none _)
  | position => rfl
  | name => rfl
  | char => rfl

/-- Taking out the placeholders, when the literals have left their labels, is told by the marks. -/
theorem replacePlaceholders_unquoted (h : Reads cs ms) (hapart : Mark.Apart ms)
    (subs : Option Substitutions) (given literals count : Nat) (left : List Value) :
    replacePlaceholders subs given count left (Mark.unquoted literals ms) =
      (Mark.fill subs given left ms).map fun vs => (Mark.labelled literals count ms, vs) := by
  induction h generalizing literals count left with
  | nil =>
      rw [Mark.unquoted, replacePlaceholders_nil, Mark.fill]
      split <;> rfl
  | literal _ _ _ ih =>
      obtain ⟨-, hrest⟩ := List.isChain_cons.1 hapart
      have hlabel : ∀ c ∈ label (literals + 1), Plain c := fun c hc =>
        plain_of_isWordChar ((isWord_label _).all c hc)
      rw [Mark.unquoted, replacePlaceholders_of_plain hlabel, ih hrest, Mark.fill]
      cases Mark.fill subs given left _ <;> rfl
  | position _ ih =>
      obtain ⟨-, hrest⟩ := List.isChain_cons.1 hapart
      rw [Mark.unquoted, replacePlaceholders_position, ih hrest, filled_map, Mark.fill, Mark.labelled]
  | @name w rest ms hw hend hreads ih =>
      obtain ⟨hfirst, hrest⟩ := List.isChain_cons.1 hapart
      have hhead := head?_unquoted hreads (fun m hm => hfirst m hm (Or.inr rfl)) literals
      have hword : IsWord (String.ofList w).toList := by rwa [String.toList_ofList]
      rw [Mark.unquoted, replacePlaceholders_word hword (by rwa [hhead]), ih hrest, filled_map, Mark.fill,
        Mark.labelled]
  | @char c rest ms _ hc hreads ih =>
      obtain ⟨hfirst, hrest⟩ := List.isChain_cons.1 hapart
      -- behind a colon, the label of a literal would be taken for a name
      have hmark : Unmarked c (Mark.unquoted literals ms) := by
        refine ⟨hc.1, fun hcolon => ?_⟩
        rw [startsName, head?_unquoted hreads (fun m hm => hfirst m hm (Or.inl (congrArg _ hcolon))) literals]
        exact hc.2 hcolon
      rw [Mark.unquoted, replacePlaceholders_plain _ _ _ hmark, ih hrest, Mark.fill, Mark.labelled]
      cases Mark.fill subs given left ms <;> rfl

theorem Extraction.ofText_reads {input : String} (h : Reads input.toList ms) (hapart : Mark.Apart ms)
    (subs : Option Substitutions) :
    Extraction.ofText input subs =
      (Mark.fill subs (Substitutions.positions subs).length (Substitutions.positions subs) ms).map fun vs =>
        ⟨Mark.labelled 0 (Mark.literals ms).length ms, Mark.literals ms ++ vs⟩ := by
  rw [Extraction.ofText, replaceQuoted_reads h, ok_bind]
  dsimp only
  rw [replacePlaceholders_unquoted h hapart]
  cases Mark.fill subs (Substitutions.positions subs).length (Substitutions.positions subs) ms <;> rfl

end Placeholders

/-! ### Counting -/

/-- A placeholder has no value. -/
inductive QueryError.IsUnresolved : QueryError → Prop
  | name (name : String) : IsUnresolved (.unresolvedName name)
  | position (given : Nat) : IsUnresolved (.unresolvedPosition given)

namespace Mark

section Fill

variable (subs : Option Substitutions) (given : Nat) {left : List Value} {ms : List Mark}

theorem supplied_unresolved {err : QueryError} (herr : err.IsUnresolved) {value : Option Value}
    {rest : Except QueryError (List Value)}
    (h : value.isSome → ∃ err, rest = .error err ∧ err.IsUnresolved) :
    ∃ err', supplied err value rest = .error err' ∧ err'.IsUnresolved := by
  cases value with
  | none => exact ⟨err, rfl, herr⟩
  | some v =>
      obtain ⟨err', rfl, herr'⟩ := h rfl
      exact ⟨err', rfl, herr'⟩

/-- A placeholder has no value if there are too few positional values or if a name is not bound. -/
theorem fill_unresolved
    (h : ¬ (positions ms ≤ left.length ∧ ∀ n ∈ names ms, (Substitutions.byName? subs n).isSome)) :
    ∃ err, fill subs given left ms = .error err ∧ err.IsUnresolved := by
  induction ms generalizing left with
  | nil => exact absurd ⟨Nat.zero_le _, fun n hn => absurd hn List.not_mem_nil⟩ h
  | cons m ms ih =>
      cases m with
      | char c => exact ih h
      | literal content => exact ih h
      | position =>
          rw [fill]
          refine supplied_unresolved (.position given) fun hsome => ih fun hrest => h ⟨?_, hrest.2⟩
          cases left with
          | nil => cases hsome
          | cons v left => exact Nat.succ_le_succ hrest.1
      | name n =>
          rw [fill]
          refine supplied_unresolved (.name n) fun hsome => ih fun hrest => h ⟨hrest.1, ?_⟩
          exact List.forall_mem_cons.2 ⟨hsome, hrest.2⟩

/-- Without names, the placeholders take the positional values in their order. -/
theorem fill_positions (hnames : names ms = []) {used : List Value} (hused : used.length = positions ms)
    (back : List Value) : fill subs given (used ++ back) ms =
      if back.isEmpty then .ok used else .error (.unusedPositions back.length) := by
  induction ms generalizing used with
  | nil =>
      obtain rfl := List.length_eq_zero_iff.1 hused
      rfl
  | cons m ms ih =>
      cases m with
      | char c => exact ih hnames hused
      | literal content => exact ih hnames hused
      | position =>
          obtain ⟨v, used, rfl⟩ := List.exists_cons_of_length_eq_add_one hused
          rw [fill, List.cons_append, List.head?_cons, List.tail_cons, ih hnames (Nat.succ.inj hused)]
          split <;> rfl
      | name n => cases hnames

/-- Without positional values, the placeholders take the values of their names. -/
theorem fill_names (hpositions : positions ms = 0)
    (hnames : ∀ n ∈ names ms, (Substitutions.byName? subs n).isSome) :
    ∃ vs, fill subs given [] ms = .ok vs ∧ (names ms).map (Substitutions.byName? subs) = vs.map some := by
  induction ms with
  | nil => exact ⟨[], rfl, rfl⟩
  | cons m ms ih =>
      cases m with
      | char c => exact ih hpositions hnames
      | literal content => exact ih hpositions hnames
      | position => cases hpositions
      | name n =>
          obtain ⟨hn, hrest⟩ := List.forall_mem_cons.1 hnames
          obtain ⟨v, hv⟩ := Option.isSome_iff_exists.1 hn
          obtain ⟨vs, hvs, hvalues⟩ := ih hpositions hrest
          refine ⟨v :: vs, ?_, ?_⟩
          · rw [fill, hvs, hv]
            rfl
          · exact List.cons_eq_cons.2 ⟨hv, hvalues⟩

end Fill

end Mark

/-! ### The outcome of an extraction -/

theorem replacePlaceholders_congr {a b : Option Substitutions}
    (h : Substitutions.byName? a = Substitutions.byName? b) (given count : Nat) (left : List Value)
    (cs : List Char) :
    replacePlaceholders a given count left cs = replacePlaceholders b given count left cs := by
  induction cs using placeholder_induction generalizing count left with
  | nil => rw [replacePlaceholders_nil, replacePlaceholders_nil]
  | name cs hname ih =>
      rw [replacePlaceholders_name _ _ _ hname, replacePlaceholders_name _ _ _ hname, h, ih]
  | position cs ih => rw [replacePlaceholders_position, replacePlaceholders_position, ih]
  | plain c cs hplain ih =>
      rw [replacePlaceholders_plain _ _ _ hplain, replacePlaceholders_plain _ _ _ hplain, ih]

namespace Extraction

theorem ofText_congr {a b : Option Substitutions} (hnames : Substitutions.byName? a = Substitutions.byName? b)
    (hpositions : Substitutions.positions a = Substitutions.positions b) (input : String) :
    ofText input a = ofText input b := by
  have hplaceholders : replacePlaceholders a = replacePlaceholders b := by
    funext given count left cs
    exact replacePlaceholders_congr hnames given count left cs
  rw [ofText, ofText, hplaceholders, hpositions]

/-- The extraction has a label for every literal, and then one for every placeholder from left to right. -/
structure LabelledAs (e : Extraction) (ms : List Mark) (fillings : List Value) : Prop where
  text : e.text = Mark.labelled 0 (Mark.literals ms).length ms
  values : e.values = Mark.literals ms ++ fillings
  resolve : ∀ i v, (Mark.literals ms ++ fillings)[i]? = some v →
    e.resolve? (String.ofList (label (i + 1))) = some v

/-- How the values that are given to a text with these marks are accounted for. -/
structure Accounted (input : String) (ms : List Mark) : Prop where
  positional_ok_iff : ∀ values, (∃ e, ofText input (some (.positional values)) = .ok e) ↔
    Mark.names ms = [] ∧ Mark.positions ms = values.length
  positional_unused_iff : ∀ values k,
    ofText input (some (.positional values)) = .error (.unusedPositions k) ↔
      Mark.names ms = [] ∧ Mark.positions ms < values.length ∧ k = values.length - Mark.positions ms
  positional_unresolved : ∀ values, ¬ (Mark.names ms = [] ∧ Mark.positions ms ≤ values.length) →
    ∃ err, ofText input (some (.positional values)) = .error err ∧ err.IsUnresolved
  /-- Every positional value fills one placeholder, in their order. -/
  positional_labelled : ∀ values e, ofText input (some (.positional values)) = .ok e → e.LabelledAs ms values
  named_ok_iff : ∀ values, (∃ e, ofText input (some (.named values)) = .ok e) ↔
    Mark.positions ms = 0 ∧ ∀ n ∈ Mark.names ms, values.contains n
  named_unresolved : ∀ values, ¬ (Mark.positions ms = 0 ∧ ∀ n ∈ Mark.names ms, values.contains n) →
    ∃ err, ofText input (some (.named values)) = .error err ∧ err.IsUnresolved
  /-- Every name is bound to the value of its own key. -/
  named_labelled : ∀ values e, ofText input (some (.named values)) = .ok e →
    ∃ vs, (Mark.names ms).map values.get? = vs.map some ∧ e.LabelledAs ms vs

section Accounts

variable {input : String} {ms : List Mark}

theorem labelledAs_mk (ms : List Mark) (fillings : List Value) :
    LabelledAs ⟨Mark.labelled 0 (Mark.literals ms).length ms, Mark.literals ms ++ fillings⟩ ms fillings :=
  ⟨rfl, rfl, fun _ _ h => resolve?_label h⟩

theorem positional_cases (h : Reads input.toList ms) (hapart : Mark.Apart ms) (values : List Value) :
    (Mark.names ms = [] ∧ Mark.positions ms = values.length ∧
      ∃ e, ofText input (some (.positional values)) = .ok e ∧ e.LabelledAs ms values) ∨
    (Mark.names ms = [] ∧ Mark.positions ms < values.length ∧
      ofText input (some (.positional values)) =
        .error (.unusedPositions (values.length - Mark.positions ms))) ∨
    (¬ (Mark.names ms = [] ∧ Mark.positions ms ≤ values.length) ∧
      ∃ err, ofText input (some (.positional values)) = .error err ∧ err.IsUnresolved) := by
  rw [ofText_reads h hapart, Substitutions.positions]
  by_cases henough : Mark.names ms = [] ∧ Mark.positions ms ≤ values.length
  · obtain ⟨hnames, hle⟩ := henough
    have hused : (values.take (Mark.positions ms)).length = Mark.positions ms := List.length_take_of_le hle
    have hfill := Mark.fill_positions (some (.positional values)) values.length hnames hused
      (values.drop (Mark.positions ms))
    rw [List.take_append_drop] at hfill
    rcases hle.eq_or_lt with heq | hlt
    · rw [List.drop_of_length_le heq.ge, List.isEmpty_nil, if_pos rfl, List.take_of_length_le heq.ge] at hfill
      rw [hfill]
      exact Or.inl ⟨hnames, heq, _, rfl, labelledAs_mk ms values⟩
    · have hleft : (values.drop (Mark.positions ms)).isEmpty = false := by simpa using hlt
      rw [hleft, if_neg Bool.false_ne_true, List.length_drop] at hfill
      rw [hfill]
      exact Or.inr (Or.inl ⟨hnames, hlt, rfl⟩)
  · have hunbound : ¬ (Mark.positions ms ≤ values.length ∧
        ∀ n ∈ Mark.names ms, (Substitutions.byName? (some (.positional values)) n).isSome) := by
      rintro ⟨hle, hbound⟩
      refine henough ⟨List.eq_nil_iff_forall_not_mem.2 fun n hn => ?_, hle⟩
      exact Bool.false_ne_true (hbound n hn)
    obtain ⟨err, hfill, herr⟩ := Mark.fill_unresolved _ values.length hunbound
    rw [hfill]
    exact Or.inr (Or.inr ⟨henough, err, rfl, herr⟩)

theorem named_cases (h : Reads input.toList ms) (hapart : Mark.Apart ms) (values : Dict Value) :
    (Mark.positions ms = 0 ∧ (∀ n ∈ Mark.names ms, values.contains n) ∧
      ∃ e vs, ofText input (some (.named values)) = .ok e ∧
        (Mark.names ms).map values.get? = vs.map some ∧ e.LabelledAs ms vs) ∨
    (¬ (Mark.positions ms = 0 ∧ ∀ n ∈ Mark.names ms, values.contains n) ∧
      ∃ err, ofText input (some (.named values)) = .error err ∧ err.IsUnresolved) := by
  have houtcome := ofText_reads h hapart (some (.named values))
  have hpositions : Substitutions.positions (some (.named values)) = [] := rfl
  rw [hpositions] at houtcome
  rw [houtcome]
  by_cases hbound : Mark.positions ms = 0 ∧ ∀ n ∈ Mark.names ms, values.contains n
  · obtain ⟨hnone, hnames⟩ := hbound
    obtain ⟨vs, hfill, hvalues⟩ := Mark.fill_names (some (.named values)) 0 hnone hnames
    rw [List.length_nil, hfill]
    exact Or.inl ⟨hnone, hnames, _, vs, rfl, hvalues, labelledAs_mk ms vs⟩
  · have hunbound : ¬ (Mark.positions ms ≤ ([] : List Value).length ∧
        ∀ n ∈ Mark.names ms, (Substitutions.byName? (some (.named values)) n).isSome) :=
      fun hall => hbound ⟨Nat.le_zero.1 hall.1, hall.2⟩
    obtain ⟨err, hfill, herr⟩ := Mark.fill_unresolved (some (.named values)) 0 hunbound
    rw [List.length_nil, hfill]
    exact Or.inr ⟨hbound, err, rfl, herr⟩

theorem accounted (h : Reads input.toList ms) (hapart : Mark.Apart ms) : Accounted input ms where
  positional_ok_iff values := by
    rcases positional_cases h hapart values with
      ⟨hnames, heq, e, he, -⟩ | ⟨hnames, hlt, herr⟩ | ⟨hnot, err, herr, -⟩
    · exact iff_of_true ⟨e, he⟩ ⟨hnames, heq⟩
    · exact iff_of_false (by simp [herr]) fun hall => hlt.ne hall.2
    · exact iff_of_false (by simp [herr]) fun hall => hnot ⟨hall.1, hall.2.le⟩
  positional_unused_iff values k := by
    rcases positional_cases h hapart values with
      ⟨hnames, heq, e, he, -⟩ | ⟨hnames, hlt, herr⟩ | ⟨hnot, err, herr, hunresolved⟩
    · exact iff_of_false (by simp [he]) fun hall => hall.2.1.ne heq
    · rw [herr, Except.error.injEq, QueryError.unusedPositions.injEq, and_iff_right hnames, and_iff_right hlt,
        eq_comm]
    · refine iff_of_false ?_ fun hall => hnot ⟨hall.1, hall.2.1.le⟩
      rw [herr]
      rintro ⟨⟩
      cases hunresolved
  positional_unresolved values hnot := by
    rcases positional_cases h hapart values with
      ⟨hnames, heq, -⟩ | ⟨hnames, hlt, -⟩ | ⟨-, hunresolved⟩
    · exact absurd ⟨hnames, heq.le⟩ hnot
    · exact absurd ⟨hnames, hlt.le⟩ hnot
    · exact hunresolved
  positional_labelled values e he := by
    rcases positional_cases h hapart values with
      ⟨-, -, e', he', hlabelled⟩ | ⟨-, -, herr⟩ | ⟨-, err, herr, -⟩
    · cases he'.symm.trans he
      exact hlabelled
    · cases herr.symm.trans he
    · cases herr.symm.trans he
  named_ok_iff values := by
    rcases named_cases h hapart values with ⟨hnone, hnames, e, vs, he, -⟩ | ⟨hnot, err, herr, -⟩
    · exact iff_of_true ⟨e, he⟩ ⟨hnone, hnames⟩
    · exact iff_of_false (by simp [herr]) hnot
  named_unresolved values hnot := by
    rcases named_cases h hapart values with ⟨hnone, hnames, -⟩ | ⟨-, hunresolved⟩
    · exact absurd ⟨hnone, hnames⟩ hnot
    · exact hunresolved
  named_labelled values e he := by
    rcases named_cases h hapart values with ⟨-, -, e', vs, he', hvalues, hlabelled⟩ | ⟨-, err, herr, -⟩
    · cases he'.symm.trans he
      exact ⟨vs, hvalues, hlabelled⟩
    · cases herr.symm.trans he

end Accounts

/-- **Substitutions are accounted for exactly.** Exactly the texts whose quotes are all closed are read as
marks, each in one way. Without any values it does not matter how none are given. If no quoted text directly
follows a colon or the name of a placeholder, the marks tell whether the values are right for the
placeholders, what is wrong otherwise, and which label stands for which value. -/
theorem substitutions_accounted :
    (∀ cs, (∃! ms, Reads cs ms) ↔ ∀ quote, ¬ LeavesOpen quote cs) ∧
    (∀ input, ofText input (some (.positional [])) = ofText input none ∧
      ofText input (some (.named ∅)) = ofText input none) ∧
    ∀ (input : String) (ms : List Mark), Reads input.toList ms → Mark.Apart ms → Accounted input ms := by
  have hpositional : Substitutions.byName? (some (.positional [])) = Substitutions.byName? none := rfl
  have hnamed : Substitutions.byName? (some (.named ∅)) = Substitutions.byName? none :=
    funext fun n => Dict.get?_empty n
  exact ⟨fun cs => existsUnique_reads_iff,
    fun input => ⟨ofText_congr hpositional rfl input, ofText_congr hnamed rfl input⟩,
    fun input ms => accounted⟩

/-- A quoted text between two placeholders, with two values, with three and with one. -/
theorem substitutions_accounted_positions :
    let input := "?'?' ?"
    let ms : List Mark := [.position, .literal "?", .char ' ', .position]
    Reads input.toList ms ∧ Mark.Apart ms ∧
      (∃ e, ofText input (some (.positional [.int 1, .text "x"])) = .ok e ∧
        String.ofList e.text = "_LIT2__LIT1_ _LIT3_" ∧ e.values = [.text "?", .int 1, .text "x"]) ∧
      ofText input (some (.positional [.int 1, .int 2, .int 3])) = .error (.unusedPositions 1) ∧
      ∃ err, ofText input (some (.positional [.int 1])) = .error err ∧ err.IsUnresolved := by
  intro input ms
  have hbody : Body '\'' ['?'] ['?'] := .char (by decide) nofun .nil
  have hspace : Unmarked ' ' ['?'] := ⟨by decide, nofun⟩
  have hchars : input.toList = ['?', '\'', '?', '\'', ' ', '?'] := by decide +kernel
  have hreads : Reads input.toList ms := by
    rw [hchars]
    exact .position (.literal rfl hbody (.char (by decide) hspace (.position .nil)))
  have hapart : Mark.Apart ms := by simp [ms, Mark.Apart, Mark.joins, Mark.name?, Mark.literal?]
  obtain ⟨-, -, haccounted⟩ := substitutions_accounted
  have haccounts := haccounted input ms hreads hapart
  obtain ⟨e, he⟩ := (haccounts.positional_ok_iff [.int 1, .text "x"]).2 ⟨rfl, rfl⟩
  have hlabelled := haccounts.positional_labelled _ e he
  refine ⟨hreads, hapart, ⟨e, he, ?_, hlabelled.values⟩, ?_, ?_⟩
  · rw [hlabelled.text]
    decide +kernel
  · exact (haccounts.positional_unused_iff _ 1).2 ⟨rfl, by decide, rfl⟩
  · exact haccounts.positional_unresolved _ fun hall => absurd hall.2 (by decide)

end Extraction

end TableQuery
