import TableQuery.Proofs.Statement.Layout

/-! Taking the literals and then the placeholders out of a command that is laid out: each leaves a
label, and the command is laid out as before. -/

namespace TableQuery

open Text Token

/-- How a value is written once those that are taken out have left labels; `values` are the values of
the labels. -/
inductive Labelled (taken : Supplied → Bool) (values : List Value) : Supplied → List Char → Prop
  | label {x : Supplied} {k : Nat} (htaken : taken x) (h : values[k]? = some x.value) :
      Labelled taken values x (label (k + 1))
  | kept {x : Supplied} {w : List Char} (htaken : taken x = false) (h : Written x w) :
      Labelled taken values x w

namespace Supplied

/-- The values of the quoted texts. -/
def literals (xs : List Supplied) : List Value := xs.filterMap literal?

/-- The values of the placeholders. -/
def fillings (xs : List Supplied) : List Value := xs.filterMap filling?

/-- The values of the placeholders without a name. -/
def positions (xs : List Supplied) : List Value := xs.filterMap position?

end Supplied

theorem prefix_drop_cons {values vs : List Value} {v : Value} {count : Nat}
    (h : v :: vs <+: values.drop count) :
    values[count]? = some v ∧ vs <+: values.drop (count + 1) := by
  obtain ⟨rest, hrest⟩ := h
  rw [List.cons_append] at hrest
  constructor
  · rw [← List.head?_drop, ← hrest]
    rfl
  · rw [← List.tail_drop, ← hrest]
    exact ⟨rest, rfl⟩

/-! ### Quoted texts -/

theorem parted_of_replaceQuoted {count : Nat} {cs after : List Char} {values : List Value}
    (h : replaceQuoted count cs = .ok (after, values)) (hcs : Parted cs) : Parted after := by
  cases cs with
  | nil =>
      rw [replaceQuoted_nil] at h
      cases h
      exact hcs
  | cons c cs =>
      have hblank : isBlank c := hcs c rfl
      have hquote : ¬ isQuote c := by simp [(plain_of_isBlank hblank).1]
      rw [replaceQuoted_plain hquote] at h
      obtain ⟨p, -, hp⟩ := map_eq_ok_iff.1 h
      cases hp
      rintro d hd
      cases hd
      exact hblank

theorem replaceQuoted_layout {symbols : List (Symbol Supplied)} {cs : List Char}
    (h : Layout Written symbols cs) (hnames : NamesIn symbols) {values : List Value} {count : Nat}
    (hvalues : Supplied.literals (valuesIn symbols) <+: values.drop count) :
    ∃ after, replaceQuoted count cs = .ok (after, Supplied.literals (valuesIn symbols)) ∧
      Layout (Labelled Supplied.isLiteral values) symbols after := by
  induction h generalizing count with
  | @nil bs hbs =>
      refine ⟨bs, ?_, .nil hbs⟩
      have hplain := replaceQuoted_of_plain (fun c hc => (plain_of_isBlank (hbs c hc)).1) count []
      rw [List.append_nil, replaceQuoted_nil] at hplain
      rw [hplain, Except.map, List.append_nil]
      rfl
  | @sign t symbols bs w cs hbs hw hcs rest ih =>
      obtain ⟨after, hafter, hlayout⟩ := ih hnames.tail hvalues
      have hplain := plain_of_spells hw fun name hname => hnames name (hname ▸ List.mem_cons_self)
      refine ⟨bs ++ (w ++ after), ?_, .sign hbs hw (parted_of_replaceQuoted hafter hcs) hlayout⟩
      rw [replaceQuoted_of_plain fun c hc => (plain_of_isBlank (hbs c hc)).1,
        replaceQuoted_of_plain fun c hc => (hplain c hc).1, hafter]
      rfl
  | @value x symbols bs w cs hbs hw hcs rest ih =>
      rw [replaceQuoted_of_plain fun c hc => (plain_of_isBlank (hbs c hc)).1]
      cases hx : x.isLiteral with
      | false =>
          have hliterals : Supplied.literals (valuesIn (.value x :: symbols)) =
              Supplied.literals (valuesIn symbols) := by
            rw [valuesIn_value, Supplied.literals, List.filterMap_cons_none (by simpa [Supplied.isLiteral] using hx)]
            rfl
          rw [hliterals] at hvalues ⊢
          obtain ⟨after, hafter, hlayout⟩ := ih hnames.tail hvalues
          refine ⟨bs ++ (w ++ after), ?_,
            .value hbs (.kept hx hw) (parted_of_replaceQuoted hafter hcs) hlayout⟩
          rw [replaceQuoted_of_plain (isQuote_of_written hw hx), hafter]
          rfl
      | true =>
          cases hw with
          | @text quote hquote s =>
              obtain ⟨hvalue, hvalues⟩ := prefix_drop_cons hvalues
              obtain ⟨after, hafter, hlayout⟩ := ih hnames.tail hvalues
              refine ⟨bs ++ (label (count + 1) ++ after), ?_,
                .value hbs (.label hx hvalue) (parted_of_replaceQuoted hafter hcs) hlayout⟩
              have hcontent : takeQuoted quote (escaped quote s.toList ++ [quote] ++ cs) =
                  some (s.toList, cs) := by
                rw [List.append_assoc]
                exact takeQuoted_escaped hquote s.toList cs
              rw [List.cons_append, replaceQuoted_quote hquote hcontent, hafter, String.ofList_toList]
              rfl
          | _ => cases hx

/-! ### Placeholders -/

theorem parted_of_replacePlaceholders {subs : Option Substitutions} {given count : Nat}
    {left values : List Value} {cs after : List Char}
    (h : replacePlaceholders subs given count left cs = .ok (after, values)) (hcs : Parted cs) :
    Parted after := by
  cases cs with
  | nil =>
      rw [replacePlaceholders_nil] at h
      split at h
      · cases h
        exact hcs
      · cases h
  | cons c cs =>
      have hblank : isBlank c := hcs c rfl
      obtain ⟨-, hposition, hcolon⟩ := plain_of_isBlank hblank
      have hunmarked : Unmarked c cs := ⟨hposition, fun heq => absurd heq hcolon⟩
      rw [replacePlaceholders_plain _ _ _ hunmarked] at h
      obtain ⟨p, -, hp⟩ := map_eq_ok_iff.1 h
      cases hp
      rintro d hd
      cases hd
      exact hblank

/-- What is no placeholder stays as it is. -/
theorem plain_of_labelled {values : List Value} {x : Supplied} {w : List Char}
    (h : Labelled Supplied.isLiteral values x w) (hx : x.filling? = none) :
    (∀ c ∈ w, Plain c) ∧ Labelled Supplied.isTaken values x w := by
  cases h with
  | @label k htaken hvalue =>
      refine ⟨fun c hc => plain_of_isWordChar ((isWord_label (k + 1)).all c hc), .label ?_ hvalue⟩
      rw [Supplied.isTaken, ← Supplied.isLiteral, htaken, Bool.true_or]
  | kept htaken hwritten =>
      have htaken' : x.isTaken = false := by
        rw [Supplied.isTaken, ← Supplied.isLiteral, htaken, hx]
        rfl
      exact ⟨plain_of_written hwritten htaken', .kept htaken' hwritten⟩

theorem positions_of_filling?_none {x : Supplied} (hx : x.filling? = none) (xs : List Supplied) :
    Supplied.fillings (x :: xs) = Supplied.fillings xs ∧
      Supplied.positions (x :: xs) = Supplied.positions xs := by
  cases x with
  | position v => cases hx
  | named name v => cases hx
  | _ => exact ⟨rfl, rfl⟩

theorem isLiteral_of_filling? {x : Supplied} {v : Value} (h : x.filling? = some v) :
    x.isLiteral = false := by
  cases x with
  | text => cases h
  | _ => rfl

theorem replacePlaceholders_layout {symbols : List (Symbol Supplied)} {cs : List Char}
    {values : List Value} (h : Layout (Labelled Supplied.isLiteral values) symbols cs)
    (hnames : NamesIn symbols) {subs : Option Substitutions}
    (hnamed : ∀ name v, .named name v ∈ valuesIn symbols → Substitutions.byName? subs name = some v)
    (given : Nat) {count : Nat}
    (hvalues : Supplied.fillings (valuesIn symbols) <+: values.drop count) :
    ∃ after, replacePlaceholders subs given count (Supplied.positions (valuesIn symbols)) cs =
        .ok (after, Supplied.fillings (valuesIn symbols)) ∧
      Layout (Labelled Supplied.isTaken values) symbols after := by
  induction h generalizing count with
  | @nil bs hbs =>
      refine ⟨bs, ?_, .nil hbs⟩
      have hplain := replacePlaceholders_of_plain (fun c hc => plain_of_isBlank (hbs c hc)) subs given
        count [] []
      rw [List.append_nil, replacePlaceholders_nil] at hplain
      refine hplain.trans ?_
      rw [List.isEmpty_nil, if_pos rfl, Except.map, List.append_nil]
      rfl
  | @sign t symbols bs w cs hbs hw hcs rest ih =>
      obtain ⟨after, hafter, hlayout⟩ := ih hnames.tail hnamed hvalues
      have hplain := plain_of_spells hw fun name hname => hnames name (hname ▸ List.mem_cons_self)
      refine ⟨bs ++ (w ++ after), ?_,
        .sign hbs hw (parted_of_replacePlaceholders hafter hcs) hlayout⟩
      rw [replacePlaceholders_of_plain fun c hc => plain_of_isBlank (hbs c hc),
        replacePlaceholders_of_plain hplain, valuesIn_sign, hafter]
      rfl
  | @value x symbols bs w cs hbs hw hcs rest ih =>
      have hnamed' : ∀ name v, .named name v ∈ valuesIn symbols →
          Substitutions.byName? subs name = some v := fun name v hmem =>
        hnamed name v (List.mem_cons_of_mem _ hmem)
      rw [replacePlaceholders_of_plain fun c hc => plain_of_isBlank (hbs c hc)]
      cases hx : x.filling? with
      | none =>
          obtain ⟨hplain, hlabelled⟩ := plain_of_labelled hw hx
          obtain ⟨hfillings, hpositions⟩ := positions_of_filling?_none hx (valuesIn symbols)
          rw [valuesIn_value, hfillings] at hvalues ⊢
          rw [hpositions]
          obtain ⟨after, hafter, hlayout⟩ := ih hnames.tail hnamed' hvalues
          refine ⟨bs ++ (w ++ after), ?_,
            .value hbs hlabelled (parted_of_replacePlaceholders hafter hcs) hlayout⟩
          rw [replacePlaceholders_of_plain hplain, hafter]
          rfl
      | some v =>
          cases hw with
          | label htaken =>
              rw [isLiteral_of_filling? hx] at htaken
              cases htaken
          | kept htaken hwritten =>
              cases hwritten with
              | position v =>
                  obtain ⟨hvalue, hvalues⟩ := prefix_drop_cons hvalues
                  obtain ⟨after, hafter, hlayout⟩ := ih hnames.tail hnamed' hvalues
                  refine ⟨bs ++ (label (count + 1) ++ after), ?_,
                    .value hbs (.label rfl hvalue) (parted_of_replacePlaceholders hafter hcs) hlayout⟩
                  have hleft : Supplied.positions (valuesIn (.value (.position v) :: symbols)) =
                      v :: Supplied.positions (valuesIn symbols) := rfl
                  rw [hleft, List.singleton_append, replacePlaceholders_position, List.head?_cons,
                    List.tail_cons, hafter]
                  rfl
              | @named name hname v =>
                  obtain ⟨hvalue, hvalues⟩ := prefix_drop_cons hvalues
                  obtain ⟨after, hafter, hlayout⟩ := ih hnames.tail hnamed' hvalues
                  refine ⟨bs ++ (label (count + 1) ++ after), ?_,
                    .value hbs (.label rfl hvalue) (parted_of_replacePlaceholders hafter hcs) hlayout⟩
                  have hleft : Supplied.positions (valuesIn (.value (.named name v) :: symbols)) =
                      Supplied.positions (valuesIn symbols) := rfl
                  rw [hleft, List.cons_append,
                    replacePlaceholders_word hname fun c hc => isWordChar_of_isBlank (hcs c hc),
                    hnamed name v List.mem_cons_self, hafter]
                  rfl
              | text => cases htaken
              | _ => cases hx

end TableQuery
