import TableQuery.Proofs.Literal.Steps

/-! Where values come from. The quoted texts and placeholders of a command, and how they are labelled,
can be told from the command and from which placeholders have a value; the values themselves play no
part in it. -/

namespace TableQuery

namespace Substitutions

/-- As many positional values, or values for the same names. -/
inductive SameShape : Substitutions → Substitutions → Prop
  | named {a b : Dict Value} (h : ∀ name, a.contains name = b.contains name) :
      SameShape (.named a) (.named b)
  | positional {a b : List Value} (h : a.length = b.length) : SameShape (.positional a) (.positional b)

variable {a b : Substitutions}

theorem SameShape.symm (h : SameShape a b) : SameShape b a := by
  cases h with
  | named h => exact .named fun name => (h name).symm
  | positional h => exact .positional h.symm

theorem SameShape.length_positions (h : SameShape a b) :
    (positions a).length = (positions b).length := by
  cases h with
  | named h => rfl
  | positional h => exact h

theorem SameShape.isSome_byName? (h : SameShape a b) (name : String) :
    (byName? a name).isSome = (byName? b name).isSome := by
  cases h with
  | named h => exact h name
  | positional h => rfl

end Substitutions

/-! ### The outcome without the values -/

/-- A text with labels, and the number of the values that they stand for. -/
def labelling (p : List Char × List Value) : List Char × Nat := (p.1, p.2.length)

theorem filled_some_labelling (count : Nat) (err : QueryError) (v : Value)
    (rest : Except QueryError (List Char × List Value)) :
    (filled count err (some v) rest).map labelling =
      (rest.map labelling).map fun q => (label (count + 1) ++ q.1, q.2 + 1) := by
  cases rest <;> rfl

theorem exists_of_filled {count : Nat} {err : QueryError} {value : Option Value}
    {rest : Except QueryError (List Char × List Value)} {text : List Char} {values : List Value}
    (h : filled count err value rest = .ok (text, values)) :
    ∃ v after vs, value = some v ∧ rest = .ok (after, vs) ∧ text = label (count + 1) ++ after ∧
      values = v :: vs := by
  cases value with
  | none => cases h
  | some v =>
      obtain ⟨⟨after, vs⟩, hrest, hp⟩ := map_eq_ok_iff.1 h
      cases hp
      exact ⟨v, after, vs, rfl, hrest, rfl, rfl⟩

theorem filled_labelling {count : Nat} {err : QueryError} {v w : Option Value}
    {r s : Except QueryError (List Char × List Value)} (hvalue : v.isSome = w.isSome)
    (hrest : r.map labelling = s.map labelling) :
    (filled count err v r).map labelling = (filled count err w s).map labelling := by
  cases v with
  | none =>
      cases w with
      | none => rfl
      | some w => cases hvalue
  | some v =>
      cases w with
      | none => cases hvalue
      | some w => rw [filled_some_labelling, filled_some_labelling, hrest]

theorem plain_labelling (c : Char) (rest : Except QueryError (List Char × List Value)) :
    (rest.map fun p => (c :: p.1, p.2)).map labelling =
      (rest.map labelling).map fun q => (c :: q.1, q.2) := by
  cases rest <;> rfl

theorem replacePlaceholders_labelling {a b : Substitutions} (h : a.SameShape b) (given count : Nat)
    {left right : List Value} (hlength : left.length = right.length) (cs : List Char) :
    (replacePlaceholders a given count left cs).map labelling =
      (replacePlaceholders b given count right cs).map labelling := by
  induction cs using placeholder_induction generalizing count left right with
  | nil =>
      have hempty : left.isEmpty = right.isEmpty := by
        cases left <;> cases right <;> simp at hlength ⊢
      rw [replacePlaceholders_nil, replacePlaceholders_nil, hempty, hlength]
  | name cs hname ih =>
      rw [replacePlaceholders_name _ _ _ hname, replacePlaceholders_name _ _ _ hname]
      exact filled_labelling (h.isSome_byName? _) (ih (count + 1) hlength)
  | position cs ih =>
      rw [replacePlaceholders_position, replacePlaceholders_position]
      have hhead : left.head?.isSome = right.head?.isSome := by
        cases left <;> cases right <;> simp at hlength ⊢
      have htail : left.tail.length = right.tail.length := by
        rw [List.length_tail, List.length_tail, hlength]
      exact filled_labelling hhead (ih (count + 1) htail)
  | plain c cs hplain ih =>
      rw [replacePlaceholders_plain _ _ _ hplain, replacePlaceholders_plain _ _ _ hplain,
        plain_labelling, plain_labelling, ih count hlength]

/-- The text of an extraction and the number of its labels. -/
def Extraction.labelling (e : Extraction) : List Char × Nat := (e.text, e.values.length)

theorem Extraction.labelling_of_literals (literals : List Value)
    (rest : Except QueryError (List Char × List Value)) :
    (rest >>= fun p => pure ⟨p.1, literals ++ p.2⟩ : Except QueryError Extraction).map labelling =
      (rest.map TableQuery.labelling).map fun q => (q.1, literals.length + q.2) := by
  cases rest with
  | error err => rfl
  | ok p =>
      have hlength : (literals ++ p.2).length = literals.length + p.2.length := List.length_append
      exact congrArg (fun n => Except.ok (p.1, n)) hlength

theorem Extraction.ofText_labelling {a b : Substitutions} (h : a.SameShape b) (text : String) :
    (Extraction.ofText text a).map labelling = (Extraction.ofText text b).map labelling := by
  rw [Extraction.ofText, Extraction.ofText]
  cases hquoted : replaceQuoted 0 text.toList with
  | error err => rfl
  | ok p =>
      obtain ⟨quoted, literals⟩ := p
      have hrest := replacePlaceholders_labelling h (Substitutions.positions b).length literals.length
        h.length_positions quoted
      simp only [ok_bind, Extraction.labelling_of_literals, h.length_positions, hrest]

/-! ### Sources -/

/-- Where a value comes from: the command itself, or what fills one of its placeholders. -/
inductive Source
  | fixed (v : Value)
  | named (name : String)
  | position (i : Nat)

/-- The value that the substitutions bind to a placeholder. -/
def Source.value? (subs : Substitutions) : Source → Option Value
  | .fixed v => some v
  | .named name => Substitutions.byName? subs name
  | .position i => (Substitutions.positions subs)[i]?

/-- The placeholders of a text from left to right, `used` positional ones standing before it. -/
def placeholders (used : Nat) : List Char → List Source
  | [] => []
  | ':' :: cs =>
    if startsName cs then .named (nameAt cs) :: placeholders used (cs.dropWhile Text.isWordChar)
    else placeholders used cs
  | '?' :: cs => .position used :: placeholders (used + 1) cs
  | _ :: cs => placeholders used cs
termination_by cs => cs.length
decreasing_by
  · exact Nat.lt_succ_of_le (Text.length_dropWhile_le Text.isWordChar cs)
  · exact Nat.lt_succ_self _
  · exact Nat.lt_succ_self _
  · exact Nat.lt_succ_self _

theorem placeholders_name {cs : List Char} (h : startsName cs) (used : Nat) :
    placeholders used (':' :: cs) =
      .named (nameAt cs) :: placeholders used (cs.dropWhile Text.isWordChar) := by
  rw [placeholders, if_pos h]

theorem placeholders_plain {c : Char} {cs : List Char} (h : Unmarked c cs) (used : Nat) :
    placeholders used (c :: cs) = placeholders used cs := by
  obtain ⟨hposition, hname⟩ := h
  by_cases hcolon : c = ':'
  · subst hcolon
    rw [placeholders, if_neg (hname rfl)]
  · rw [placeholders]
    · exact hcolon
    · exact hposition

/-- Every value that fills a placeholder is the one that the substitutions bind to it. -/
theorem value?_placeholders {subs : Substitutions} {given : Nat} {cs text : List Char}
    {values : List Value} (count used : Nat)
    (h : replacePlaceholders subs given count ((Substitutions.positions subs).drop used) cs =
      .ok (text, values)) :
    (placeholders used cs).map (Source.value? subs) = values.map some := by
  induction cs using placeholder_induction generalizing count used text values with
  | nil =>
      rw [replacePlaceholders_nil] at h
      split at h
      · cases h
        rw [placeholders]
        rfl
      · cases h
  | name cs hname ih =>
      rw [replacePlaceholders_name _ _ _ hname] at h
      obtain ⟨v, after, vs, hvalue, hrest, -, rfl⟩ := exists_of_filled h
      rw [placeholders_name hname, List.map_cons, ih _ _ hrest, List.map_cons, Source.value?, hvalue]
  | position cs ih =>
      rw [replacePlaceholders_position, List.head?_drop, List.tail_drop] at h
      obtain ⟨v, after, vs, hvalue, hrest, -, rfl⟩ := exists_of_filled h
      rw [placeholders, List.map_cons, ih _ _ hrest, List.map_cons, Source.value?, hvalue]
  | plain c cs hplain ih =>
      rw [replacePlaceholders_plain _ _ _ hplain] at h
      obtain ⟨p, hrest, hp⟩ := map_eq_ok_iff.1 h
      cases hp
      rw [placeholders_plain hplain]
      exact ih _ _ hrest

/-- The sources of the labels of a command, in the order of the labels. -/
def Source.ofText (text : String) : List Source :=
  match replaceQuoted 0 text.toList with
  | .ok (quoted, literals) => literals.map Source.fixed ++ placeholders 0 quoted
  | .error _ => []

theorem Source.value?_ofText {text : String} {subs : Substitutions} {e : Extraction}
    (h : Extraction.ofText text subs = .ok e) :
    (Source.ofText text).map (Source.value? subs) = e.values.map some := by
  obtain ⟨⟨quoted, literals⟩, hquoted, h⟩ := bind_eq_ok_iff.1 h
  obtain ⟨⟨labelled, values⟩, hfilled, h⟩ := bind_eq_ok_iff.1 h
  cases h
  rw [Source.ofText, hquoted, List.map_append, value?_placeholders _ 0 hfilled, List.map_append,
    List.map_map]
  rfl

namespace Source

/-- The source of the first label that reads like the word, counting from `number`. -/
def find? (number : Nat) (word : List Char) : List Source → Option Source
  | [] => none
  | source :: rest => if word = label number then some source else find? (number + 1) word rest

theorem find?_eq {subs : Substitutions} {sources : List Source} {values : List Value}
    (h : sources.map (Source.value? subs) = values.map some) (number : Nat) (word : List Char) :
    (find? number word sources).map (Source.value? subs) =
      (Extraction.resolveFrom number word values).map some := by
  induction sources generalizing number values with
  | nil =>
      rw [List.map_eq_nil_iff.1 h.symm]
      rfl
  | cons source sources ih =>
      obtain ⟨v, vs, rfl, hv, hvs⟩ := List.map_eq_cons_iff.1 h.symm
      rw [find?, Extraction.resolveFrom]
      split
      · exact congrArg some hv.symm
      · exact ih hvs.symm (number + 1)

end Source
end TableQuery
