import Mathlib
import TableQuery.Proofs.Clause.Resolution
import TableQuery.Proofs.Store.Entries

/-! The two readings of a chain. They agree on every row unless some chain, at whatever depth, has an
`AND` before an `OR`. A chain without groups that has one is read in two ways in the row in which exactly
the fields behind that `OR` are set. -/

namespace TableQuery

/-! ### Joined truth values -/

namespace Links

/-- The joined values from left to right. -/
def values : Links → List Bool
  | .last b => [b]
  | .join b _ rest => b :: rest.values

/-- What joins them, from left to right. -/
def joiners : Links → List Joiner
  | .last _ => []
  | .join _ j rest => j :: rest.joiners

/-- Joins two of them to one. -/
def append : Links → Joiner → Links → Links
  | .last b, j, l => .join b j l
  | .join b j' rest, j, l => .join b j' (rest.append j l)

theorem precedence_join_or (b : Bool) (l : Links) : (join b .or l).precedence = (b || l.precedence) := by
  rw [precedence, andGroups, List.any_cons, List.all_cons, List.all_nil, Bool.and_true]
  rfl

theorem sequential_of_no_or {l : Links} (h : .or ∉ l.joiners) : l.sequential = l.values.all id := by
  induction l with
  | last b => simp [sequential, values]
  | join b j rest ih =>
      rw [joiners, List.mem_cons, not_or] at h
      cases j with
      | and => rw [sequential, values, ih h.2, List.all_cons, id]
      | or => exact absurd rfl h.1

/-- Without an `OR` all values are one run. -/
theorem andGroups_of_no_or {l : Links} (h : .or ∉ l.joiners) : l.andGroups = [l.values] := by
  induction l with
  | last b => rfl
  | join b j rest ih =>
      rw [joiners, List.mem_cons, not_or] at h
      cases j with
      | and => rw [andGroups, ih h.2, values]
      | or => exact absurd rfl h.1

/-- **The readings agree where every `OR` stands before every `AND`.** -/
theorem sequential_eq_precedence {l : Links} (h : ¬ List.Sublist [.and, .or] l.joiners) :
    l.sequential = l.precedence := by
  induction l with
  | last b => simp [sequential, precedence, andGroups]
  | join b j rest ih =>
      rw [joiners] at h
      cases j with
      | or => rw [sequential, precedence_join_or, ih fun hrest => h (hrest.cons .or)]
      | and =>
          -- No `OR` follows, so that what is joined is one run.
          have hor : .or ∉ rest.joiners := fun hmem => h ((List.singleton_sublist.2 hmem).cons_cons .and)
          have hjoin : .or ∉ (join b .and rest).joiners := by
            rw [joiners, List.mem_cons, not_or]
            exact ⟨Joiner.noConfusion, hor⟩
          rw [sequential_of_no_or hjoin, precedence, andGroups_of_no_or hjoin, List.any_cons, List.any_nil,
            Bool.or_false]

theorem andGroups_append_or (l l' : Links) : (l.append .or l').andGroups = l.andGroups ++ l'.andGroups := by
  have hne : ∀ l : Links, l.andGroups ≠ [] := by
    intro l
    cases l with
    | last b => exact List.cons_ne_nil _ _
    | join b j rest =>
        cases j with
        | or => exact List.cons_ne_nil _ _
        | and =>
            rw [andGroups]
            split <;> exact List.cons_ne_nil _ _
  induction l with
  | last b => rfl
  | join b j rest ih =>
      cases j with
      | or => rw [append, andGroups, andGroups, ih, List.cons_append]
      | and =>
          obtain ⟨group, groups, hgroups⟩ := List.exists_cons_of_ne_nil (hne rest)
          rw [append, andGroups, andGroups, ih, hgroups, List.cons_append]
          rfl

theorem precedence_append_or (l l' : Links) :
    (l.append .or l').precedence = (l.precedence || l'.precedence) := by
  rw [precedence, andGroups_append_or, List.any_append]
  rfl

/-- Left to right, the first `AND` after false values only settles the outcome. -/
theorem sequential_append_of_false {l : Links} (hvalues : ∀ b ∈ l.values, b = false)
    (hand : .and ∈ l.joiners) (j : Joiner) (l' : Links) : (l.append j l').sequential = false := by
  induction l with
  | last b => cases hand
  | join b j' rest ih =>
      obtain ⟨rfl, hrest⟩ := List.forall_mem_cons.1 hvalues
      cases j' with
      | and => rfl
      | or =>
          rw [append, sequential, Bool.false_or]
          exact ih hrest ((List.mem_cons.1 hand).resolve_left Joiner.noConfusion)

theorem precedence_of_true {l : Links} (hvalues : ∀ b ∈ l.values, b = true) : l.precedence = true := by
  have hgroups : ∃ group groups, l.andGroups = group :: groups ∧ group.all id := by
    induction l with
    | last b => exact ⟨[b], [], rfl, by simpa [values] using hvalues⟩
    | join b j rest ih =>
        obtain ⟨rfl, hrest⟩ := List.forall_mem_cons.1 hvalues
        cases j with
        | or => exact ⟨[true], rest.andGroups, rfl, rfl⟩
        | and =>
            obtain ⟨group, groups, hgroups, hall⟩ := ih hrest
            refine ⟨true :: group, groups, ?_, hall⟩
            rw [andGroups, hgroups]
  obtain ⟨group, groups, hgroups, hall⟩ := hgroups
  rw [precedence, hgroups, List.any_cons, hall, Bool.true_or]

end Links

/-! ### Chains -/

section

variable {α : Type}

/-- What joins the operands of a chain, groups not looked into. -/
def Chain.joiners : Chain α → List Joiner
  | .last _ => []
  | .join _ j rest => j :: rest.joiners

mutual

/-- The chains in parentheses, at every depth. -/
def Chain.groups : Chain α → List (Chain α)
  | .last o => o.groups
  | .join o _ rest => o.groups ++ rest.groups

def Operand.groups : Operand α → List (Chain α)
  | .leaf _ => []
  | .group c => c :: c.groups

end

/-- The chain has an `AND` somewhere before an `OR`. -/
def Chain.Mixed (c : Chain α) : Prop := List.Sublist [.and, .or] c.joiners

instance (c : Chain α) : Decidable c.Mixed := inferInstanceAs (Decidable (List.Sublist _ _))

end

theorem Chain.joiners_truths (mode : ChainMode) (row : Row) (c : Chain Term) :
    (c.truths mode row).joiners = c.joiners := by
  cases c with
  | last o => rfl
  | join o j rest => rw [Chain.truths, Links.joiners, Chain.joiners, rest.joiners_truths]

mutual

theorem Chain.truths_eq {row : Row} {c : Chain Term} (h : ∀ g ∈ c.groups, ¬ g.Mixed) :
    c.truths .sequential row = c.truths .precedence row := by
  cases c with
  | last o => rw [Chain.truths, Chain.truths, Operand.value_eq h]
  | join o j rest =>
      obtain ⟨ho, hrest⟩ := List.forall_mem_append.1 h
      rw [Chain.truths, Chain.truths, Operand.value_eq ho, Chain.truths_eq hrest]

theorem Operand.value_eq {row : Row} {o : Operand Term} (h : ∀ g ∈ o.groups, ¬ g.Mixed) :
    o.value .sequential row = o.value .precedence row := by
  cases o with
  | leaf t => rfl
  | group c =>
      obtain ⟨hc, hgroups⟩ := List.forall_mem_cons.1 h
      rw [Operand.value, Operand.value, Chain.truths_eq hgroups]
      refine Links.sequential_eq_precedence ?_
      rwa [c.joiners_truths]

end

/-- A chain in which no `AND` stands before an `OR`, nor in any of its groups, has one value. -/
theorem Chain.value_eq {row : Row} {c : Chain Term} (h : ∀ g ∈ c :: c.groups, ¬ g.Mixed) :
    c.value .sequential row = c.value .precedence row :=
  Operand.value_eq (o := .group c) h

/-! ### Flags -/

/-- The comparison that holds where the field is `1`. -/
def Term.flag (field : String) : Term := ⟨field, .eq, .int 1⟩

/-- The row in which these fields are `1`, without other fields. -/
def Row.flags (fields : List String) : Row := .ofList (fields.map fun field => (field, .int 1))

theorem Row.get?_flags (fields : List String) (k : String) :
    (flags fields).get? k = if k ∈ fields then some (.int 1) else none := by
  have hlookup : ∀ l : List String,
      (l.map fun field => (field, Value.int 1)).lookup k = if k ∈ l then some (.int 1) else none := by
    intro l
    induction l with
    | nil => rfl
    | cons field l ih =>
        rw [List.map_cons, List.lookup_cons, ih]
        by_cases hk : k = field
        · simp [hk]
        · simp [hk, beq_eq_false_iff_ne.2 hk]
  rw [flags, Dict.get?_ofList, ← List.map_reverse, hlookup]
  simp only [List.mem_reverse]

theorem Term.matches_flag (fields : List String) (k : String) :
    (flag k).matches (Row.flags fields) = decide (k ∈ fields) := by
  by_cases hk : k ∈ fields
  · simp [Term.matches, flag, Row.get?_flags, hk, Value.looseEq]
  · simp [Term.matches, flag, Row.get?_flags, hk, Value.isNull]

namespace Chain

/-- Flags joined by `AND` and `OR`, without parentheses. -/
def ofFlags (field : String) : List (Joiner × String) → Chain Term
  | [] => .last (.leaf (.flag field))
  | (j, next) :: rest => .join (.leaf (.flag field)) j (ofFlags next rest)

variable (mode : ChainMode) (row : Row)

theorem truths_ofFlags_append (field : String) (front : List (Joiner × String)) (j : Joiner) (next : String)
    (rest : List (Joiner × String)) :
    (ofFlags field (front ++ (j, next) :: rest)).truths mode row =
      ((ofFlags field front).truths mode row).append j ((ofFlags next rest).truths mode row) := by
  induction front generalizing field with
  | nil => rfl
  | cons r front ih =>
      rw [List.cons_append, ofFlags, Chain.truths, ih]
      rfl

theorem values_ofFlags (field : String) (rest : List (Joiner × String)) :
    ((ofFlags field rest).truths mode row).values =
      (field :: rest.map Prod.snd).map fun k => (Term.flag k).matches row := by
  induction rest generalizing field with
  | nil => rfl
  | cons r rest ih =>
      rw [ofFlags, Chain.truths, Links.values, ih]
      rfl

theorem joiners_ofFlags (field : String) (rest : List (Joiner × String)) :
    (ofFlags field rest).joiners = rest.map Prod.fst := by
  induction rest generalizing field with
  | nil => rfl
  | cons r rest ih =>
      rw [ofFlags, Chain.joiners, ih]
      rfl

theorem groups_ofFlags (field : String) (rest : List (Joiner × String)) :
    (ofFlags field rest).groups = [] := by
  induction rest generalizing field with
  | nil => rfl
  | cons r rest ih =>
      rw [ofFlags, Chain.groups, ih]
      rfl

/-- **A chain of flags of different fields with an `AND` before an `OR` is told apart** by the row in which
the fields behind that `OR` are set: left to right the `AND` settles it, while the last run holds. -/
theorem exists_value_ne {field : String} {rest : List (Joiner × String)}
    (hfields : (field :: rest.map Prod.snd).Nodup) (hmixed : (ofFlags field rest).Mixed) :
    ∃ row, (ofFlags field rest).value .sequential row = false ∧
      (ofFlags field rest).value .precedence row = true := by
  rw [Mixed, joiners_ofFlags, List.cons_sublist_iff] at hmixed
  obtain ⟨before, after, hsplit, hand, hor⟩ := hmixed
  obtain ⟨mid, tail, rfl⟩ := List.append_of_mem (List.singleton_sublist.1 hor)
  rw [← List.append_assoc] at hsplit
  obtain ⟨front, back, rfl, hfront, hback⟩ := List.map_eq_append_iff.1 hsplit
  obtain ⟨⟨j, next⟩, others, rfl, hj, -⟩ := List.map_eq_cons_iff.1 hback
  obtain rfl : j = .or := hj
  rw [List.map_append, List.map_cons, ← List.cons_append, List.nodup_append] at hfields
  obtain ⟨-, -, hdisjoint⟩ := hfields
  refine ⟨Row.flags (next :: others.map Prod.snd), ?_, ?_⟩
  · rw [value, Links.read, truths_ofFlags_append]
    refine Links.sequential_append_of_false ?_ ?_ .or _
    · rw [values_ofFlags]
      intro b hb
      obtain ⟨k, hk, rfl⟩ := List.mem_map.1 hb
      rw [Term.matches_flag, decide_eq_false_iff_not]
      exact fun hmem => hdisjoint k hk k hmem rfl
    · rw [joiners_truths, joiners_ofFlags, hfront]
      exact List.mem_append_left _ hand
  · rw [value, Links.read, truths_ofFlags_append, Links.precedence_append_or]
    refine (congrArg _ (Links.precedence_of_true ?_)).trans (Bool.or_true _)
    rw [values_ofFlags]
    intro b hb
    obtain ⟨k, hk, rfl⟩ := List.mem_map.1 hb
    rw [Term.matches_flag, decide_eq_true hk]

end Chain

/-! ### Clauses -/

namespace Clause

/-- Some chain of the clause, at whatever depth, has an `AND` before an `OR`. -/
def Mixed (c : Clause) : Prop :=
  ∃ tree : Chain Term, tree.parts = c.parts ∧ ∃ g ∈ tree :: tree.groups, g.Mixed

theorem mixed_iff (tree : Chain Term) : Mixed ⟨tree.parts⟩ ↔ ∃ g ∈ tree :: tree.groups, g.Mixed := by
  refine ⟨fun ⟨tree', htree, hmixed⟩ => ?_, fun hmixed => ⟨tree, rfl, hmixed⟩⟩
  rwa [Chain.parts_injective htree] at hmixed

/-- Flags joined by `AND` and `OR`, as they are written. -/
def flagParts (field : String) (rest : List (Joiner × String)) : List ClausePart :=
  .term (.flag field) :: rest.flatMap fun r => [(Piece.joiner r.1).part, .term (.flag r.2)]

theorem parts_ofFlags (field : String) (rest : List (Joiner × String)) :
    (Chain.ofFlags field rest).parts = flagParts field rest := by
  induction rest generalizing field with
  | nil => rfl
  | cons r rest ih =>
      rw [Chain.ofFlags, Chain.parts_join, ih]
      rfl

theorem holds_eq_of_not_mixed {ps : List ClausePart} {c : Clause} (hc : ofParts ps = .ok c)
    (hmixed : ¬ c.Mixed) (row : Row) : c.holds row .sequential = c.holds row .precedence := by
  obtain ⟨hparts, tree, htree⟩ := exists_tree hc
  obtain rfl : c = ⟨tree.parts⟩ := congrArg mk (hparts.trans htree.symm)
  rw [holds_parts, holds_parts]
  exact Chain.value_eq fun g hg hg' => hmixed ((mixed_iff tree).2 ⟨g, hg, hg'⟩)

/-- **The two readings of a clause agree on every row unless some chain in it has an `AND` before an
`OR`.** Comparisons of different fields with `1`, joined without parentheses, are read in two ways in some
row exactly if an `AND` stands before an `OR`. -/
theorem readings_agree :
    (∀ ps c, ofParts ps = .ok c → ¬ c.Mixed → ∀ row, c.holds row .sequential = c.holds row .precedence) ∧
    ∀ field (rest : List (Joiner × String)), (field :: rest.map Prod.snd).Nodup →
      ∃ c, ofParts (flagParts field rest) = .ok c ∧
        (List.Sublist [.and, .or] (rest.map Prod.fst) ↔
          ∃ row, c.holds row .sequential ≠ c.holds row .precedence) := by
  refine ⟨fun ps c hc hmixed row => holds_eq_of_not_mixed hc hmixed row, fun field rest hfields => ?_⟩
  have hc := ofParts_parts (Chain.ofFlags field rest)
  rw [parts_ofFlags] at hc
  refine ⟨_, hc, fun hmixed => ?_, fun ⟨row, hrow⟩ => ?_⟩
  · rw [← Chain.joiners_ofFlags field] at hmixed
    obtain ⟨row, hsequential, hprecedence⟩ := Chain.exists_value_ne hfields hmixed
    refine ⟨row, ?_⟩
    rw [← parts_ofFlags, holds_parts, holds_parts, hsequential, hprecedence]
    exact Bool.false_ne_true
  · by_contra hnot
    refine hrow (holds_eq_of_not_mixed hc ?_ row)
    rw [← parts_ofFlags, mixed_iff, Chain.groups_ofFlags]
    rintro ⟨g, hg, hmixed⟩
    rw [List.mem_singleton.1 hg, Chain.Mixed, Chain.joiners_ofFlags] at hmixed
    exact hnot hmixed

/-- A group behind an `OR`, and an `AND` between two of them. -/
theorem readings_agree_grouped :
    (∃ c, ofParts [.term (.flag "a"), .or, .openGroup, .term (.flag "b"), .or, .term (.flag "c"), .closeGroup,
        .and, .term (.flag "d")] = .ok c ∧
      ∀ row, c.holds row .sequential = c.holds row .precedence) ∧
    ∃ c, ofParts (flagParts "a" [(.or, "b"), (.and, "c"), (.or, "d")]) = .ok c ∧
      ∃ row, c.holds row .sequential ≠ c.holds row .precedence := by
  let flag (field : String) : Operand Term := .leaf (.flag field)
  let group : Chain Term := .join (flag "b") .or (.last (flag "c"))
  let tree : Chain Term := .join (flag "a") .or (.join (.group group) .and (.last (flag "d")))
  have hmixed : ¬ Mixed ⟨tree.parts⟩ := by
    rw [mixed_iff, show tree.groups = [group] from rfl]
    decide
  obtain ⟨c, hc, hiff⟩ := readings_agree.2 "a" [(.or, "b"), (.and, "c"), (.or, "d")] (by decide)
  exact ⟨⟨_, ofParts_parts tree, readings_agree.1 _ _ (ofParts_parts tree) hmixed⟩, c, hc, hiff.1 (by decide)⟩

end Clause
end TableQuery
