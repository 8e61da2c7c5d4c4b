import Mathlib.Algebra.Ring.Parity
import Mathlib.Logic.Relation
import TableQuery.Proofs.Clause.Fields

/-! The rounds in which the groups of a clause are resolved. Between two rounds the slots are a chain whose
groups all close, and each round takes one group out of it, the last one to open. What is evaluated has no
groups: it is operands in turn with `AND` and `OR`, so that an evaluation never asks for the truth of anything
else and never runs past the end. -/

namespace TableQuery

namespace Clause

namespace Slot

def isOperand : Slot → Bool
  | .term _ => true
  | .resolved _ => true
  | _ => false

def isJoiner : Slot → Bool
  | .and => true
  | .or => true
  | _ => false

/-- The truth of an operand; no other slot has one. -/
def truth? (row : Row) : Slot → Option Bool
  | .term t => some (t.matches row)
  | .resolved b => some b
  | _ => none

variable {row : Row} {s : Slot} {b : Bool}

theorem truth?_of_isOperand (row : Row) (h : s.isOperand) : s.truth? row = some (s.truth row) := by
  cases s with
  | term t => rfl
  | resolved b => rfl
  | _ => cases h

theorem truth_of_truth? (h : s.truth? row = some b) : s.truth row = b := by
  cases s with
  | term t => exact Option.some.inj h
  | resolved b' => exact Option.some.inj h
  | _ => cases h

end Slot

/-! ### Operands in turn with joiners -/

/-- Operands in turn with joiners, and an operand at either end. -/
structure Alternates (slots : List Slot) : Prop where
  ne_nil : slots ≠ []
  odd_length : slots.length % 2 = 1
  operand : ∀ i s, slots[2 * i]? = some s → s.isOperand
  joiner : ∀ i s, slots[2 * i + 1]? = some s → s.isJoiner

namespace Alternates

variable {s j : Slot} {slots rest : List Slot}

theorem singleton (h : s.isOperand) : Alternates [s] where
  ne_nil := List.cons_ne_nil s []
  odd_length := rfl
  operand i t ht := by
    cases i with
    | zero =>
        cases ht
        exact h
    | succ i => cases ht
  joiner i t ht := by cases ht

theorem cons_cons (hs : s.isOperand) (hj : j.isJoiner) (h : Alternates rest) :
    Alternates (s :: j :: rest) where
  ne_nil := List.cons_ne_nil s _
  odd_length := by
    have hodd := h.odd_length
    simp only [List.length_cons]
    omega
  operand i t ht := by
    cases i with
    | zero =>
        cases ht
        exact hs
    | succ i => exact h.operand i t ht
  joiner i t ht := by
    cases i with
    | zero =>
        cases ht
        exact hj
    | succ i => exact h.joiner i t ht

theorem tail (h : Alternates (s :: j :: rest)) : Alternates rest where
  ne_nil := by
    rintro rfl
    have hodd : 2 % 2 = 1 := h.odd_length
    cases hodd
  odd_length := by
    have hodd := h.odd_length
    simp only [List.length_cons] at hodd
    omega
  operand i t ht := h.operand (i + 1) t ht
  joiner i t ht := h.joiner (i + 1) t ht

/-- Nothing else is among the slots. -/
theorem not_mem (h : Alternates slots) (hoperand : s.isOperand = false) (hjoiner : s.isJoiner = false) :
    s ∉ slots := by
  intro hmem
  obtain ⟨i, hi⟩ := List.mem_iff_getElem?.1 hmem
  obtain ⟨k, rfl | rfl⟩ := Nat.even_or_odd' i
  · rw [h.operand k s hi] at hoperand
    cases hoperand
  · rw [h.joiner k s hi] at hjoiner
    cases hjoiner

end Alternates

/-! ### Evaluations that get stuck

These evaluations go as those of a chain do, but there is no answer where a chain of slots in another order
is answered without one: they ask for the truth of operands alone, and do not run past the end. -/

def evalSequential? (row : Row) : List Slot → Option Bool
  | [] => none
  | [s] => s.truth? row
  | s :: .and :: rest => (s.truth? row).bind fun b => if b then evalSequential? row rest else some false
  | s :: .or :: rest => (s.truth? row).bind fun b => if b then some true else evalSequential? row rest
  | _ :: _ :: _ => none

/-- The truth of the slot is asked for only while the group of operands holds. -/
def groupWith? (row : Row) (group : Bool) (s : Slot) : Option Bool :=
  if group then s.truth? row else some false

def evalPrecedence? (row : Row) (group : Bool) : List Slot → Option Bool
  | [] => none
  | [s] => groupWith? row group s
  | s :: .and :: rest => (groupWith? row group s).bind fun group => evalPrecedence? row group rest
  | s :: .or :: rest =>
    (groupWith? row group s).bind fun group => if group then some true else evalPrecedence? row true rest
  | _ :: _ :: _ => none

def evalChain? (mode : ChainMode) (row : Row) (slots : List Slot) : Option Bool :=
  match mode with
  | .sequential => evalSequential? row slots
  | .precedence => evalPrecedence? row true slots

section Stuck

variable {row : Row} {slots : List Slot} {b : Bool}

/-- An answer is the one that the evaluation of a chain gives. -/
theorem evalSequential_of_some {slots : List Slot} (h : evalSequential? row slots = some b) :
    evalSequential row slots = b := by
  match slots with
  | [] => cases h
  | [s] =>
      rw [evalSequential_last]
      exact Slot.truth_of_truth? h
  | s :: j :: rest =>
      have hrest : evalSequential? row rest = some b → evalSequential row rest = b := evalSequential_of_some
      cases j with
      | and =>
          obtain ⟨t, ht, h⟩ := Option.bind_eq_some_iff.1 h
          rw [evalSequential_and, Slot.truth_of_truth? ht]
          cases t with
          | true => exact hrest h
          | false => exact Option.some.inj h
      | or =>
          obtain ⟨t, ht, h⟩ := Option.bind_eq_some_iff.1 h
          rw [evalSequential_or, Slot.truth_of_truth? ht]
          cases t with
          | true => exact Option.some.inj h
          | false => exact hrest h
      | _ => cases h

theorem groupWith_of_some {group : Bool} {s : Slot} (h : groupWith? row group s = some b) :
    (group && s.truth row) = b := by
  cases group with
  | false => exact Option.some.inj h
  | true => exact Slot.truth_of_truth? h

theorem evalPrecedence_of_some {slots : List Slot} {group : Bool}
    (h : evalPrecedence? row group slots = some b) : evalPrecedence row group slots = b := by
  match slots with
  | [] => cases h
  | [s] => exact groupWith_of_some h
  | s :: j :: rest =>
      have hrest : ∀ group, evalPrecedence? row group rest = some b → evalPrecedence row group rest = b :=
        fun _ => evalPrecedence_of_some
      cases j with
      | and =>
          obtain ⟨g, hg, h⟩ := Option.bind_eq_some_iff.1 h
          rw [evalPrecedence_and, groupWith_of_some hg]
          exact hrest g h
      | or =>
          obtain ⟨g, hg, h⟩ := Option.bind_eq_some_iff.1 h
          rw [evalPrecedence_or, groupWith_of_some hg]
          cases g with
          | true => exact Option.some.inj h
          | false => exact hrest true h
      | _ => cases h

theorem evalChain_of_some {mode : ChainMode} (h : evalChain? mode row slots = some b) :
    evalChain mode row slots = b := by
  cases mode with
  | sequential => exact evalSequential_of_some h
  | precedence => exact evalPrecedence_of_some h

/-! ### An alternation is evaluated throughout -/

theorem evalSequential?_of_alternates {slots : List Slot} (h : Alternates slots) :
    evalSequential? row slots = some (evalSequential row slots) := by
  match slots with
  | [] => exact absurd rfl h.ne_nil
  | [s] =>
      rw [evalSequential_last]
      exact Slot.truth?_of_isOperand row (h.operand 0 s rfl)
  | s :: j :: rest =>
      have hrest := evalSequential?_of_alternates h.tail
      have hs := Slot.truth?_of_isOperand row (h.operand 0 s rfl)
      have hjoiner := h.joiner 0 j rfl
      cases j with
      | and =>
          rw [evalSequential_and, evalSequential?, hs, Option.bind_some, hrest]
          cases s.truth row <;> rfl
      | or =>
          rw [evalSequential_or, evalSequential?, hs, Option.bind_some, hrest]
          cases s.truth row <;> rfl
      | _ => cases hjoiner

theorem groupWith?_of_isOperand (row : Row) {s : Slot} (h : s.isOperand) (group : Bool) :
    groupWith? row group s = some (group && s.truth row) := by
  cases group with
  | false => rfl
  | true => exact Slot.truth?_of_isOperand row h

theorem evalPrecedence?_of_alternates {slots : List Slot} (h : Alternates slots) (group : Bool) :
    evalPrecedence? row group slots = some (evalPrecedence row group slots) := by
  match slots with
  | [] => exact absurd rfl h.ne_nil
  | [s] => exact groupWith?_of_isOperand row (h.operand 0 s rfl) group
  | s :: j :: rest =>
      have hrest := fun group => evalPrecedence?_of_alternates h.tail group
      have hgroup := groupWith?_of_isOperand row (h.operand 0 s rfl) group
      have hjoiner := h.joiner 0 j rfl
      cases j with
      | and =>
          rw [evalPrecedence_and, evalPrecedence?, hgroup, Option.bind_some, hrest]
      | or =>
          rw [evalPrecedence_or, evalPrecedence?, hgroup, Option.bind_some, hrest]
          cases group && s.truth row <;> rfl
      | _ => cases hjoiner

theorem evalChain?_of_alternates (h : Alternates slots) (mode : ChainMode) :
    evalChain? mode row slots = some (evalChain mode row slots) := by
  cases mode with
  | sequential => exact evalSequential?_of_alternates h
  | precedence => exact evalPrecedence?_of_alternates h true

end Stuck

/-! ### Chains of slots -/

abbrev OperandSlot := { s : Slot // s.isOperand }

end Clause

open Clause

/-- A piece of a chain whose operands are slots. -/
def Piece.toSlot : Piece OperandSlot → Slot
  | .leaf s => s
  | .joiner .and => .and
  | .joiner .or => .or
  | .openGroup => .openGroup
  | .closeGroup => .closeGroup

def Chain.toSlots (c : Chain OperandSlot) : List Slot := c.pieces.map Piece.toSlot

def Operand.toSlots (o : Operand OperandSlot) : List Slot := o.pieces.map Piece.toSlot

theorem Piece.isJoiner_toSlot (j : Joiner) : (Piece.joiner j).toSlot.isJoiner := by
  cases j <;> rfl

theorem Chain.toSlots_join (o : Operand OperandSlot) (j : Joiner) (rest : Chain OperandSlot) :
    (Chain.join o j rest).toSlots = o.toSlots ++ (Piece.joiner j).toSlot :: rest.toSlots := by
  rw [Chain.toSlots, Chain.pieces, List.map_append, List.map_cons]
  rfl

theorem Operand.toSlots_group (c : Chain OperandSlot) :
    (Operand.group c).toSlots = .openGroup :: (c.toSlots ++ [.closeGroup]) := by
  rw [Operand.toSlots, Operand.pieces, List.map_cons, List.map_append]
  rfl

/-- A chain without groups. -/
theorem Chain.alternates_toSlots (c : Chain OperandSlot) (h : .openGroup ∉ c.toSlots) : Alternates c.toSlots := by
  match c with
  | .last (.leaf s) => exact .singleton s.2
  | .last (.group c) => exact absurd List.mem_cons_self h
  | .join (.leaf s) j rest =>
      rw [toSlots_join] at h ⊢
      have hrest : .openGroup ∉ rest.toSlots := fun hmem =>
        h (List.mem_append_right _ (List.mem_cons_of_mem _ hmem))
      exact .cons_cons s.2 (Piece.isJoiner_toSlot j) (rest.alternates_toSlots hrest)
  | .join (.group c) j rest => exact absurd List.mem_cons_self h

/-- The slots around and inside the last group to open. -/
structure LastGroup (slots before inside after : List Slot) : Prop where
  eq : slots = before ++ .openGroup :: (inside ++ .closeGroup :: after)
  alternates : Alternates inside
  last : .openGroup ∉ after

namespace LastGroup

variable {slots before inside after : List Slot}

theorem innermost?_eq (h : LastGroup slots before inside after) :
    innermost? slots = some (before, inside, after) := by
  rw [h.eq]
  exact innermost?_group (h.alternates.not_mem rfl rfl) (h.alternates.not_mem rfl rfl) h.last

/-- More slots on both sides. -/
theorem extend (h : LastGroup slots before inside after) (front : List Slot) {back : List Slot}
    (hback : .openGroup ∉ back) :
    LastGroup (front ++ slots ++ back) (front ++ before) inside (after ++ back) where
  eq := by
    rw [h.eq]
    simp only [List.append_assoc, List.cons_append]
  alternates := h.alternates
  last := by simp [h.last, hback]

theorem count_openGroup (h : LastGroup slots before inside after) (b : Bool) :
    (before ++ .resolved b :: after).count .openGroup + 1 = slots.count .openGroup := by
  have hinside : inside.count .openGroup = 0 := List.count_eq_zero.2 (h.alternates.not_mem rfl rfl)
  rw [h.eq]
  simp [List.count_append, hinside]
  omega

end LastGroup

mutual

/-- A chain with a group has a last one to open, and is a chain again with an operand in its place. -/
theorem Chain.exists_lastGroup (c : Chain OperandSlot) (h : .openGroup ∈ c.toSlots) :
    ∃ before inside after, LastGroup c.toSlots before inside after ∧
      ∀ s : OperandSlot, ∃ c' : Chain OperandSlot, c'.toSlots = before ++ s.1 :: after := by
  match c with
  | .last o =>
      obtain ⟨before, inside, after, hgroup, hresolved⟩ := Operand.exists_lastGroup o h
      refine ⟨before, inside, after, hgroup, fun s => ?_⟩
      obtain ⟨o', ho'⟩ := hresolved s
      exact ⟨.last o', ho'⟩
  | .join o j rest =>
      -- the last group to open is in the first operand only if none opens behind the joiner
      by_cases hrest : .openGroup ∈ rest.toSlots
      · obtain ⟨before, inside, after, hgroup, hresolved⟩ := Chain.exists_lastGroup rest hrest
        have hextended := hgroup.extend (o.toSlots ++ [(Piece.joiner j).toSlot]) List.not_mem_nil
        rw [List.append_nil, List.append_nil, List.append_assoc, List.append_assoc, List.singleton_append,
          List.singleton_append, ← Chain.toSlots_join] at hextended
        refine ⟨_, inside, after, hextended, fun s => ?_⟩
        obtain ⟨rest', hrest'⟩ := hresolved s
        refine ⟨.join o j rest', ?_⟩
        rw [Chain.toSlots_join, hrest', List.append_assoc, List.cons_append]
      · have hback : .openGroup ∉ (Piece.joiner j).toSlot :: rest.toSlots := by
          cases j <;> simp [Piece.toSlot, hrest]
        rw [Chain.toSlots_join] at h ⊢
        have hfirst : .openGroup ∈ o.toSlots := (List.mem_append.1 h).resolve_right hback
        obtain ⟨before, inside, after, hgroup, hresolved⟩ := Operand.exists_lastGroup o hfirst
        refine ⟨before, inside, _, hgroup.extend [] hback, fun s => ?_⟩
        obtain ⟨o', ho'⟩ := hresolved s
        refine ⟨.join o' j rest, ?_⟩
        rw [Chain.toSlots_join, ho', List.append_assoc, List.cons_append]

theorem Operand.exists_lastGroup (o : Operand OperandSlot) (h : .openGroup ∈ o.toSlots) :
    ∃ before inside after, LastGroup o.toSlots before inside after ∧
      ∀ s : OperandSlot, ∃ o' : Operand OperandSlot, o'.toSlots = before ++ s.1 :: after := by
  match o with
  | .leaf s =>
      have hs : s.1.isOperand := s.2
      have hopen : Slot.openGroup = s.1 := List.mem_singleton.1 h
      rw [← hopen] at hs
      cases hs
  | .group c =>
      rw [Operand.toSlots_group]
      by_cases hinner : .openGroup ∈ c.toSlots
      · obtain ⟨before, inside, after, hgroup, hresolved⟩ := Chain.exists_lastGroup c hinner
        have hclose : Slot.openGroup ∉ [Slot.closeGroup] := by simp
        refine ⟨_, inside, _, hgroup.extend [.openGroup] hclose, fun s => ?_⟩
        obtain ⟨c', hc'⟩ := hresolved s
        refine ⟨.group c', ?_⟩
        rw [Operand.toSlots_group, hc', List.append_assoc]
        rfl
      -- inside it no group opens, so that it is the last one itself
      · have hgroup : LastGroup (.openGroup :: (c.toSlots ++ [.closeGroup])) [] c.toSlots [] :=
          ⟨rfl, c.alternates_toSlots hinner, List.not_mem_nil⟩
        exact ⟨[], c.toSlots, [], hgroup, fun s => ⟨.leaf s, rfl⟩⟩

end

/-! ### The rounds -/

namespace Clause

/-- The slots are operands joined by `AND` and `OR`, and the groups among them close. -/
def Formed (slots : List Slot) : Prop := ∃ c : Chain OperandSlot, c.toSlots = slots

/-- One round: the last group to open is replaced by its truth value. -/
def Round (mode : ChainMode) (row : Row) (slots next : List Slot) : Prop :=
  ∃ before inside after, innermost? slots = some (before, inside, after) ∧
    next = before ++ .resolved (evalChain mode row inside) :: after

/-- What is true of the slots between two rounds. -/
structure Stage (mode : ChainMode) (row : Row) (slots : List Slot) : Prop where
  formed : Formed slots
  /-- Where a group opens one closes, the last to open is evaluated, and one group less is left. -/
  resolves : .openGroup ∈ slots → ∃ before inside after,
    slots = before ++ .openGroup :: (inside ++ .closeGroup :: after) ∧
    innermost? slots = some (before, inside, after) ∧
    Alternates inside ∧ evalChain? mode row inside = some (evalChain mode row inside) ∧
    ∀ next, Round mode row slots next → next.count .openGroup + 1 = slots.count .openGroup
  /-- Where none opens all slots are evaluated. -/
  ends : .openGroup ∉ slots →
    innermost? slots = none ∧ Alternates slots ∧ evalChain? mode row slots = some (evalChain mode row slots)

variable {mode : ChainMode} {row : Row} {slots next : List Slot}

theorem Round.resolve_eq (h : Round mode row slots next) : resolve mode row slots = resolve mode row next := by
  obtain ⟨before, inside, after, hinnermost, rfl⟩ := h
  exact resolve_of_some mode row hinnermost

theorem Formed.exists_lastGroup (h : Formed slots) (hopen : .openGroup ∈ slots) :
    ∃ before inside after, LastGroup slots before inside after ∧
      ∀ b, Formed (before ++ .resolved b :: after) := by
  obtain ⟨c, rfl⟩ := h
  obtain ⟨before, inside, after, hgroup, hresolved⟩ := c.exists_lastGroup hopen
  exact ⟨before, inside, after, hgroup, fun b => hresolved ⟨.resolved b, rfl⟩⟩

theorem Formed.alternates (h : Formed slots) (hopen : .openGroup ∉ slots) : Alternates slots := by
  obtain ⟨c, rfl⟩ := h
  exact c.alternates_toSlots hopen

/-- A round takes the last group out and leaves a chain. -/
theorem Round.formed (h : Formed slots) (hround : Round mode row slots next) :
    Formed next ∧ next.count .openGroup + 1 = slots.count .openGroup := by
  obtain ⟨before, inside, after, hinnermost, rfl⟩ := hround
  by_cases hopen : .openGroup ∈ slots
  · obtain ⟨before', inside', after', hgroup, hresolved⟩ := h.exists_lastGroup hopen
    rw [hgroup.innermost?_eq] at hinnermost
    cases hinnermost
    exact ⟨hresolved _, hgroup.count_openGroup _⟩
  · rw [innermost?_eq_none hopen] at hinnermost
    cases hinnermost

theorem Formed.stage (h : Formed slots) (mode : ChainMode) (row : Row) : Stage mode row slots where
  formed := h
  resolves hopen := by
    obtain ⟨before, inside, after, hgroup, -⟩ := h.exists_lastGroup hopen
    exact ⟨before, inside, after, hgroup.eq, hgroup.innermost?_eq, hgroup.alternates,
      evalChain?_of_alternates hgroup.alternates mode, fun next hround => (hround.formed h).2⟩
  ends hopen :=
    have halternates := h.alternates hopen
    ⟨innermost?_eq_none hopen, halternates, evalChain?_of_alternates halternates mode⟩

/-- The rounds come to an end, with no group left. -/
theorem Formed.exists_last (h : Formed slots) (mode : ChainMode) (row : Row) :
    ∃ last, Relation.ReflTransGen (Round mode row) slots last ∧ Formed last ∧ .openGroup ∉ last := by
  -- by the number of groups, of which each round takes one out
  induction hcount : slots.count .openGroup generalizing slots with
  | zero => exact ⟨slots, .refl, h, List.count_eq_zero.1 hcount⟩
  | succ n ih =>
      have hopen : .openGroup ∈ slots := List.count_pos_iff.1 (by omega)
      obtain ⟨before, inside, after, hgroup, hresolved⟩ := h.exists_lastGroup hopen
      have hround : Round mode row slots (before ++ .resolved (evalChain mode row inside) :: after) :=
        ⟨before, inside, after, hgroup.innermost?_eq, rfl⟩
      have hfewer := (hround.formed h).2
      obtain ⟨last, hlast, hformed, hnone⟩ := ih (hresolved (evalChain mode row inside)) (by omega)
      exact ⟨last, .head hround hlast, hformed, hnone⟩

end Clause

/-- A chain of terms is a chain of slots. -/
theorem Chain.toSlots_terms (c : Chain Term) :
    (c.map fun t => (⟨.term t, rfl⟩ : OperandSlot)).toSlots = c.slots := by
  rw [Chain.toSlots, Chain.pieces_map, List.map_map]
  refine List.map_congr_left fun p _ => ?_
  cases p with
  | joiner j => cases j <;> rfl
  | _ => rfl

namespace Clause

/-- The slots of an accepted clause are a chain. -/
theorem formed_of_ofParts {ps : List ClausePart} {c : Clause} (h : ofParts ps = .ok c) :
    Formed (c.parts.map Slot.ofPart) := by
  obtain ⟨hparts, tree, rfl⟩ := exists_tree h
  exact ⟨_, by rw [hparts, tree.map_ofPart_parts, tree.toSlots_terms]⟩

/-- **Between any two rounds the slots are a chain whose groups close, and the rounds end with its value.** A
round takes exactly one group out, and whatever is evaluated, a group or at last the whole chain, is operands
in turn with joiners, on which no evaluation is stuck. -/
theorem resolved_in_rounds {ps : List ClausePart} {c : Clause} (h : ofParts ps = .ok c) (row : Row)
    (mode : ChainMode) :
    (∀ slots b, evalChain? mode row slots = some b → evalChain mode row slots = b) ∧
    (∀ slots, Relation.ReflTransGen (Round mode row) (c.parts.map Slot.ofPart) slots →
      Stage mode row slots ∧ c.holds row mode = resolve mode row slots) ∧
    ∃ last, Relation.ReflTransGen (Round mode row) (c.parts.map Slot.ofPart) last ∧ .openGroup ∉ last ∧
      evalChain? mode row last = some (c.holds row mode) := by
  have hrounds : ∀ slots, Relation.ReflTransGen (Round mode row) (c.parts.map Slot.ofPart) slots →
      Formed slots ∧ c.holds row mode = resolve mode row slots := by
    intro slots hreach
    induction hreach with
    | refl => exact ⟨formed_of_ofParts h, rfl⟩
    | tail _ hround ih => exact ⟨(hround.formed ih.1).1, ih.2.trans hround.resolve_eq⟩
  refine ⟨fun slots b => evalChain_of_some, fun slots hreach => ?_, ?_⟩
  · obtain ⟨hformed, hholds⟩ := hrounds slots hreach
    exact ⟨hformed.stage mode row, hholds⟩
  · obtain ⟨last, hlast, hformed, hnone⟩ := (formed_of_ofParts h).exists_last mode row
    refine ⟨last, hlast, hnone, ?_⟩
    rw [evalChain?_of_alternates (hformed.alternates hnone), (hrounds last hlast).2,
      resolve_of_none mode row (innermost?_eq_none hnone)]

/-- Groups in a group and beside it. -/
theorem resolved_in_rounds_nested :
    let term (field : String) (n : Int64) : ClausePart := .term ⟨field, .eq, .int n⟩
    let ps : List ClausePart := [.openGroup, term "a" 1, .or, .openGroup, term "b" 2, .and, .openGroup, term "c" 3,
      .closeGroup, .closeGroup, .closeGroup, .and, .openGroup, term "d" 4, .closeGroup]
    let row : Row := .ofList [("b", .int 2), ("c", .int 3), ("d", .int 4)]
    ofParts ps = .ok ⟨ps⟩ ∧ (ps.map Slot.ofPart).count .openGroup = 4 ∧
      Stage .sequential row (ps.map Slot.ofPart) ∧
      ∃ last, Relation.ReflTransGen (Round .sequential row) (ps.map Slot.ofPart) last ∧ .openGroup ∉ last ∧
        evalChain? .sequential row last = some true := by
  intro term ps row
  let leaf (field : String) (n : Int64) : Operand Term := .leaf ⟨field, .eq, .int n⟩
  let inner : Chain Term := .join (leaf "b" 2) .and (.last (.group (.last (leaf "c" 3))))
  let outer : Chain Term := .join (leaf "a" 1) .or (.last (.group inner))
  let tree : Chain Term := .join (.group outer) .and (.last (.group (.last (leaf "d" 4))))
  have haccepted : ofParts ps = .ok ⟨ps⟩ := ofParts_parts tree
  have hvalue : tree.value .sequential row = true := by decide +kernel
  have hholds : holds ⟨ps⟩ row .sequential = true := (holds_parts tree row .sequential).trans hvalue
  obtain ⟨-, hstages, hlast⟩ := resolved_in_rounds haccepted row .sequential
  rw [hholds] at hlast
  exact ⟨haccepted, by decide, (hstages _ .refl).1, hlast⟩

end Clause
end TableQuery
