import TableQuery.Proofs.Clause.Chain

/-! Which parts are a clause: exactly those that some chain of terms is written with. Reading a chain
from the front of some parts stops behind the longest one. -/

namespace TableQuery

/-- A piece of a chain of terms as a part of a clause. -/
def Piece.part : Piece Term → ClausePart
  | .leaf t => .term t
  | .joiner .and => .and
  | .joiner .or => .or
  | .openGroup => .openGroup
  | .closeGroup => .closeGroup

/-- The piece that a part is. -/
def ClausePart.piece : ClausePart → Piece Term
  | .term t => .leaf t
  | .and => .joiner .and
  | .or => .joiner .or
  | .openGroup => .openGroup
  | .closeGroup => .closeGroup

theorem Piece.piece_part (p : Piece Term) : p.part.piece = p := by
  cases p with
  | joiner j => cases j <;> rfl
  | _ => rfl

theorem Piece.part_injective : Function.Injective Piece.part :=
  Function.LeftInverse.injective Piece.piece_part

def Chain.parts (c : Chain Term) : List ClausePart := c.pieces.map Piece.part

def Operand.parts (o : Operand Term) : List ClausePart := o.pieces.map Piece.part

theorem Chain.parts_last (o : Operand Term) : (Chain.last o).parts = o.parts := rfl

theorem Chain.parts_join (o : Operand Term) (j : Joiner) (rest : Chain Term) :
    (Chain.join o j rest).parts = o.parts ++ (Piece.joiner j).part :: rest.parts := by
  rw [Chain.parts, Chain.pieces, List.map_append, List.map_cons]
  rfl

theorem Operand.parts_group (c : Chain Term) :
    (Operand.group c).parts = .openGroup :: (c.parts ++ [.closeGroup]) := by
  rw [Operand.parts, Operand.pieces, List.map_cons, List.map_append]
  rfl

/-- **No two chains are written alike.** -/
theorem Chain.parts_injective {c c' : Chain Term} (h : c.parts = c'.parts) : c = c' := by
  have hpieces : c.pieces = c'.pieces := (List.map_inj_right fun _ _ hp => Piece.part_injective hp).1 h
  exact Chain.pieces_injective hpieces

namespace ClausePart

/-- What follows the chain at the start of the parts, without the bound on its length. -/
def chainRest (ps : List ClausePart) : Except SyntaxFault (List ClausePart) :=
  (afterChain ps).map Subtype.val

/-- What follows the rest of a chain, without the bound on its length. -/
def operandRest (ps : List ClausePart) : Except SyntaxFault (List ClausePart) :=
  (afterOperand ps).map Subtype.val

theorem chainRest_nil : chainRest [] = .error .incompleteClause := by
  rw [chainRest, afterChain]
  rfl

theorem chainRest_term (t : Term) (ps : List ClausePart) :
    chainRest (.term t :: ps) = operandRest ps := by
  rw [chainRest, afterChain, operandRest]
  cases afterOperand ps <;> rfl

theorem chainRest_open (ps : List ClausePart) :
    chainRest (.openGroup :: ps) = (chainRest ps).bind fun
      | .closeGroup :: after => operandRest after
      | _ => .error .unbalanced := by
  rw [chainRest, afterChain, chainRest]
  cases afterChain ps with
  | error e => rfl
  | ok r =>
      obtain ⟨r, hr⟩ := r
      cases r with
      | nil => rfl
      | cons p after =>
          cases p with
          | closeGroup =>
              simp only [Except.map, Except.bind, operandRest]
              cases afterOperand after <;> rfl
          | _ => rfl

theorem operandRest_joiner (j : Joiner) (ps : List ClausePart) :
    operandRest ((Piece.joiner j).part :: ps) = chainRest ps := by
  cases j with
  | and =>
      rw [operandRest, Piece.part, afterOperand, chainRest]
      cases afterChain ps <;> rfl
  | or =>
      rw [operandRest, Piece.part, afterOperand, chainRest]
      cases afterChain ps <;> rfl

/-- Whether the parts go on with another operand of a chain. -/
def Continues (ps : List ClausePart) : Prop := ∃ j rest, ps = (Piece.joiner j).part :: rest

theorem not_continues_nil : ¬ Continues [] := by
  rintro ⟨j, rest, h⟩
  cases h

theorem not_continues_close (ps : List ClausePart) : ¬ Continues (.closeGroup :: ps) := by
  rintro ⟨j, rest, h⟩
  cases j <;> cases h

theorem operandRest_of_not_continues {ps : List ClausePart} (h : ¬ Continues ps) :
    operandRest ps = .ok ps := by
  rw [operandRest, afterOperand.eq_def]
  split
  · exact absurd ⟨.and, _, rfl⟩ h
  · exact absurd ⟨.or, _, rfl⟩ h
  · rfl

/-! ### What a chain is written with is accepted -/

mutual

theorem chainRest_parts (c : Chain Term) {tail : List ClausePart} (h : ¬ Continues tail) :
    chainRest (c.parts ++ tail) = .ok tail := by
  cases c with
  | last o =>
      rw [Chain.parts_last, chainRest_operand o]
      exact operandRest_of_not_continues h
  | join o j rest =>
      rw [Chain.parts_join, List.append_assoc, List.cons_append, chainRest_operand o,
        operandRest_joiner]
      exact chainRest_parts rest h

theorem chainRest_operand (o : Operand Term) (tail : List ClausePart) :
    chainRest (o.parts ++ tail) = operandRest tail := by
  cases o with
  | leaf t => exact chainRest_term t tail
  | group c =>
      rw [Operand.parts_group, List.cons_append, List.append_assoc, List.singleton_append,
        chainRest_open, chainRest_parts c (not_continues_close tail)]
      rfl

end

/-! ### What is accepted is a chain -/

mutual

theorem exists_chain_of_chainRest {ps r : List ClausePart} (h : chainRest ps = .ok r) :
    ∃ c : Chain Term, ps = c.parts ++ r ∧ ¬ Continues r := by
  match ps with
  | [] =>
      rw [chainRest_nil] at h
      cases h
  | .term t :: rest =>
      rw [chainRest_term] at h
      rcases exists_chain_of_operandRest h with ⟨rfl, hr⟩ | ⟨j, c, rfl, hr⟩
      · exact ⟨.last (.leaf t), rfl, hr⟩
      · exact ⟨.join (.leaf t) j c, by rw [Chain.parts_join]; rfl, hr⟩
  | .openGroup :: rest =>
      rw [chainRest_open] at h
      cases hinside : chainRest rest with
      | error e =>
          rw [hinside] at h
          cases h
      | ok inside =>
          rw [hinside] at h
          obtain ⟨group, hgroup, -⟩ := exists_chain_of_chainRest hinside
          match inside with
          | [] => cases h
          | .term _ :: _ => cases h
          | .and :: _ => cases h
          | .or :: _ => cases h
          | .openGroup :: _ => cases h
          | .closeGroup :: after =>
              have hshort : after.length < rest.length := by
                rw [hgroup, List.length_append, List.length_cons]
                omega
              have hafter : operandRest after = .ok r := h
              rcases exists_chain_of_operandRest hafter with ⟨rfl, hr⟩ | ⟨j, c, rfl, hr⟩
              · exact ⟨.last (.group group), by simp [Chain.parts_last, Operand.parts_group, hgroup], hr⟩
              · exact ⟨.join (.group group) j c, by
                  simp [Chain.parts_join, Operand.parts_group, hgroup], hr⟩
  | .and :: rest =>
      rw [chainRest, afterChain] at h
      · cases h
      all_goals simp
  | .or :: rest =>
      rw [chainRest, afterChain] at h
      · cases h
      all_goals simp
  | .closeGroup :: rest =>
      rw [chainRest, afterChain] at h
      · cases h
      all_goals simp
termination_by (ps.length, 0)

theorem exists_chain_of_operandRest {ps r : List ClausePart} (h : operandRest ps = .ok r) :
    (ps = r ∧ ¬ Continues r) ∨
      ∃ (j : Joiner) (c : Chain Term), ps = (Piece.joiner j).part :: (c.parts ++ r) ∧ ¬ Continues r := by
  by_cases hps : Continues ps
  · obtain ⟨j, rest, rfl⟩ := hps
    rw [operandRest_joiner] at h
    obtain ⟨c, rfl, hr⟩ := exists_chain_of_chainRest h
    exact Or.inr ⟨j, c, rfl, hr⟩
  · rw [operandRest_of_not_continues hps] at h
    cases h
    exact Or.inl ⟨rfl, hps⟩
termination_by (ps.length, 1)

end

end ClausePart

namespace Clause

theorem ofParts_eq_ok_iff {ps : List ClausePart} {c : Clause} :
    ofParts ps = .ok c ↔ ClausePart.chainRest ps = .ok [] ∧ c.parts = ps := by
  rw [ofParts, ClausePart.chainRest]
  obtain ⟨cps⟩ := c
  cases ClausePart.afterChain ps with
  | error e => simp [Except.map]
  | ok r =>
      obtain ⟨r, hr⟩ := r
      cases r with
      | nil => simp [Except.map, eq_comm]
      | cons p rest => simp [Except.map]

theorem ofParts_parts (tree : Chain Term) : ofParts tree.parts = .ok ⟨tree.parts⟩ := by
  refine ofParts_eq_ok_iff.2 ⟨?_, rfl⟩
  simpa using ClausePart.chainRest_parts tree ClausePart.not_continues_nil

/-- An accepted clause is written with the pieces of some chain. -/
theorem exists_tree {ps : List ClausePart} {c : Clause} (h : ofParts ps = .ok c) :
    c.parts = ps ∧ ∃ tree : Chain Term, tree.parts = ps := by
  obtain ⟨hrest, hparts⟩ := ofParts_eq_ok_iff.1 h
  obtain ⟨tree, htree, -⟩ := ClausePart.exists_chain_of_chainRest hrest
  exact ⟨hparts, tree, by rw [htree, List.append_nil]⟩

end Clause
end TableQuery
