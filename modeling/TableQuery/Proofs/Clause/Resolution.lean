import TableQuery.Proofs.Clause.Acceptance

/-! Evaluating a clause gives the value of its tree. The groups of a chain are resolved from its last
one to its first, each only when nothing behind it opens a group, so that the front of the slots does
not matter: wherever the chain stands, resolving goes on as if its operands were their values. -/

namespace TableQuery

def Piece.slot : Piece Term → Clause.Slot
  | .leaf t => .term t
  | .joiner .and => .and
  | .joiner .or => .or
  | .openGroup => .openGroup
  | .closeGroup => .closeGroup

theorem Piece.ofPart_part (p : Piece Term) : Clause.Slot.ofPart p.part = p.slot := by
  cases p with
  | joiner j => cases j <;> rfl
  | _ => rfl

def Chain.slots (c : Chain Term) : List Clause.Slot := c.pieces.map Piece.slot

def Operand.slots (o : Operand Term) : List Clause.Slot := o.pieces.map Piece.slot

theorem Chain.map_ofPart_parts (c : Chain Term) : c.parts.map Clause.Slot.ofPart = c.slots := by
  rw [Chain.parts, List.map_map]
  exact List.map_congr_left fun p _ => p.ofPart_part

theorem Chain.slots_join (o : Operand Term) (j : Joiner) (rest : Chain Term) :
    (Chain.join o j rest).slots = o.slots ++ (Piece.joiner j).slot :: rest.slots := by
  rw [Chain.slots, Chain.pieces, List.map_append, List.map_cons]
  rfl

theorem Operand.slots_group (c : Chain Term) :
    (Operand.group c).slots = .openGroup :: (c.slots ++ [.closeGroup]) := by
  rw [Operand.slots, Operand.pieces, List.map_cons, List.map_append]
  rfl

namespace Clause

/-! ### The last group to open -/

theorem splitLastOpen_eq_none {slots : List Slot} (h : .openGroup ∉ slots) :
    splitLastOpen slots = none := by
  induction slots with
  | nil => rfl
  | cons s rest ih =>
      rw [List.mem_cons, not_or] at h
      rw [splitLastOpen, ih h.2]
      exact if_neg (Ne.symm h.1)

theorem splitLastOpen_append {before rest : List Slot} (h : .openGroup ∉ rest) :
    splitLastOpen (before ++ .openGroup :: rest) = some (before, rest) := by
  induction before with
  | nil =>
      rw [List.nil_append, splitLastOpen, splitLastOpen_eq_none h]
      rfl
  | cons s before ih => rw [List.cons_append, splitLastOpen, ih]

theorem splitFirstClose_append {inside after : List Slot} (h : .closeGroup ∉ inside) :
    splitFirstClose (inside ++ .closeGroup :: after) = some (inside, after) := by
  induction inside with
  | nil => rfl
  | cons s inside ih =>
      rw [List.mem_cons, not_or] at h
      rw [List.cons_append, splitFirstClose, if_neg (Ne.symm h.1), ih h.2]
      rfl

theorem innermost?_eq_none {slots : List Slot} (h : .openGroup ∉ slots) : innermost? slots = none := by
  rw [innermost?, splitLastOpen_eq_none h]

/-- A group with no other one inside, and none that opens behind it, is the one to resolve. -/
theorem innermost?_group {before inside after : List Slot} (hopen : .openGroup ∉ inside)
    (hclose : .closeGroup ∉ inside) (hafter : .openGroup ∉ after) :
    innermost? (before ++ .openGroup :: (inside ++ .closeGroup :: after)) =
      some (before, inside, after) := by
  have hrest : .openGroup ∉ inside ++ .closeGroup :: after := by
    simp [hopen, hafter]
  simp only [innermost?, splitLastOpen_append hrest, splitFirstClose_append hclose, Option.map_some]

/-! ### One slot of a chain at a time -/

theorem evalSequential_last (row : Row) (s : Slot) : evalSequential row [s] = s.truth row := by
  cases h : s.truth row <;> simp [evalSequential, h]

theorem evalSequential_and (row : Row) (s : Slot) (rest : List Slot) :
    evalSequential row (s :: .and :: rest) = (s.truth row && evalSequential row rest) := by
  cases h : s.truth row <;> simp [evalSequential, h]

theorem evalSequential_or (row : Row) (s : Slot) (rest : List Slot) :
    evalSequential row (s :: .or :: rest) = (s.truth row || evalSequential row rest) := by
  cases h : s.truth row <;> simp [evalSequential, h]

theorem evalPrecedence_and (row : Row) (group : Bool) (s : Slot) (rest : List Slot) :
    evalPrecedence row group (s :: .and :: rest) = evalPrecedence row (group && s.truth row) rest := rfl

theorem evalPrecedence_or (row : Row) (group : Bool) (s : Slot) (rest : List Slot) :
    evalPrecedence row group (s :: .or :: rest) =
      (group && s.truth row || evalPrecedence row true rest) := rfl

variable (mode : ChainMode) (row : Row)

theorem resolve_of_none {slots : List Slot} (h : innermost? slots = none) :
    resolve mode row slots = evalChain mode row slots := by
  rw [resolve]
  split
  · rfl
  next hs => rw [h] at hs; cases hs

theorem resolve_of_some {slots before inside after : List Slot}
    (h : innermost? slots = some (before, inside, after)) :
    resolve mode row slots =
      resolve mode row (before ++ .resolved (evalChain mode row inside) :: after) := by
  rw [resolve]
  split
  next hs => rw [h] at hs; cases hs
  next hs =>
    rw [h] at hs
    cases hs
    rfl

end Clause

/-! ### A chain whose groups are resolved -/

section

variable (mode : ChainMode) (row : Row)

/-- The slot that is left of an operand: a comparison stays, a group becomes its value. -/
def Operand.settled : Operand Term → Clause.Slot
  | .leaf t => .term t
  | .group c => .resolved (c.value mode row)

def Chain.settled : Chain Term → List Clause.Slot
  | .last o => [o.settled mode row]
  | .join o j rest => o.settled mode row :: (Piece.joiner j).slot :: rest.settled

theorem Operand.truth_settled (o : Operand Term) :
    (o.settled mode row).truth row = o.value mode row := by
  cases o <;> rfl

theorem Operand.settled_ne_open (o : Operand Term) : o.settled mode row ≠ .openGroup := by
  cases o <;> exact Clause.Slot.noConfusion

theorem Operand.settled_ne_close (o : Operand Term) : o.settled mode row ≠ .closeGroup := by
  cases o <;> exact Clause.Slot.noConfusion

theorem Chain.open_not_mem_settled (c : Chain Term) : .openGroup ∉ c.settled mode row := by
  match c with
  | .last o => simpa [Chain.settled] using (o.settled_ne_open mode row).symm
  | .join o j rest =>
      have ho := (o.settled_ne_open mode row).symm
      have hrest := rest.open_not_mem_settled
      cases j <;> simp [Chain.settled, Piece.slot, ho, hrest]

theorem Chain.close_not_mem_settled (c : Chain Term) : .closeGroup ∉ c.settled mode row := by
  match c with
  | .last o => simpa [Chain.settled] using (o.settled_ne_close mode row).symm
  | .join o j rest =>
      have ho := (o.settled_ne_close mode row).symm
      have hrest := rest.close_not_mem_settled
      cases j <;> simp [Chain.settled, Piece.slot, ho, hrest]

theorem Chain.evalSequential_settled (c : Chain Term) :
    Clause.evalSequential row (c.settled mode row) = (c.truths mode row).sequential := by
  match c with
  | .last o =>
      rw [Chain.settled, Clause.evalSequential_last, o.truth_settled]
      rfl
  | .join o .and rest =>
      rw [Chain.settled, Piece.slot, Clause.evalSequential_and, o.truth_settled,
        rest.evalSequential_settled]
      rfl
  | .join o .or rest =>
      rw [Chain.settled, Piece.slot, Clause.evalSequential_or, o.truth_settled,
        rest.evalSequential_settled]
      rfl

/-- `group` goes into the first run of operands joined by `AND`. -/
theorem Chain.evalPrecedence_settled (c : Chain Term) (group : Bool) :
    ∃ first others, (c.truths mode row).andGroups = first :: others ∧
      Clause.evalPrecedence row group (c.settled mode row) =
        (group && first.all id || others.any fun g => g.all id) := by
  match c with
  | .last o =>
      refine ⟨[o.value mode row], [], rfl, ?_⟩
      simp [Chain.settled, Clause.evalPrecedence, o.truth_settled]
  | .join o .and rest =>
      obtain ⟨first, others, hgroups, heval⟩ :=
        rest.evalPrecedence_settled (group && o.value mode row)
      refine ⟨o.value mode row :: first, others, ?_, ?_⟩
      · rw [Chain.truths, Links.andGroups, hgroups]
      · rw [Chain.settled, Piece.slot, Clause.evalPrecedence_and, o.truth_settled, heval,
          List.all_cons, id, Bool.and_assoc]
  | .join o .or rest =>
      obtain ⟨first, others, hgroups, heval⟩ := rest.evalPrecedence_settled true
      refine ⟨[o.value mode row], first :: others, ?_, ?_⟩
      · rw [Chain.truths, Links.andGroups, hgroups]
      · rw [Chain.settled, Piece.slot, Clause.evalPrecedence_or, o.truth_settled, heval,
          List.any_cons, Bool.true_and]
        simp

theorem Chain.evalChain_settled (c : Chain Term) :
    Clause.evalChain mode row (c.settled mode row) = c.value mode row := by
  cases mode with
  | sequential => exact c.evalSequential_settled .sequential row
  | precedence =>
      obtain ⟨first, others, hgroups, heval⟩ := c.evalPrecedence_settled .precedence row true
      rw [Clause.evalChain, heval, Chain.value, Links.read, Links.precedence, hgroups, List.any_cons,
        Bool.true_and]

/-! ### Resolution -/

mutual

theorem Chain.resolve_slots (c : Chain Term) {before after : List Clause.Slot}
    (hafter : .openGroup ∉ after) :
    Clause.resolve mode row (before ++ c.slots ++ after) =
      Clause.resolve mode row (before ++ c.settled mode row ++ after) := by
  match c with
  | .last o => exact Operand.resolve_slots o hafter
  | .join o j rest =>
      -- the rest first: the groups of the operand are the last ones only when it has none left
      have hrest : .openGroup ∉ (Piece.joiner j).slot :: rest.settled mode row ++ after := by
        have hmem := rest.open_not_mem_settled mode row
        cases j <;> simp [Piece.slot, hmem, hafter]
      calc Clause.resolve mode row (before ++ (Chain.join o j rest).slots ++ after)
          = Clause.resolve mode row
              ((before ++ o.slots ++ [(Piece.joiner j).slot]) ++ rest.slots ++ after) := by
            simp only [Chain.slots_join, List.append_assoc, List.cons_append, List.nil_append]
        _ = Clause.resolve mode row
              ((before ++ o.slots ++ [(Piece.joiner j).slot]) ++ rest.settled mode row ++ after) :=
            Chain.resolve_slots rest hafter
        _ = Clause.resolve mode row
              (before ++ o.slots ++ ((Piece.joiner j).slot :: rest.settled mode row ++ after)) := by
            simp only [List.append_assoc, List.cons_append, List.nil_append]
        _ = Clause.resolve mode row (before ++ [o.settled mode row] ++
              ((Piece.joiner j).slot :: rest.settled mode row ++ after)) :=
            Operand.resolve_slots o hrest
        _ = Clause.resolve mode row (before ++ (Chain.join o j rest).settled mode row ++ after) := by
            simp only [Chain.settled, List.append_assoc, List.cons_append, List.nil_append]

theorem Operand.resolve_slots (o : Operand Term) {before after : List Clause.Slot}
    (hafter : .openGroup ∉ after) :
    Clause.resolve mode row (before ++ o.slots ++ after) =
      Clause.resolve mode row (before ++ [o.settled mode row] ++ after) := by
  match o with
  | .leaf t => rfl
  | .group c =>
      have hclose : .openGroup ∉ Clause.Slot.closeGroup :: after := by simp [hafter]
      calc Clause.resolve mode row (before ++ (Operand.group c).slots ++ after)
          = Clause.resolve mode row
              ((before ++ [.openGroup]) ++ c.slots ++ .closeGroup :: after) := by
            simp only [Operand.slots_group, List.append_assoc, List.cons_append, List.nil_append]
        _ = Clause.resolve mode row
              ((before ++ [.openGroup]) ++ c.settled mode row ++ .closeGroup :: after) :=
            Chain.resolve_slots c hclose
        _ = Clause.resolve mode row
              (before ++ .openGroup :: (c.settled mode row ++ .closeGroup :: after)) := by
            simp only [List.append_assoc, List.cons_append, List.nil_append]
        _ = Clause.resolve mode row
              (before ++ .resolved (Clause.evalChain mode row (c.settled mode row)) :: after) :=
            Clause.resolve_of_some mode row (Clause.innermost?_group
              (c.open_not_mem_settled mode row) (c.close_not_mem_settled mode row) hafter)
        _ = Clause.resolve mode row (before ++ [(Operand.group c).settled mode row] ++ after) := by
            rw [c.evalChain_settled, List.append_assoc]
            rfl

end

theorem Chain.resolve_eq_value (c : Chain Term) :
    Clause.resolve mode row c.slots = c.value mode row := by
  have h : Clause.resolve mode row ([] ++ c.slots ++ []) =
      Clause.resolve mode row ([] ++ c.settled mode row ++ []) :=
    c.resolve_slots mode row List.not_mem_nil
  rw [List.nil_append, List.nil_append, List.append_nil, List.append_nil] at h
  rw [h, Clause.resolve_of_none mode row
    (Clause.innermost?_eq_none (c.open_not_mem_settled mode row)), c.evalChain_settled]

end

/-! ### The clause and its tree -/

theorem Clause.holds_parts (tree : Chain Term) (row : Row) (mode : ChainMode) :
    (⟨tree.parts⟩ : Clause).holds row mode = tree.value mode row := by
  rw [holds, tree.map_ofPart_parts, tree.resolve_eq_value]

/-- A clause of one comparison. -/
theorem Clause.holds_term (t : Term) (row : Row) (mode : ChainMode) :
    (⟨[.term t]⟩ : Clause).holds row mode = t.matches row := by
  have hvalue : (Chain.last (.leaf t)).value mode row = t.matches row := by
    cases mode with
    | sequential => rfl
    | precedence => simp [Chain.value, Chain.truths, Operand.value, Links.read, Links.precedence, Links.andGroups]
  exact (holds_parts (.last (.leaf t)) row mode).trans hvalue

/-- **The meaning of clauses.** The parts that form a clause are those that a chain of terms is written
with. There is then one such chain, and evaluating the clause gives its value, for every row and under
either reading. -/
theorem Clause.holds_eq_value (ps : List ClausePart) :
    ((∃ c, Clause.ofParts ps = .ok c) ↔ ∃ tree : Chain Term, tree.parts = ps) ∧
    ∀ c, Clause.ofParts ps = .ok c →
      ∃ tree : Chain Term, tree.parts = ps ∧ (∀ other : Chain Term, other.parts = ps → other = tree) ∧
        ∀ (row : Row) (mode : ChainMode), c.holds row mode = tree.value mode row := by
  refine ⟨⟨?_, ?_⟩, ?_⟩
  · rintro ⟨c, hc⟩
    exact (exists_tree hc).2
  · rintro ⟨tree, rfl⟩
    exact ⟨_, ofParts_parts tree⟩
  · intro c hc
    obtain ⟨hparts, tree, rfl⟩ := exists_tree hc
    refine ⟨tree, rfl, fun other hother => Chain.parts_injective hother, fun row mode => ?_⟩
    rw [Clause.holds, hparts, tree.map_ofPart_parts]
    exact tree.resolve_eq_value mode row

end TableQuery
