import TableQuery.Clause.Evaluate

/-! The trees of clauses. A chain joins operands by `AND` and `OR`, and an operand is a comparison or
a chain in parentheses. Here are the pieces in which a chain is written, which determine it, and what
a chain of terms says about a row, by recursion on the tree. -/

namespace TableQuery

inductive Joiner
  | and | or
  deriving DecidableEq

mutual

/-- Operands joined by `AND` and `OR`; an `α` stands for each comparison. -/
inductive Chain (α : Type)
  | last (o : Operand α)
  | join (o : Operand α) (j : Joiner) (rest : Chain α)

/-- A comparison, or a chain in parentheses. -/
inductive Operand (α : Type)
  | leaf (a : α)
  | group (c : Chain α)

end

/-- What a chain is written with, a comparison being one piece. -/
inductive Piece (α : Type)
  | leaf (a : α)
  | joiner (j : Joiner)
  | openGroup | closeGroup

def Piece.map {α β : Type} (f : α → β) : Piece α → Piece β
  | .leaf a => .leaf (f a)
  | .joiner j => .joiner j
  | .openGroup => .openGroup
  | .closeGroup => .closeGroup

mutual

/-- The pieces of a chain from left to right. -/
def Chain.pieces {α : Type} : Chain α → List (Piece α)
  | .last o => o.pieces
  | .join o j rest => o.pieces ++ .joiner j :: rest.pieces

def Operand.pieces {α : Type} : Operand α → List (Piece α)
  | .leaf a => [.leaf a]
  | .group c => .openGroup :: (c.pieces ++ [.closeGroup])

end

mutual

def Chain.map {α β : Type} (f : α → β) : Chain α → Chain β
  | .last o => .last (o.map f)
  | .join o j rest => .join (o.map f) j (rest.map f)

def Operand.map {α β : Type} (f : α → β) : Operand α → Operand β
  | .leaf a => .leaf (f a)
  | .group c => .group (c.map f)

end

variable {α β : Type}

mutual

theorem Chain.pieces_map (f : α → β) (c : Chain α) :
    (c.map f).pieces = c.pieces.map (Piece.map f) := by
  cases c with
  | last o => exact o.pieces_map f
  | join o j rest =>
      rw [Chain.map, Chain.pieces, Chain.pieces, Operand.pieces_map f o, Chain.pieces_map f rest,
        List.map_append, List.map_cons]
      rfl

theorem Operand.pieces_map (f : α → β) (o : Operand α) :
    (o.map f).pieces = o.pieces.map (Piece.map f) := by
  cases o with
  | leaf a => rfl
  | group c =>
      rw [Operand.map, Operand.pieces, Operand.pieces, Chain.pieces_map f c, List.map_cons,
        List.map_append]
      rfl

end

mutual

theorem Chain.map_map {γ : Type} (f : α → β) (g : β → γ) (c : Chain α) :
    (c.map f).map g = c.map (g ∘ f) := by
  cases c with
  | last o => exact congrArg Chain.last (o.map_map f g)
  | join o j rest =>
      rw [Chain.map, Chain.map, Chain.map, Operand.map_map f g o, Chain.map_map f g rest]

theorem Operand.map_map {γ : Type} (f : α → β) (g : β → γ) (o : Operand α) :
    (o.map f).map g = o.map (g ∘ f) := by
  cases o with
  | leaf a => rfl
  | group c => exact congrArg Operand.group (c.map_map f g)

end

mutual

theorem Chain.map_id (c : Chain α) : c.map id = c := by
  cases c with
  | last o => exact congrArg Chain.last o.map_id
  | join o j rest => rw [Chain.map, Operand.map_id o, Chain.map_id rest]

theorem Operand.map_id (o : Operand α) : o.map id = o := by
  cases o with
  | leaf a => rfl
  | group c => exact congrArg Operand.group c.map_id

end

mutual

/-- A chain whose pieces come from others comes from a chain that is written with those. -/
theorem Chain.exists_of_pieces_eq_map {f : α → β} {ps : List (Piece α)} {c : Chain β}
    (h : c.pieces = ps.map (Piece.map f)) : ∃ origin : Chain α, origin.pieces = ps ∧ origin.map f = c := by
  cases c with
  | last o =>
      obtain ⟨origin, hpieces, hmap⟩ := Operand.exists_of_pieces_eq_map h
      exact ⟨.last origin, hpieces, congrArg Chain.last hmap⟩
  | join o j rest =>
      obtain ⟨left, right, rfl, hleft, hright⟩ := List.map_eq_append_iff.1 h.symm
      obtain ⟨p, tail, rfl, hp, htail⟩ := List.map_eq_cons_iff.1 hright
      obtain ⟨first, rfl, rfl⟩ := Operand.exists_of_pieces_eq_map hleft.symm
      obtain ⟨others, rfl, rfl⟩ := Chain.exists_of_pieces_eq_map htail.symm
      cases p with
      | joiner j' =>
          cases hp
          exact ⟨.join first j others, rfl, rfl⟩
      | _ => cases hp

theorem Operand.exists_of_pieces_eq_map {f : α → β} {ps : List (Piece α)} {o : Operand β}
    (h : o.pieces = ps.map (Piece.map f)) :
    ∃ origin : Operand α, origin.pieces = ps ∧ origin.map f = o := by
  cases o with
  | leaf b =>
      obtain ⟨p, tail, rfl, hp, htail⟩ := List.map_eq_cons_iff.1 h.symm
      rw [List.map_eq_nil_iff.1 htail]
      cases p with
      | leaf a =>
          cases hp
          exact ⟨.leaf a, rfl, rfl⟩
      | _ => cases hp
  | group c =>
      obtain ⟨p, tail, rfl, hp, htail⟩ := List.map_eq_cons_iff.1 h.symm
      obtain ⟨inside, right, rfl, hinside, hright⟩ := List.map_eq_append_iff.1 htail
      obtain ⟨q, nothing, rfl, hq, hnothing⟩ := List.map_eq_cons_iff.1 hright
      rw [List.map_eq_nil_iff.1 hnothing]
      obtain ⟨origin, rfl, rfl⟩ := Chain.exists_of_pieces_eq_map hinside.symm
      cases p with
      | openGroup =>
          cases q with
          | closeGroup => exact ⟨.group origin, rfl, rfl⟩
          | _ => cases hq
      | _ => cases hp

end

/-! ### The pieces determine the chain

A chain goes on as long as an operator follows, so what stands behind it must not begin with one. -/

/-- Whether the pieces go on with another operand of a chain. -/
def Piece.Continues (ps : List (Piece α)) : Prop := ∃ j rest, ps = .joiner j :: rest

theorem Piece.not_continues_nil : ¬ Piece.Continues ([] : List (Piece α)) := by
  rintro ⟨j, rest, h⟩
  cases h

theorem Piece.not_continues_close (ps : List (Piece α)) : ¬ Piece.Continues (.closeGroup :: ps) := by
  rintro ⟨j, rest, h⟩
  cases h

mutual

theorem Chain.pieces_append_inj {c c' : Chain α} {r r' : List (Piece α)}
    (hr : ¬ Piece.Continues r) (hr' : ¬ Piece.Continues r')
    (h : c.pieces ++ r = c'.pieces ++ r') : c = c' ∧ r = r' := by
  cases c with
  | last o =>
      cases c' with
      | last o' =>
          obtain ⟨rfl, hrest⟩ := Operand.pieces_append_inj h
          exact ⟨rfl, hrest⟩
      | join o' j' rest' =>
          simp only [Chain.pieces, List.append_assoc, List.cons_append] at h
          exact absurd ⟨j', _, (Operand.pieces_append_inj h).2⟩ hr
  | join o j rest =>
      cases c' with
      | last o' =>
          simp only [Chain.pieces, List.append_assoc, List.cons_append] at h
          exact absurd ⟨j, _, (Operand.pieces_append_inj h).2.symm⟩ hr'
      | join o' j' rest' =>
          simp only [Chain.pieces, List.append_assoc, List.cons_append] at h
          obtain ⟨rfl, htail⟩ := Operand.pieces_append_inj h
          obtain ⟨hj, hrest⟩ := List.cons.inj htail
          cases hj
          obtain ⟨rfl, hend⟩ := Chain.pieces_append_inj hr hr' hrest
          exact ⟨rfl, hend⟩

theorem Operand.pieces_append_inj {o o' : Operand α} {r r' : List (Piece α)}
    (h : o.pieces ++ r = o'.pieces ++ r') : o = o' ∧ r = r' := by
  cases o with
  | leaf a =>
      cases o' with
      | leaf a' =>
          obtain ⟨ha, hrest⟩ := List.cons.inj h
          cases ha
          exact ⟨rfl, hrest⟩
      | group c' => cases (List.cons.inj h).1
  | group c =>
      cases o' with
      | leaf a' => cases (List.cons.inj h).1
      | group c' =>
          simp only [Operand.pieces, List.cons_append, List.append_assoc, List.nil_append] at h
          obtain ⟨rfl, hrest⟩ := Chain.pieces_append_inj (Piece.not_continues_close r)
            (Piece.not_continues_close r') (List.cons.inj h).2
          exact ⟨rfl, (List.cons.inj hrest).2⟩

end

theorem Chain.pieces_injective {c c' : Chain α} (h : c.pieces = c'.pieces) : c = c' := by
  have hnil : c.pieces ++ [] = c'.pieces ++ [] := by rw [h]
  exact (Chain.pieces_append_inj Piece.not_continues_nil Piece.not_continues_nil hnil).1

/-! ### The meaning of a chain of terms -/

/-- Truth values joined by `AND` and `OR`. -/
inductive Links
  | last (b : Bool)
  | join (b : Bool) (j : Joiner) (rest : Links)

namespace Links

/-- From the right: each value is joined with what the rest amounts to. -/
def sequential : Links → Bool
  | .last b => b
  | .join b .and rest => b && rest.sequential
  | .join b .or rest => b || rest.sequential

/-- The longest runs of values joined by `AND`. -/
def andGroups : Links → List (List Bool)
  | .last b => [[b]]
  | .join b .or rest => [b] :: rest.andGroups
  | .join b .and rest =>
    match rest.andGroups with
    | [] => [[b]]
    | group :: groups => (b :: group) :: groups

/-- Whether every value of some run joined by `AND` is true. -/
def precedence (l : Links) : Bool := l.andGroups.any fun group => group.all id

def read (mode : ChainMode) (l : Links) : Bool :=
  match mode with
  | .sequential => l.sequential
  | .precedence => l.precedence

end Links

mutual

/-- The truth values of the operands, groups already resolved. -/
def Chain.truths (mode : ChainMode) (row : Row) : Chain Term → Links
  | .last o => .last (o.value mode row)
  | .join o j rest => .join (o.value mode row) j (rest.truths mode row)

/-- Whether an operand holds of a row. -/
def Operand.value (mode : ChainMode) (row : Row) : Operand Term → Bool
  | .leaf t => t.matches row
  | .group c => (c.truths mode row).read mode

end

/-- Whether a chain holds of a row, in every group by the same reading. -/
def Chain.value (mode : ChainMode) (row : Row) (c : Chain Term) : Bool := (c.truths mode row).read mode

end TableQuery
