import TableQuery.Error
import TableQuery.Dict
import TableQuery.Value.Order

/-! Clauses: which sequences of parts are one, and what a clause says about a row. Groups are resolved
while evaluating, innermost first, until one chain without groups is left. -/
namespace TableQuery

abbrev Row := Dict Value

/-- How a chain of `AND` and `OR` without groups is read. -/
inductive ChainMode
  | sequential | precedence
  deriving DecidableEq

/-- Whether the row's field stands in the relation to the term's value. A field that the row lacks
equals null and nothing else, and is in no order. -/
def Term.matches (t : Term) (row : Row) : Bool :=
  match row.get? t.field with
  | none =>
    match t.op with
    | .eq => t.value.isNull
    | .ne => !t.value.isNull
    | _ => false
  | some value =>
    match t.op with
    | .eq => value.looseEq t.value
    | .ne => !value.looseEq t.value
    | op => op.accepts (value.looseCompare? t.value)

namespace ClausePart

mutual

/-- What follows the chain at the start of the parts: operands joined by `AND` and `OR`. -/
def afterChain (ps : List ClausePart) :
    Except SyntaxFault { r : List ClausePart // r.length < ps.length } :=
  match ps with
  | .term _ :: rest =>
    match afterOperand rest with
    | .ok ⟨r, h⟩ => .ok ⟨r, Nat.lt_succ_of_le h⟩
    | .error e => .error e
  | .openGroup :: rest =>
    match afterChain rest with
    | .ok ⟨.closeGroup :: after, h⟩ =>
      have hafter : after.length < rest.length := Nat.lt_of_succ_lt h
      match afterOperand after with
      | .ok ⟨r, h'⟩ => .ok ⟨r, Nat.lt_succ_of_lt (Nat.lt_of_le_of_lt h' hafter)⟩
      | .error e => .error e
    | .ok _ => .error .unbalanced
    | .error e => .error e
  | other :: _ => .error (.expectedComparison other)
  | [] => .error .incompleteClause
termination_by (ps.length, 0)

/-- What follows the rest of a chain, after one of its operands. -/
def afterOperand (ps : List ClausePart) :
    Except SyntaxFault { r : List ClausePart // r.length ≤ ps.length } :=
  match ps with
  | .and :: rest =>
    match afterChain rest with
    | .ok ⟨r, h⟩ => .ok ⟨r, Nat.le_of_lt (Nat.lt_succ_of_lt h)⟩
    | .error e => .error e
  | .or :: rest =>
    match afterChain rest with
    | .ok ⟨r, h⟩ => .ok ⟨r, Nat.le_of_lt (Nat.lt_succ_of_lt h)⟩
    | .error e => .error e
  | ps => .ok ⟨ps, Nat.le_refl _⟩
termination_by (ps.length, 1)

end

end ClausePart

/-- A clause: parts that form one chain. -/
structure Clause where
  parts : List ClausePart
  deriving DecidableEq

namespace Clause

/-- Accepts the parts that form one chain with nothing after it. -/
def ofParts (parts : List ClausePart) : Except SyntaxFault Clause :=
  match ClausePart.afterChain parts with
  | .error e => .error e
  | .ok ⟨other :: _, _⟩ => .error (.notInClause other)
  | .ok ⟨[], _⟩ => .ok ⟨parts⟩

/-- A part during evaluation: a group that has been resolved is its truth value. -/
inductive Slot
  | term (t : Term)
  | resolved (b : Bool)
  | and | or | openGroup | closeGroup
  deriving DecidableEq

def Slot.ofPart : ClausePart → Slot
  | .term t => .term t
  | .and => .and
  | .or => .or
  | .openGroup => .openGroup
  | .closeGroup => .closeGroup

def Slot.truth (row : Row) : Slot → Bool
  | .term t => t.matches row
  | .resolved b => b
  | _ => false

/-- Left to right: the first operand whose value, with the operator after it, settles the outcome. -/
def evalSequential (row : Row) : List Slot → Bool
  | [] => false
  | s :: rest =>
    match s.truth row, rest with
    | true, [] => true
    | true, .or :: _ => true
    | false, [] => false
    | false, .and :: _ => false
    | _, _ :: rest => evalSequential row rest

/-- `AND` before `OR`: whether some group of operands joined by `AND` holds throughout. `group` says
whether the group so far does. -/
def evalPrecedence (row : Row) (group : Bool) : List Slot → Bool
  | [] => group
  | [s] => group && s.truth row
  | s :: .or :: rest => (group && s.truth row) || evalPrecedence row true rest
  | s :: _ :: rest => evalPrecedence row (group && s.truth row) rest

def evalChain (mode : ChainMode) (row : Row) (slots : List Slot) : Bool :=
  match mode with
  | .sequential => evalSequential row slots
  | .precedence => evalPrecedence row true slots

/-- The slots before and after the last opening parenthesis. -/
def splitLastOpen : List Slot → Option (List Slot × List Slot)
  | [] => none
  | s :: rest =>
    match splitLastOpen rest with
    | some (before, after) => some (s :: before, after)
    | none => if s = .openGroup then some ([], rest) else none

/-- The slots before and after the first closing parenthesis. -/
def splitFirstClose : List Slot → Option (List Slot × List Slot)
  | [] => none
  | s :: rest =>
    if s = .closeGroup then some ([], rest)
    else (splitFirstClose rest).map fun p => (s :: p.1, p.2)

theorem length_splitLastOpen {slots before after : List Slot}
    (h : splitLastOpen slots = some (before, after)) :
    before.length + after.length + 1 = slots.length := by
  induction slots generalizing before with
  | nil => simp [splitLastOpen] at h
  | cons s rest ih =>
      simp only [splitLastOpen] at h
      split at h
      next b a hs =>
        simp only [Option.some.injEq, Prod.mk.injEq] at h
        have := ih (h.2 ▸ hs)
        simp only [← h.1, List.length_cons]
        omega
      · split at h
        · simp only [Option.some.injEq, Prod.mk.injEq] at h
          simp [← h.1, ← h.2]
        · simp at h

theorem length_splitFirstClose {slots inside after : List Slot}
    (h : splitFirstClose slots = some (inside, after)) :
    inside.length + after.length + 1 = slots.length := by
  induction slots generalizing inside with
  | nil => simp [splitFirstClose] at h
  | cons s rest ih =>
      simp only [splitFirstClose] at h
      split at h
      · simp only [Option.some.injEq, Prod.mk.injEq] at h
        simp [← h.1, ← h.2]
      · obtain ⟨⟨i, a⟩, hs, he⟩ := Option.map_eq_some_iff.1 h
        simp only [Prod.mk.injEq] at he
        have := ih (he.2 ▸ hs)
        simp only [← he.1, List.length_cons]
        omega

/-- The last group to open, which has no group inside, with the slots before and after it. -/
def innermost? (slots : List Slot) : Option (List Slot × List Slot × List Slot) :=
  match splitLastOpen slots with
  | none => none
  | some (before, rest) => (splitFirstClose rest).map fun p => (before, p.1, p.2)

theorem length_innermost? {slots before inside after : List Slot}
    (h : innermost? slots = some (before, inside, after)) :
    before.length + inside.length + after.length + 2 = slots.length := by
  unfold innermost? at h
  split at h
  · simp at h
  next b rest hb =>
    obtain ⟨⟨i, a⟩, hi, he⟩ := Option.map_eq_some_iff.1 h
    simp only [Prod.mk.injEq] at he
    obtain ⟨rfl, rfl, rfl⟩ := he
    have h1 := length_splitLastOpen hb
    have h2 := length_splitFirstClose hi
    omega

/-- Replaces one group after the other by its truth value, always the last one to open, and evaluates
the chain that is left. -/
def resolve (mode : ChainMode) (row : Row) (slots : List Slot) : Bool :=
  match h : innermost? slots with
  | none => evalChain mode row slots
  | some (before, inside, after) =>
    have := length_innermost? h
    resolve mode row (before ++ .resolved (evalChain mode row inside) :: after)
termination_by slots.length
decreasing_by simp only [List.length_append, List.length_cons]; omega

/-- Whether the clause holds of a row. -/
def holds (c : Clause) (row : Row) (mode : ChainMode) : Bool :=
  resolve mode row (c.parts.map Slot.ofPart)

end Clause
end TableQuery
