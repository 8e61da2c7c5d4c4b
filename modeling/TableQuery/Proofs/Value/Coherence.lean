import Mathlib
import TableQuery.Clause.Evaluate

/-! How the comparison operators fit together. Loose equality and loose order are told apart by cases of
their own, and a condition takes each operator from one of the two. They agree all the same: values are
equal exactly if neither or both are null and the order has them equal, so that a comparison of two values
that are not null is told by their order alone. -/

namespace TableQuery

namespace Binary64

variable {x y : Binary64}

theorem compare?_swap (x y : Binary64) : (x.compare? y).map Ordering.swap = y.compare? x := by
  have hswap : (compare x.key y.key).swap = compare y.key x.key := Std.OrientedOrd.eq_swap.symm
  rw [compare?, compare?, Bool.or_comm, apply_ite (Option.map Ordering.swap), Option.map_none,
    Option.map_some, hswap]

theorem compare?_eq_none_iff : x.compare? y = none ↔ x.isNaN ∨ y.isNaN := by
  rw [compare?, ← Bool.or_eq_true]
  split
  next h => simp only [h]
  next h => simp only [h, reduceCtorEq]

theorem numEq_iff : x.numEq y ↔ x.compare? y = some .eq := by
  rw [numEq, compare?]
  cases hx : x.isNaN with
  | true => simp only [Bool.not_true, Bool.false_and, Bool.false_eq_true, Bool.true_or, if_true, reduceCtorEq]
  | false =>
      cases hy : y.isNaN with
      | true => simp only [Bool.not_true, Bool.and_false, Bool.false_and, Bool.false_eq_true, Bool.or_true,
          if_true, reduceCtorEq]
      | false =>
          simp only [Bool.not_false, Bool.true_and, Bool.or_self, Bool.false_eq_true, if_false,
            Option.some_inj, beq_iff_eq, Std.LawfulEqCmp.compare_eq_iff_eq]

end Binary64

namespace Value

variable {v w : Value}

/-- Two texts, or two integers: the values that are ordered as they are, and not as numbers. -/
inductive OrderedAsSuch : Value → Value → Prop
  | text (s t : String) : OrderedAsSuch (.text s) (.text t)
  | int (m n : Int64) : OrderedAsSuch (.int m) (.int n)

theorem looseCompare?_of_not_orderedAsSuch (h : ¬ OrderedAsSuch v w) :
    v.looseCompare? w = v.toNumber.compare? w.toNumber := by
  cases v with
  | text s =>
      cases w with
      | text t => exact absurd (.text s t) h
      | _ => rfl
  | int m =>
      cases w with
      | int n => exact absurd (.int m n) h
      | _ => rfl
  | _ => rfl

theorem OrderedAsSuch.symm (h : OrderedAsSuch v w) : OrderedAsSuch w v := by
  cases h with
  | text s t => exact .text t s
  | int m n => exact .int n m

/-- The order of two values is the reverse of the other way round. -/
theorem looseCompare?_swap (v w : Value) : (v.looseCompare? w).map Ordering.swap = w.looseCompare? v := by
  by_cases h : OrderedAsSuch v w
  · cases h with
    | text s t => exact congrArg some Std.OrientedOrd.eq_swap.symm
    | int m n => exact congrArg some Std.OrientedOrd.eq_swap.symm
  · rw [looseCompare?_of_not_orderedAsSuch h, looseCompare?_of_not_orderedAsSuch (mt OrderedAsSuch.symm h),
      Binary64.compare?_swap]

theorem looseCompare?_eq_none_iff :
    v.looseCompare? w = none ↔ (v.toNumber.isNaN ∨ w.toNumber.isNaN) ∧ ¬ OrderedAsSuch v w := by
  by_cases h : OrderedAsSuch v w
  · have hsome : v.looseCompare? w ≠ none := by
      cases h with
      | text s t => exact Option.some_ne_none _
      | int m n => exact Option.some_ne_none _
    exact iff_of_false hsome fun hnone => hnone.2 h
  · rw [looseCompare?_of_not_orderedAsSuch h, Binary64.compare?_eq_none_iff, and_iff_left h]

/-- The numbers of the booleans are told apart. -/
theorem compare?_bool_iff (a b : Bool) :
    (Value.bool a).toNumber.compare? (Value.bool b).toNumber = some .eq ↔ a = b := by
  revert a b
  decide

/-- **Values are equal exactly if neither or both are null and the order has them equal.** -/
theorem looseEq_iff : v.looseEq w ↔ v.isNull = w.isNull ∧ v.looseCompare? w = some .eq := by
  by_cases hnull : v.isNull = w.isNull
  · rw [and_iff_right hnull]
    cases v with
    | null =>
        cases w with
        | null => exact iff_of_true rfl rfl
        | _ => cases hnull
    | bool a =>
        cases w with
        | null => cases hnull
        | bool b => exact beq_iff_eq.trans (compare?_bool_iff a b).symm
        | _ => exact Binary64.numEq_iff
    | int m =>
        cases w with
        | null => cases hnull
        | int n =>
            have horder : compare m.toInt n.toInt = .eq ↔ m = n :=
              Std.LawfulEqCmp.compare_eq_iff_eq.trans Int64.toInt_inj
            exact beq_iff_eq.trans (horder.symm.trans Option.some_inj.symm)
        | _ => exact Binary64.numEq_iff
    | float x =>
        cases w with
        | null => cases hnull
        | _ => exact Binary64.numEq_iff
    | text s =>
        cases w with
        | null => cases hnull
        | text t =>
            have horder : compare s t = .eq ↔ s = t := Std.LawfulEqCmp.compare_eq_iff_eq
            exact beq_iff_eq.trans (horder.symm.trans Option.some_inj.symm)
        | _ => exact Binary64.numEq_iff
  · refine iff_of_false (fun heq => hnull ?_) fun h => hnull h.1
    cases v <;> cases w <;> first | rfl | cases heq

theorem looseEq_comm (v w : Value) : v.looseEq w = w.looseEq v := by
  have hswap : v.looseCompare? w = some .eq ↔ w.looseCompare? v = some .eq := by
    rw [← looseCompare?_swap v w, Option.map_eq_some_iff]
    constructor
    · intro h
      exact ⟨.eq, h, rfl⟩
    · rintro ⟨o, h, ho⟩
      rw [h, Ordering.swap_eq_eq.1 ho]
  rw [Bool.eq_iff_iff, looseEq_iff, looseEq_iff, hswap, eq_comm]

end Value

/-! ### The operators -/

namespace Comparator

/-- Whether the comparator holds of two values that are not null, told by their order. -/
def tells (op : Comparator) (order : Option Ordering) : Bool :=
  match op with
  | .eq => order = some .eq
  | .ne => order ≠ some .eq
  | op => op.accepts order

/-- How the six comparators fit together on one pair of values; `unordered` says that the pair has no
order. -/
structure Coherent (holds : Comparator → Bool) (unordered : Prop) : Prop where
  eq_iff : holds .eq ↔ holds .le ∧ holds .ge
  ne_iff : holds .ne ↔ ¬ holds .eq
  le_iff : holds .le ↔ holds .lt ∨ holds .eq
  ge_iff : holds .ge ↔ holds .gt ∨ holds .eq
  /-- At most one of the three strict comparators holds. -/
  exclusive : ¬ (holds .lt ∧ holds .eq) ∧ ¬ (holds .lt ∧ holds .gt) ∧ ¬ (holds .eq ∧ holds .gt)
  /-- None of them holds exactly if there is no order. -/
  none_iff : ¬ holds .lt ∧ ¬ holds .eq ∧ ¬ holds .gt ↔ unordered

theorem coherent_tells (order : Option Ordering) : Coherent (tells · order) (order = none) := by
  rcases order with _ | (_ | _ | _) <;> constructor <;> decide

end Comparator

/-- A comparison of values that are not null is told by their order. -/
theorem Term.matches_eq_tells {row : Row} {field : String} {v w : Value} (hfield : row.get? field = some v)
    (hv : v.isNull = false) (hw : w.isNull = false) (op : Comparator) :
    (⟨field, op, w⟩ : Term).matches row = op.tells (v.looseCompare? w) := by
  have hequal : v.looseEq w = decide (v.looseCompare? w = some .eq) := by
    rw [Bool.eq_iff_iff, Value.looseEq_iff, decide_eq_true_iff, and_iff_right (hv.trans hw.symm)]
  cases op with
  | eq => simp only [Term.matches, hfield, Comparator.tells, hequal]
  | ne => simp only [Term.matches, hfield, Comparator.tells, hequal, ne_eq, decide_not]
  | _ => simp only [Term.matches, hfield, Comparator.tells]

/-- **The comparison operators are coherent.** Equality is symmetric, the order is reversed the other way
round, and the two agree unless exactly one of the values is null. So the operators of a condition fit
together on every row that has the field, if neither of the values is null. -/
theorem Value.comparisons_coherent :
    (∀ v w : Value, v.looseEq w = w.looseEq v) ∧
    (∀ v w : Value, w.looseCompare? v = (v.looseCompare? w).map Ordering.swap) ∧
    (∀ v w : Value, v.looseEq w ↔ v.isNull = w.isNull ∧ v.looseCompare? w = some .eq) ∧
    ∀ (row : Row) (field : String) (v w : Value), row.get? field = some v → v.isNull = false →
      w.isNull = false →
        Comparator.Coherent (fun op => (⟨field, op, w⟩ : Term).matches row)
          ((v.toNumber.isNaN ∨ w.toNumber.isNaN) ∧ ¬ v.OrderedAsSuch w) := by
  refine ⟨looseEq_comm, fun v w => (looseCompare?_swap v w).symm, fun _ _ => looseEq_iff, ?_⟩
  intro row field v w hfield hv hw
  have hholds : (fun op => (⟨field, op, w⟩ : Term).matches row) = (Comparator.tells · (v.looseCompare? w)) :=
    funext (Term.matches_eq_tells hfield hv hw)
  rw [hholds, ← looseCompare?_eq_none_iff]
  exact Comparator.coherent_tells _

/-- A word is in no order with a number, and a text that spells a number is. -/
theorem Value.comparisons_coherent_texts :
    let row : Row := .ofList [("name", .text "bob"), ("size", .text " 0x1A ")]
    row.get? "name" = some (.text "bob") ∧ row.get? "size" = some (.text " 0x1A ") ∧
      Comparator.Coherent (fun op => (⟨"name", op, .int 1⟩ : Term).matches row) True ∧
      Comparator.Coherent (fun op => (⟨"size", op, .int 30⟩ : Term).matches row) False ∧
      (⟨"size", .lt, .int 30⟩ : Term).matches row = true := by
  intro row
  have hname : row.get? "name" = some (.text "bob") := by decide +kernel
  have hsize : row.get? "size" = some (.text " 0x1A ") := by decide +kernel
  have hword : ((Value.text "bob").toNumber.isNaN ∨ (Value.int 1).toNumber.isNaN) ∧
      ¬ OrderedAsSuch (.text "bob") (.int 1) := ⟨Or.inl (by decide +kernel), nofun⟩
  have hnumber : ¬ (((Value.text " 0x1A ").toNumber.isNaN ∨ (Value.int 30).toNumber.isNaN) ∧
      ¬ OrderedAsSuch (.text " 0x1A ") (.int 30)) := fun h => absurd h.1 (by decide +kernel)
  obtain ⟨-, -, -, hcoherent⟩ := comparisons_coherent
  have hunordered := hcoherent row "name" (.text "bob") (.int 1) hname rfl rfl
  have hordered := hcoherent row "size" (.text " 0x1A ") (.int 30) hsize rfl rfl
  rw [eq_true hword] at hunordered
  rw [eq_false hnumber] at hordered
  exact ⟨hname, hsize, hunordered, hordered, by decide +kernel⟩

end TableQuery
