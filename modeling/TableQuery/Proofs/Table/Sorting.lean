import Mathlib
import TableQuery.Table.Execute

/-! The order of sorted rows. Rows are compared by the first column in which they differ, and rows that
tie in every column keep their places. For this the values in each column have to be in a consistent
order: among integers and floats beyond 53 bits the comparison need not be transitive. -/

namespace TableQuery

/-! ### Stable sorting -/

/-- Sorting by an order of the elements of a list keeps elements that tie in the order in which they
were. -/
theorem pairwise_mergeSort_stable {α : Type} {le : α → α → Bool} {before : α → α → Prop} {l : List α}
    (htrans : ∀ a ∈ l, ∀ b ∈ l, ∀ c ∈ l, le a b → le b c → le a c)
    (htotal : ∀ a ∈ l, ∀ b ∈ l, le a b ∨ le b a) (hbefore : l.Pairwise before) :
    (l.mergeSort le).Pairwise fun a b => le a b ∧ (le b a → before a b) := by
  -- On the elements of the list the order is one, and with the positions it is strict.
  let le' : {x // x ∈ l} → {x // x ∈ l} → Bool := fun a b => le a b
  let placed := l.attach.zipIdx.mergeSort (List.zipIdxLE le')
  have hplaced : placed.map (fun x => x.1.1) = l.mergeSort le := by
    rw [← Function.comp_def Subtype.val Prod.fst, ← List.map_map, List.mergeSort_zipIdx,
      List.map_mergeSort (s := le) fun _ _ _ _ => rfl, List.attach_map_subtype_val]
  have hsorted : placed.Pairwise fun x y => List.zipIdxLE le' x y := by
    refine List.pairwise_mergeSort (List.zipIdxLE_trans fun a b c => ?_) (List.zipIdxLE_total fun a b => ?_) _
    · exact htrans a a.2 b b.2 c c.2
    · exact Bool.or_eq_true_iff.2 (htotal a a.2 b b.2)
  have hdistinct : placed.Pairwise fun x y => x.2 ≠ y.2 :=
    List.pairwise_map.1 (((List.mergeSort_perm _ _).map Prod.snd).nodup_iff.2 (List.nodup_zipIdx_map_snd _))
  have hget : ∀ x ∈ placed, l[x.2]? = some x.1.1 := by
    intro x hx
    have hattach := List.mem_zipIdx_iff_getElem?.1 (List.mem_mergeSort.1 hx)
    have hmap := congrArg (Option.map Subtype.val) hattach
    rwa [← List.getElem?_map, List.attach_map_subtype_val] at hmap
  rw [← hplaced, List.pairwise_map]
  refine (hsorted.and hdistinct).imp_of_mem fun {x y} hx hy h => ?_
  obtain ⟨hle, hne⟩ := h
  rw [List.zipIdxLE] at hle
  split at hle
  · refine ⟨‹_›, fun hback => ?_⟩
    rw [if_pos (show le' y.1 x.1 from hback), decide_eq_true_eq] at hle
    obtain ⟨hi, hxi⟩ := List.getElem?_eq_some_iff.1 (hget x hx)
    obtain ⟨hj, hyj⟩ := List.getElem?_eq_some_iff.1 (hget y hy)
    rw [← hxi, ← hyj]
    exact List.pairwise_iff_getElem.1 hbefore _ _ hi hj (lt_of_le_of_ne hle hne)
  · cases hle

/-! ### Values -/

namespace Value

theorem swap_sortCompare (v w : Value) : (v.sortCompare w).swap = w.sortCompare v := by
  cases v <;> cases w <;> simp only [sortCompare, rank, Binary64.totalCompare] <;>
    exact Std.OrientedOrd.eq_swap.symm

/-- The order of these values is consistent: it is transitive. -/
def Consistent (vs : List Value) : Prop :=
  ∀ u ∈ vs, ∀ v ∈ vs, ∀ w ∈ vs, (u.sortCompare v).isLE → (v.sortCompare w).isLE → (u.sortCompare w).isLE

instance (vs : List Value) : Decidable (Consistent vs) :=
  inferInstanceAs (Decidable (∀ u ∈ vs, ∀ v ∈ vs, ∀ w ∈ vs,
    (u.sortCompare v).isLE → (v.sortCompare w).isLE → (u.sortCompare w).isLE))

/-- The value stands before another one in a column that is sorted in this direction. -/
def Precedes (d : Direction) (v w : Value) : Prop :=
  v.sortCompare w = match d with
    | .ascending => .lt
    | .descending => .gt

end Value

/-! ### Rows -/

/-- The value by which a row is sorted; a missing field counts as null. -/
def Row.sortValue (row : Row) (column : String) : Value := (row.get? column).getD .null

namespace SortOrder

/-- Neither row is before the other in any column. -/
def Ties (o : SortOrder) (a b : Row) : Prop :=
  ∀ c ∈ o.columns, (Row.sortValue a c).sortCompare (Row.sortValue b c) = .eq

/-- The first row is before the second in the first column in which they do not tie. -/
def Precedes (o : SortOrder) (a b : Row) : Prop :=
  ∃ earlier c later, o.columns = earlier ++ c :: later ∧ Ties ⟨earlier, o.direction⟩ a b ∧
    Value.Precedes o.direction (Row.sortValue a c) (Row.sortValue b c)

theorem precedes_nil (d : Direction) (a b : Row) : ¬ Precedes ⟨[], d⟩ a b := by
  rintro ⟨earlier, c, later, h, -⟩
  exact List.cons_ne_nil _ _ (List.append_eq_nil_iff.1 h.symm).2

theorem precedes_cons (d : Direction) (c : String) (columns : List String) (a b : Row) :
    Precedes ⟨c :: columns, d⟩ a b ↔ Value.Precedes d (Row.sortValue a c) (Row.sortValue b c) ∨
      (Row.sortValue a c).sortCompare (Row.sortValue b c) = .eq ∧ Precedes ⟨columns, d⟩ a b := by
  constructor
  · rintro ⟨_ | ⟨c', earlier⟩, c'', later, h, hties, hlt⟩
    · cases h
      exact Or.inl hlt
    · cases h
      obtain ⟨htie, hties⟩ := List.forall_mem_cons.1 hties
      exact Or.inr ⟨htie, earlier, c'', later, rfl, hties, hlt⟩
  · rintro (hlt | ⟨htie, earlier, c', later, rfl, hties, hlt⟩)
    · exact ⟨[], c, columns, rfl, List.forall_mem_nil _, hlt⟩
    · exact ⟨c :: earlier, c', later, rfl, List.forall_mem_cons.2 ⟨htie, hties⟩, hlt⟩

end SortOrder

namespace Table

/-- The order of two rows in one column. -/
def compareColumn (d : Direction) (c : String) (a b : Row) : Ordering :=
  let order := (Row.sortValue a c).sortCompare (Row.sortValue b c)
  if d = .descending then order.swap else order

theorem compareRows_cons (d : Direction) (c : String) (columns : List String) (a b : Row) :
    compareRows d a b (c :: columns) = (compareColumn d c a b).then (compareRows d a b columns) := rfl

theorem compareColumn_eq_eq_iff {d : Direction} {c : String} {a b : Row} :
    compareColumn d c a b = .eq ↔ (Row.sortValue a c).sortCompare (Row.sortValue b c) = .eq := by
  cases d with
  | ascending => rfl
  | descending => exact Ordering.swap_eq_iff_eq_swap

theorem compareColumn_eq_lt_iff {d : Direction} {c : String} {a b : Row} :
    compareColumn d c a b = .lt ↔ Value.Precedes d (Row.sortValue a c) (Row.sortValue b c) := by
  cases d with
  | ascending => rfl
  | descending => exact Ordering.swap_eq_iff_eq_swap

theorem compareRows_eq_eq_iff {d : Direction} {columns : List String} {a b : Row} :
    compareRows d a b columns = .eq ↔ SortOrder.Ties ⟨columns, d⟩ a b := by
  induction columns with
  | nil => exact iff_of_true rfl (List.forall_mem_nil _)
  | cons c columns ih =>
      rw [compareRows_cons, Ordering.then_eq_eq, ih, compareColumn_eq_eq_iff, SortOrder.Ties,
        SortOrder.Ties, List.forall_mem_cons]

theorem compareRows_eq_lt_iff {d : Direction} {columns : List String} {a b : Row} :
    compareRows d a b columns = .lt ↔ SortOrder.Precedes ⟨columns, d⟩ a b := by
  induction columns with
  | nil => exact iff_of_false (by rintro ⟨⟩) (SortOrder.precedes_nil d a b)
  | cons c columns ih =>
      rw [compareRows_cons, Ordering.then_eq_lt, ih, compareColumn_eq_lt_iff, compareColumn_eq_eq_iff,
        SortOrder.precedes_cons]

section Consistent

variable {rows : List Row} {d : Direction} {columns : List String}

/-- The values of a column. -/
def sortValues (rows : List Row) (column : String) : List Value := rows.map (Row.sortValue · column)

theorem transCmp_compareColumn {c : String} (h : Value.Consistent (sortValues rows c)) (d : Direction) :
    Std.TransCmp fun a b : {row // row ∈ rows} => compareColumn d c a b := by
  have hascending : Std.TransCmp fun a b : {row // row ∈ rows} => compareColumn .ascending c a b :=
    { eq_swap := (Value.swap_sortCompare _ _).symm
      isLE_trans := fun {a b c} => h _ (List.mem_map_of_mem a.2) _ (List.mem_map_of_mem b.2) _
        (List.mem_map_of_mem c.2) }
  cases d with
  | ascending => exact hascending
  | descending =>
      have hswap : (fun a b : {row // row ∈ rows} => compareColumn .descending c a b) =
          fun a b : {row // row ∈ rows} => compareColumn .ascending c b a := by
        funext a b
        exact Value.swap_sortCompare _ _
      rw [hswap]
      exact Std.TransCmp.opposite

/-- If the values in every column are in a consistent order, the rows are. -/
theorem transCmp_compareRows (h : ∀ c ∈ columns, Value.Consistent (sortValues rows c)) (d : Direction) :
    Std.TransCmp fun a b : {row // row ∈ rows} => compareRows d a b columns := by
  induction columns with
  | nil => exact { eq_swap := rfl, isLE_trans := fun _ _ => rfl }
  | cons c columns ih =>
      obtain ⟨hc, h⟩ := List.forall_mem_cons.1 h
      have hcolumn := transCmp_compareColumn hc d
      have hcolumns := ih h
      exact inferInstanceAs (Std.TransCmp (compareLex
        (fun a b : {row // row ∈ rows} => compareColumn d c a b) fun a b => compareRows d a b columns))

/-- The order of two rows with their positions: by the columns, and by position where they tie. -/
def Before : Option SortOrder → Row × Nat → Row × Nat → Prop
  | none, x, y => x.2 < y.2
  | some o, x, y => o.Precedes x.1 y.1 ∨ o.Ties x.1 y.1 ∧ x.2 < y.2

/-- **Rows that are sorted are in their order, and where they tie in the order of their positions.** -/
theorem pairwise_sortRows {order : Option SortOrder} {placed : List (Row × Nat)}
    (h : ∀ o, order = some o → ∀ c ∈ o.columns, Value.Consistent (sortValues rows c))
    (hrows : ∀ x ∈ placed, x.1 ∈ rows) (hplaced : placed.Pairwise fun x y => x.2 < y.2) :
    (sortRows order placed).Pairwise (Before order) := by
  cases order with
  | none => exact hplaced
  | some o =>
      have hcmp := transCmp_compareRows (h o rfl) o.direction
      have hle : ∀ a b : Row, (compareRows o.direction a b o.columns != .gt) =
          (compareRows o.direction a b o.columns).isLE := by
        intro a b
        cases compareRows o.direction a b o.columns <;> rfl
      have hsorted : (placed.mergeSort fun x y => (compareRows o.direction x.1 y.1 o.columns).isLE).Pairwise
          fun x y => (compareRows o.direction x.1 y.1 o.columns).isLE ∧
            ((compareRows o.direction y.1 x.1 o.columns).isLE → x.2 < y.2) := by
        refine pairwise_mergeSort_stable (fun x hx y hy z hz => ?_) (fun x hx y hy => ?_) hplaced
        · exact hcmp.isLE_trans (a := ⟨x.1, hrows x hx⟩) (b := ⟨y.1, hrows y hy⟩) (c := ⟨z.1, hrows z hz⟩)
        · have hswap := hcmp.eq_swap (a := ⟨x.1, hrows x hx⟩) (b := ⟨y.1, hrows y hy⟩)
          simp only at hswap
          rw [hswap]
          cases compareRows o.direction y.1 x.1 o.columns <;> simp
      simp only [sortRows, hle]
      refine hsorted.imp_of_mem fun {x y} hx hy hxy => ?_
      have hswap := hcmp.eq_swap (a := ⟨y.1, hrows y (List.mem_mergeSort.1 hy)⟩)
        (b := ⟨x.1, hrows x (List.mem_mergeSort.1 hx)⟩)
      simp only at hswap
      rw [hswap] at hxy
      cases hcompare : compareRows o.direction x.1 y.1 o.columns with
      | lt => exact Or.inl (compareRows_eq_lt_iff.1 hcompare)
      | eq =>
          rw [hcompare] at hxy
          exact Or.inr ⟨compareRows_eq_eq_iff.1 hcompare, hxy.2 rfl⟩
      | gt =>
          rw [hcompare] at hxy
          cases hxy.1

end Consistent
end Table
end TableQuery
