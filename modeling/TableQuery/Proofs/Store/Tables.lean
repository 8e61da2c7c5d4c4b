import Mathlib
import TableQuery.Store

/-! What putting a table into a store changes: the table at that place and nothing else, so putting
back the table that is there changes nothing, the last of two tables put into one place stays, and what
is summed up over the tables changes by the difference of the two tables. -/

namespace TableQuery

namespace Dict

variable {α : Type}

theorem lookup_of_lt {k : String} {l : List (String × α)} (h : ∀ e ∈ l, k < e.1) : l.lookup k = none := by
  induction l with
  | nil => rfl
  | cons e l ih =>
      have hne : k ≠ e.1 := fun heq => String.lt_irrefl k (by simpa [← heq] using h e List.mem_cons_self)
      rw [List.lookup_cons, beq_eq_false_iff_ne.2 hne]
      exact ih fun e' he' => h e' (List.mem_cons_of_mem _ he')

theorem insertEntry_of_lookup {k : String} {v : α} {l : List (String × α)}
    (hl : l.Pairwise fun a b => a.1 < b.1) (h : l.lookup k = some v) : insertEntry k v l = l := by
  induction l with
  | nil => cases h
  | cons hd tl ih =>
      obtain ⟨k', v'⟩ := hd
      obtain ⟨hhd, htl⟩ := List.pairwise_cons.1 hl
      rw [insertEntry]
      by_cases heq : k = k'
      · subst heq
        rw [List.lookup_cons, beq_self_eq_true] at h
        cases h
        rw [if_neg (String.lt_irrefl k), if_pos rfl]
      · rw [List.lookup_cons, beq_eq_false_iff_ne.2 heq] at h
        have hlt : ¬ k < k' := by
          intro hlt
          rw [lookup_of_lt fun e he => String.lt_trans hlt (hhd e he)] at h
          cases h
        rw [if_neg hlt, if_neg heq, ih htl h]

/-- An entry that is there already changes nothing. -/
theorem insert_of_get? {d : Dict α} {k : String} {v : α} (h : d.get? k = some v) : d.insert k v = d :=
  ext (insertEntry_of_lookup d.ordered h)

theorem insertEntry_insertEntry (k : String) (v v' : α) (l : List (String × α)) :
    insertEntry k v (insertEntry k v' l) = insertEntry k v l := by
  have hself : ∀ rest, insertEntry k v ((k, v') :: rest) = (k, v) :: rest := by
    intro rest
    rw [insertEntry, if_neg (String.lt_irrefl k), if_pos rfl]
  induction l with
  | nil => exact hself []
  | cons e l ih =>
      obtain ⟨k', u⟩ := e
      rw [insertEntry, insertEntry]
      split
      · exact hself _
      split
      · exact hself _
      next hlt hne => rw [insertEntry, if_neg hlt, if_neg hne, ih]

/-- The sum of the numbers that the values have. -/
def total (f : α → Nat) (d : Dict α) : Nat := (d.entries.map fun e => f e.2).sum

theorem sum_insertEntry_of_none (f : α → Nat) {k : String} {v : α} {l : List (String × α)}
    (h : l.lookup k = none) :
    ((insertEntry k v l).map fun e => f e.2).sum = f v + (l.map fun e => f e.2).sum := by
  induction l with
  | nil => rfl
  | cons hd tl ih =>
      obtain ⟨k', v'⟩ := hd
      have hne : k ≠ k' := by
        rintro rfl
        rw [List.lookup_cons_self] at h
        cases h
      rw [List.lookup_cons, beq_eq_false_iff_ne.2 hne] at h
      rw [insertEntry, if_neg hne]
      split
      · rfl
      · rw [List.map_cons, List.sum_cons, ih h, List.map_cons, List.sum_cons]
        omega

theorem sum_insertEntry_of_some (f : α → Nat) {k : String} {v v' : α} {l : List (String × α)}
    (hl : l.Pairwise fun a b => a.1 < b.1) (h : l.lookup k = some v) :
    ((insertEntry k v' l).map fun e => f e.2).sum + f v = f v' + (l.map fun e => f e.2).sum := by
  induction l with
  | nil => cases h
  | cons hd tl ih =>
      obtain ⟨k', u⟩ := hd
      obtain ⟨hhd, htl⟩ := List.pairwise_cons.1 hl
      by_cases heq : k = k'
      · subst heq
        rw [List.lookup_cons_self] at h
        cases h
        rw [insertEntry, if_neg (String.lt_irrefl k), if_pos rfl]
        simp only [List.map_cons, List.sum_cons]
        omega
      · rw [List.lookup_cons, beq_eq_false_iff_ne.2 heq] at h
        have hlt : ¬ k < k' := by
          intro hlt
          rw [lookup_of_lt fun e he => String.lt_trans hlt (hhd e he)] at h
          cases h
        rw [insertEntry, if_neg hlt, if_neg heq]
        have htail := ih htl h
        simp only [List.map_cons, List.sum_cons]
        omega

end Dict

namespace Store

variable {s : Store} {ds : Datastore} {name : String} {t : Table}

theorem tables_setTables (s : Store) (ds : Datastore) (tables : Dict Table) :
    (s.setTables ds tables).tables ds = tables := by
  cases ds <;> rfl

theorem tables_setTables_of_ne {ds ds' : Datastore} (h : ds' ≠ ds) (s : Store) (tables : Dict Table) :
    (s.setTables ds tables).tables ds' = s.tables ds' := by
  cases ds with
  | localStore =>
      cases ds' with
      | localStore => exact absurd rfl h
      | sessionStore => rfl
  | sessionStore =>
      cases ds' with
      | localStore => rfl
      | sessionStore => exact absurd rfl h

theorem setTables_tables (s : Store) (ds : Datastore) : s.setTables ds (s.tables ds) = s := by
  cases ds <;> rfl

theorem table?_put (s : Store) (ds : Datastore) (name : String) (t : Table) :
    (s.put ds name t).table? ds name = some t := by
  rw [table?, put, tables_setTables, Dict.get?_insert_self]

theorem put_of_table? (h : s.table? ds name = some t) : s.put ds name t = s := by
  rw [put, Dict.insert_of_get? h, setTables_tables]

/-- Putting a table into a store leaves the store as it was exactly if that table is there. -/
theorem put_eq_self_iff : s.put ds name t = s ↔ s.table? ds name = some t := by
  constructor
  · intro h
    rw [← h]
    exact table?_put s ds name t
  · exact put_of_table?

theorem tableOrNew_of_table? (h : s.table? ds name = some t) : s.tableOrNew ds name = t := by
  rw [tableOrNew, h, Option.getD_some]

theorem setTables_setTables (s : Store) (ds : Datastore) (tables tables' : Dict Table) :
    (s.setTables ds tables).setTables ds tables' = s.setTables ds tables' := by
  cases ds <;> rfl

@[simp] theorem put_put (s : Store) (ds : Datastore) (name : String) (t t' : Table) :
    (s.put ds name t).put ds name t' = s.put ds name t' := by
  have hinsert : ((s.tables ds).insert name t).insert name t' = (s.tables ds).insert name t' :=
    Dict.ext (Dict.insertEntry_insertEntry name t' t _)
  rw [put, put, tables_setTables, setTables_setTables, hinsert, put]

@[simp] theorem tableOrNew_put (s : Store) (ds : Datastore) (name : String) (t : Table) :
    (s.put ds name t).tableOrNew ds name = t :=
  tableOrNew_of_table? (table?_put s ds name t)

/-- The sum of the numbers that the tables have. -/
def total (f : Table → Nat) (s : Store) : Nat := s.localTables.total f + s.sessionTables.total f

theorem total_setTables (f : Table → Nat) (s : Store) (ds : Datastore) (d : Dict Table) :
    (s.setTables ds d).total f + (s.tables ds).total f = d.total f + s.total f := by
  cases ds with
  | localStore =>
      show d.total f + s.sessionTables.total f + s.localTables.total f =
        d.total f + (s.localTables.total f + s.sessionTables.total f)
      omega
  | sessionStore =>
      show s.localTables.total f + d.total f + s.sessionTables.total f =
        d.total f + (s.localTables.total f + s.sessionTables.total f)
      omega

theorem total_put_of_none (f : Table → Nat) (t : Table) (h : s.table? ds name = none) :
    (s.put ds name t).total f = f t + s.total f := by
  have hset := total_setTables f s ds ((s.tables ds).insert name t)
  have hinsert : ((s.tables ds).insert name t).total f = f t + (s.tables ds).total f :=
    Dict.sum_insertEntry_of_none f h
  rw [put]
  omega

theorem total_put_of_some (f : Table → Nat) (t' : Table) (h : s.table? ds name = some t) :
    (s.put ds name t').total f + f t = f t' + s.total f := by
  have hset := total_setTables f s ds ((s.tables ds).insert name t')
  have hinsert : ((s.tables ds).insert name t').total f + f t = f t' + (s.tables ds).total f :=
    Dict.sum_insertEntry_of_some f (s.tables ds).ordered h
  rw [put]
  omega

end Store
end TableQuery
