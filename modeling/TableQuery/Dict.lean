/-! Dictionaries with text keys, kept as a list of entries in increasing key order, so that equal
dictionaries are equal lists and the order of the entries is the order in which they are shown. -/
namespace TableQuery

/-- The entries of a dictionary, each key above the ones before it. -/
structure Dict (α : Type) where
  entries : List (String × α)
  ordered : entries.Pairwise fun a b => a.1 < b.1

namespace Dict

variable {α : Type}

/-- Puts an entry in its place, over an older one with the same key. -/
def insertEntry (k : String) (v : α) : List (String × α) → List (String × α)
  | [] => [(k, v)]
  | (k', v') :: rest =>
    if k < k' then (k, v) :: (k', v') :: rest
    else if k = k' then (k, v) :: rest
    else (k', v') :: insertEntry k v rest

theorem mem_insertEntry {k : String} {v : α} {e : String × α} {l : List (String × α)}
    (h : e ∈ insertEntry k v l) : e = (k, v) ∨ e ∈ l := by
  induction l with
  | nil => simpa [insertEntry] using h
  | cons hd tl ih =>
      obtain ⟨k', v'⟩ := hd
      simp only [insertEntry] at h
      split at h
      · simpa using h
      split at h
      · rcases List.mem_cons.1 h with h | h
        · exact Or.inl h
        · exact Or.inr (List.mem_cons_of_mem _ h)
      · rcases List.mem_cons.1 h with h | h
        · exact Or.inr (h ▸ List.mem_cons_self)
        · exact (ih h).imp_right (List.mem_cons_of_mem _)

theorem ordered_insertEntry (k : String) (v : α) {l : List (String × α)}
    (h : l.Pairwise fun a b => a.1 < b.1) :
    (insertEntry k v l).Pairwise fun a b => a.1 < b.1 := by
  induction l with
  | nil => simp [insertEntry]
  | cons hd tl ih =>
      obtain ⟨k', v'⟩ := hd
      obtain ⟨hhd, htl⟩ := List.pairwise_cons.1 h
      simp only [insertEntry]
      split
      next hlt =>
        refine List.pairwise_cons.2 ⟨fun e he => ?_, h⟩
        rcases List.mem_cons.1 he with he | he
        · exact he ▸ hlt
        · exact String.lt_trans hlt (hhd e he)
      split
      next heq =>
        subst heq
        exact List.pairwise_cons.2 ⟨hhd, htl⟩
      next hlt hne =>
        refine List.pairwise_cons.2 ⟨fun e he => ?_, ih htl⟩
        rcases mem_insertEntry he with he | he
        · subst he
          exact Decidable.byContradiction fun hge =>
            hne (String.le_antisymm (String.not_lt.1 hge) (String.not_lt.1 hlt))
        · exact hhd e he

def empty : Dict α := ⟨[], .nil⟩

instance : EmptyCollection (Dict α) := ⟨empty⟩

instance : Inhabited (Dict α) := ⟨empty⟩

def isEmpty (d : Dict α) : Bool := d.entries.isEmpty

def size (d : Dict α) : Nat := d.entries.length

def keys (d : Dict α) : List String := d.entries.map Prod.fst

def get? (d : Dict α) (k : String) : Option α := d.entries.lookup k

def contains (d : Dict α) (k : String) : Bool := (d.get? k).isSome

def insert (d : Dict α) (k : String) (v : α) : Dict α :=
  ⟨insertEntry k v d.entries, ordered_insertEntry k v d.ordered⟩

/-- Puts an entry in unless the key has one. -/
def insertNew (d : Dict α) (k : String) (v : α) : Dict α :=
  if d.contains k then d else d.insert k v

/-- Keeps the entries whose key passes the test. -/
def filterKeys (d : Dict α) (p : String → Bool) : Dict α :=
  ⟨d.entries.filter fun e => p e.1, d.ordered.sublist List.filter_sublist⟩

def erase (d : Dict α) (k : String) : Dict α := d.filterKeys (· != k)

/-- Entries put in one after the other: of two with the same key the later one stays. -/
def insertAll (d : Dict α) (entries : List (String × α)) : Dict α :=
  entries.foldl (fun d e => d.insert e.1 e.2) d

def ofList (entries : List (String × α)) : Dict α := empty.insertAll entries

@[ext] theorem ext {a b : Dict α} (h : a.entries = b.entries) : a = b := by
  cases a; cases b; cases h; rfl

instance [DecidableEq α] : DecidableEq (Dict α) := fun a b =>
  if h : a.entries = b.entries then isTrue (ext h) else isFalse fun e => h (e ▸ rfl)

@[simp] theorem entries_empty : (∅ : Dict α).entries = [] := rfl

theorem get?_empty (k : String) : (∅ : Dict α).get? k = none := rfl

theorem lookup_insertEntry_self (k : String) (v : α) (l : List (String × α)) :
    (insertEntry k v l).lookup k = some v := by
  induction l with
  | nil => simp [insertEntry]
  | cons hd tl ih =>
      obtain ⟨k', v'⟩ := hd
      simp only [insertEntry]
      split
      · simp
      split
      · simp
      next hne => simp [List.lookup_cons, beq_eq_false_iff_ne.2 hne, ih]

theorem lookup_insertEntry_ne {k k' : String} (h : k' ≠ k) (v : α) (l : List (String × α)) :
    (insertEntry k v l).lookup k' = l.lookup k' := by
  have hb : (k' == k) = false := beq_eq_false_iff_ne.2 h
  induction l with
  | nil => simp [insertEntry, List.lookup_cons, hb]
  | cons hd tl ih =>
      obtain ⟨k'', v''⟩ := hd
      simp only [insertEntry]
      split
      · simp [List.lookup_cons, hb]
      split
      next heq =>
        subst heq
        simp [List.lookup_cons, hb]
      · simp [List.lookup_cons, ih]

@[simp] theorem get?_insert_self (d : Dict α) (k : String) (v : α) :
    (d.insert k v).get? k = some v :=
  lookup_insertEntry_self k v d.entries

theorem get?_insert_of_ne {k k' : String} (h : k' ≠ k) (d : Dict α) (v : α) :
    (d.insert k v).get? k' = d.get? k' :=
  lookup_insertEntry_ne h v d.entries

theorem get?_insert (d : Dict α) (k : String) (v : α) (k' : String) :
    (d.insert k v).get? k' = if k' = k then some v else d.get? k' := by
  by_cases h : k' = k
  · rw [if_pos h, h, get?_insert_self]
  · rw [if_neg h, get?_insert_of_ne h]

theorem lookup_filter (p : String → Bool) (k : String) (l : List (String × α)) :
    (l.filter fun e => p e.1).lookup k = if p k then l.lookup k else none := by
  induction l with
  | nil => simp
  | cons e l ih =>
      rw [List.filter_cons]
      by_cases hk : k = e.1
      · subst hk
        by_cases hp : p e.1
        · rw [if_pos hp, if_pos hp, List.lookup_cons_self, List.lookup_cons_self]
        · rw [if_neg hp, ih, if_neg hp, if_neg hp]
      · have hb : (k == e.1) = false := beq_eq_false_iff_ne.2 hk
        have htail : (e :: l).lookup k = l.lookup k := by rw [List.lookup_cons, hb]
        rw [htail, ← ih]
        split
        · rw [List.lookup_cons, hb]
        · rfl

theorem get?_filterKeys (d : Dict α) (p : String → Bool) (k : String) :
    (d.filterKeys p).get? k = if p k then d.get? k else none :=
  lookup_filter p k d.entries

theorem get?_erase (d : Dict α) (k k' : String) :
    (d.erase k).get? k' = if k' = k then none else d.get? k' := by
  rw [erase, get?_filterKeys]
  by_cases h : k' = k <;> simp [h]

theorem contains_insert (d : Dict α) (k : String) (v : α) (k' : String) :
    (d.insert k v).contains k' = (k' == k || d.contains k') := by
  rw [contains, get?_insert]
  by_cases h : k' = k
  · simp [h]
  · rw [if_neg h, beq_eq_false_iff_ne.2 h, Bool.false_or, contains]

theorem contains_filterKeys (d : Dict α) (p : String → Bool) (k : String) :
    (d.filterKeys p).contains k = (p k && d.contains k) := by
  rw [contains, get?_filterKeys]
  cases p k <;> simp [contains]

theorem get?_insertNew_of_ne {k k' : String} (h : k' ≠ k) (d : Dict α) (v : α) :
    (d.insertNew k v).get? k' = d.get? k' := by
  rw [insertNew]
  split
  · rfl
  · exact get?_insert_of_ne h d v

theorem insertNew_of_contains {d : Dict α} {k : String} (h : d.contains k) (v : α) :
    d.insertNew k v = d := if_pos h

theorem contains_insertNew (d : Dict α) (k : String) (v : α) (k' : String) :
    (d.insertNew k v).contains k' = (k' == k || d.contains k') := by
  rw [insertNew]
  split
  next h =>
    by_cases hk : k' = k
    · rw [hk, h, Bool.or_true]
    · rw [beq_eq_false_iff_ne.2 hk, Bool.false_or]
  · exact contains_insert d k v k'

theorem contains_insertAll (d : Dict α) (entries : List (String × α)) (k : String) :
    (d.insertAll entries).contains k = (d.contains k || (entries.map Prod.fst).contains k) := by
  induction entries generalizing d with
  | nil => simp [insertAll]
  | cons e entries ih =>
      rw [insertAll, List.foldl_cons, ← insertAll, ih, contains_insert, List.map_cons, List.contains_cons]
      cases k == e.1 <;> simp

theorem get?_insertAll_of_not_mem (d : Dict α) {entries : List (String × α)} {k : String}
    (h : k ∉ entries.map Prod.fst) : (d.insertAll entries).get? k = d.get? k := by
  induction entries generalizing d with
  | nil => rfl
  | cons e entries ih =>
      rw [List.map_cons, List.mem_cons, not_or] at h
      rw [insertAll, List.foldl_cons, ← insertAll, ih _ h.2, get?_insert_of_ne h.1]

end Dict
end TableQuery
