import TableQuery.Proofs.Store.Tables

/-! Dictionaries and lists of entries. A dictionary is told by what is found under each key, a list of
entries gives the last one of each key, and the entries of a dictionary give it back. -/

namespace TableQuery.Dict

variable {α : Type}

theorem entries_eq_of_lookup {l l' : List (String × α)} (hl : l.Pairwise fun a b => a.1 < b.1)
    (hl' : l'.Pairwise fun a b => a.1 < b.1) (h : ∀ k, l.lookup k = l'.lookup k) : l = l' := by
  induction l generalizing l' with
  | nil =>
      cases l' with
      | nil => rfl
      | cons e l' =>
          have hkey := h e.1
          rw [List.lookup_cons_self] at hkey
          cases hkey
  | cons e l ih =>
      obtain ⟨he, hl⟩ := List.pairwise_cons.1 hl
      cases l' with
      | nil =>
          have hkey := h e.1
          rw [List.lookup_cons_self] at hkey
          cases hkey
      | cons e' l' =>
          obtain ⟨he', hl'⟩ := List.pairwise_cons.1 hl'
          -- Neither first key is below the other, since the lower one would be found on one side only.
          have hle : ∀ {a b : String × α} {r s : List (String × α)}, (∀ x ∈ s, b.1 < x.1) →
              (a :: r).lookup a.1 = (b :: s).lookup a.1 → ¬ a.1 < b.1 := by
            intro a b r s hs hkey hlt
            rw [List.lookup_cons_self, lookup_of_lt] at hkey
            · cases hkey
            · intro x hx
              rcases List.mem_cons.1 hx with rfl | hx
              · exact hlt
              · exact String.lt_trans hlt (hs x hx)
          have hkeys : e.1 = e'.1 := String.le_antisymm (String.not_lt.1 (hle he (h e'.1).symm))
            (String.not_lt.1 (hle he' (h e.1)))
          have hvalues := h e.1
          rw [List.lookup_cons_self, hkeys, List.lookup_cons_self] at hvalues
          rw [Prod.ext hkeys (Option.some.inj hvalues)] at h ⊢
          rw [Prod.ext hkeys (Option.some.inj hvalues)] at he
          rw [ih hl hl' fun k => ?_]
          by_cases hk : k = e'.1
          · rw [hk, lookup_of_lt he, lookup_of_lt he']
          · have htail := h k
            rwa [List.lookup_cons, List.lookup_cons, beq_eq_false_iff_ne.2 hk] at htail

/-- Dictionaries are equal if the same is found under every key. -/
theorem ext_get? {d d' : Dict α} (h : ∀ k, d.get? k = d'.get? k) : d = d' :=
  ext (entries_eq_of_lookup d.ordered d'.ordered h)

theorem get?_insertAll (d : Dict α) (entries : List (String × α)) (k : String) :
    (d.insertAll entries).get? k = (entries.reverse.lookup k).or (d.get? k) := by
  induction entries generalizing d with
  | nil => rfl
  | cons e entries ih =>
      rw [insertAll, List.foldl_cons, ← insertAll, ih, get?_insert, List.reverse_cons, List.lookup_append,
        Option.or_assoc]
      by_cases hk : k = e.1
      · rw [if_pos hk, hk, List.lookup_cons_self]
        rfl
      · rw [if_neg hk, List.lookup_cons, beq_eq_false_iff_ne.2 hk]
        rfl

/-- The last entry of a key is found. -/
theorem get?_ofList (entries : List (String × α)) (k : String) :
    (ofList entries).get? k = entries.reverse.lookup k := by
  rw [ofList, get?_insertAll]
  exact Option.or_none

theorem lookup_reverse {l : List (String × α)} (hl : l.Pairwise fun a b => a.1 < b.1) (k : String) :
    l.reverse.lookup k = l.lookup k := by
  induction l with
  | nil => rfl
  | cons e l ih =>
      obtain ⟨he, hl⟩ := List.pairwise_cons.1 hl
      rw [List.reverse_cons, List.lookup_append, ih hl]
      by_cases hk : k = e.1
      · rw [hk, List.lookup_cons_self, List.lookup_cons_self, lookup_of_lt he]
        rfl
      · have hb := beq_eq_false_iff_ne.2 hk
        rw [List.lookup_cons, List.lookup_cons, hb]
        exact Option.or_none

/-- The entries of a dictionary give it back. -/
theorem ofList_entries (d : Dict α) : ofList d.entries = d := by
  apply ext_get?
  intro k
  rw [get?_ofList, lookup_reverse d.ordered]
  rfl

end TableQuery.Dict
