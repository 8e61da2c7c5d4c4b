import TableQuery.Json.Record
import TableQuery.Proofs.Json.RoundTrip
import TableQuery.Proofs.Store.Entries

/-! Written shapes are read back. A list or a dictionary is read back if its elements are, and a record
with different keys gives its members in their order. -/

namespace TableQuery

namespace Dict

variable {α β : Type}

/-- Other values under the same keys. -/
def mapValues (f : α → β) (d : Dict α) : Dict β :=
  ⟨d.entries.map fun e => (e.1, f e.2), List.pairwise_map.2 d.ordered⟩

theorem mapValues_eq_self {f : α → α} {d : Dict α} (h : ∀ e ∈ d.entries, f e.2 = e.2) :
    d.mapValues f = d := by
  refine ext ((List.map_congr_left fun e he => ?_).trans (List.map_id _))
  rw [h e he]
  rfl

end Dict

namespace Json

/-- What is written for `a` is legible, and it is read as `b`. -/
structure ReadsAs {α β : Type} (write : α → Json) (read : Json → Option β) (a : α) (b : β) : Prop where
  legible : (write a).Legible
  back : read (write a) = some b

variable {α β : Type} {write : α → Json} {read : Json → Option β} {f : α → β}

theorem mapM_map {ι κ γ : Type} {g : ι → κ} {p : κ → Option γ} {q : ι → γ} {l : List ι}
    (h : ∀ x ∈ l, p (g x) = some (q x)) : (l.map g).mapM p = some (l.map q) := by
  induction l with
  | nil => rfl
  | cons x l ih =>
      rw [List.map_cons, List.mapM_cons, h x List.mem_cons_self,
        ih fun y hy => h y (List.mem_cons_of_mem _ hy)]
      rfl

theorem readsAs_string (s : String) : ReadsAs ofString string? s s :=
  ⟨.text s, rfl⟩

theorem readsAs_list {xs : List α} (h : ∀ x ∈ xs, ReadsAs write read x (f x)) :
    ReadsAs (ofList write) (list? read) xs (xs.map f) where
  legible := by
    refine .array fun v hv => ?_
    obtain ⟨x, hx, rfl⟩ := List.mem_map.1 hv
    exact (h x hx).legible
  back := mapM_map fun x hx => (h x hx).back

theorem legible_record {members : List (String × Json)} (h : ∀ m ∈ members, m.2.Legible) :
    (record members).Legible := by
  refine .object (fun m hm => ?_) fun m hm => ?_
  · obtain ⟨u, -, rfl⟩ := List.mem_map.1 hm
    rfl
  · obtain ⟨u, hu, rfl⟩ := List.mem_map.1 hm
    exact h u hu

theorem readsAs_dict {d : Dict α} (h : ∀ e ∈ d.entries, ReadsAs write read e.2 (f e.2)) :
    ReadsAs (ofDict write) (dict? read) d (d.mapValues f) where
  legible := by
    refine legible_record fun m hm => ?_
    obtain ⟨e, he, rfl⟩ := List.mem_map.1 hm
    exact (h e he).legible
  back := by
    have hentries : (((d.entries.map fun e => (e.1, write e.2)).map fun m => (some m.1, m.2)).mapM
        fun m : Option String × Json => do
          let key ← m.1
          let value ← read m.2
          pure (key, value)) = some (d.mapValues f).entries := by
      rw [List.map_map]
      refine mapM_map fun e he => ?_
      simp [(h e he).back]
    rw [ofDict, record, dict?, hentries]
    exact congrArg some (Dict.ofList_entries _)

/-- Among different keys each one stands once. -/
theorem filter_key {members : List (String × Json)} (h : (members.map Prod.fst).Nodup) {m : String × Json}
    (hm : m ∈ members) :
    ((members.map fun m => (some m.1, m.2)).filter fun u : Option String × Json => u.1 == some m.1) =
      [(some m.1, m.2)] := by
  induction members with
  | nil => cases hm
  | cons u members ih =>
      obtain ⟨hu, h⟩ := List.nodup_cons.1 h
      rw [List.map_cons, List.filter_cons]
      rcases List.mem_cons.1 hm with rfl | hm
      · have hothers : ((members.map fun m => (some m.1, m.2)).filter
            fun u : Option String × Json => u.1 == some m.1) = [] := by
          refine List.filter_eq_nil_iff.2 fun w hw => ?_
          obtain ⟨v, hv, rfl⟩ := List.mem_map.1 hw
          have hne : v.1 ≠ m.1 := fun heq => hu (heq ▸ List.mem_map_of_mem hv)
          simpa using hne
        rw [hothers, if_pos (by simp)]
      · have hne : u.1 ≠ m.1 := fun heq => hu (heq ▸ List.mem_map_of_mem hm)
        rw [if_neg (by simpa using hne), ih h hm]

theorem record?_record (members : List (String × Json)) (h : (members.map Prod.fst).Nodup) :
    record? (members.map Prod.fst) (record members) = some (members.map fun m => some m.2) := by
  have hkeys : ((members.map fun m => (some m.1, m.2)).all fun m : Option String × Json => m.1.isSome) =
      true := by
    simp
  rw [record, record?, hkeys, if_pos rfl]
  refine mapM_map fun m hm => ?_
  rw [filter_key h hm]

end Json
end TableQuery
