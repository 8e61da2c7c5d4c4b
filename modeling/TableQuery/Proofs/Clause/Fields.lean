import TableQuery.Proofs.Clause.Resolution

/-! What a clause says about a row hangs on the fields that its terms compare. Two rows that agree in
these fields satisfy the same clauses, whatever else they hold. -/

namespace TableQuery

theorem Term.matches_congr {t : Term} {a b : Row} (h : a.get? t.field = b.get? t.field) :
    t.matches a = t.matches b := by
  rw [Term.matches, Term.matches, h]

namespace Clause

/-- Each of these slots has the same value in both rows. -/
def Agree (a b : Row) (slots : List Slot) : Prop := ∀ s ∈ slots, s.truth a = s.truth b

variable {a b : Row} {slots : List Slot}

theorem Agree.of_append {before after : List Slot} (h : Agree a b (before ++ after)) :
    Agree a b before ∧ Agree a b after :=
  List.forall_mem_append.1 h

theorem Agree.of_cons {s : Slot} (h : Agree a b (s :: slots)) :
    s.truth a = s.truth b ∧ Agree a b slots :=
  List.forall_mem_cons.1 h

theorem evalSequential_congr {slots : List Slot} (h : Agree a b slots) :
    evalSequential a slots = evalSequential b slots := by
  match slots with
  | [] => rfl
  | [s] => rw [evalSequential_last, evalSequential_last, h.of_cons.1]
  | s :: t :: rest =>
      obtain ⟨hs, hrest⟩ := h.of_cons
      have hnext := evalSequential_congr hrest.of_cons.2
      rw [evalSequential.eq_def, evalSequential.eq_def b]
      cases htruth : s.truth b <;> cases t <;> simp only [hs, htruth, hnext]

theorem evalPrecedence_congr {slots : List Slot} (group : Bool) (h : Agree a b slots) :
    evalPrecedence a group slots = evalPrecedence b group slots := by
  match slots with
  | [] => rfl
  | [s] => rw [evalPrecedence, evalPrecedence, h.of_cons.1]
  | s :: t :: rest =>
      obtain ⟨hs, hrest⟩ := h.of_cons
      have hnext := fun g => evalPrecedence_congr g hrest.of_cons.2
      cases t with
      | or => rw [evalPrecedence_or, evalPrecedence_or, hs, hnext]
      | _ => simp only [evalPrecedence, hs, hnext]

theorem evalChain_congr (mode : ChainMode) (h : Agree a b slots) :
    evalChain mode a slots = evalChain mode b slots := by
  cases mode with
  | sequential => exact evalSequential_congr h
  | precedence => exact evalPrecedence_congr true h

theorem splitLastOpen_eq_some {before after : List Slot} (h : splitLastOpen slots = some (before, after)) :
    slots = before ++ .openGroup :: after := by
  induction slots generalizing before with
  | nil => cases h
  | cons s rest ih =>
      rw [splitLastOpen] at h
      split at h
      · cases h
        rw [ih ‹_›]
        rfl
      · split at h
        · cases h
          rw [‹s = _›]
          rfl
        · cases h

theorem splitFirstClose_eq_some {inside after : List Slot}
    (h : splitFirstClose slots = some (inside, after)) : slots = inside ++ .closeGroup :: after := by
  induction slots generalizing inside with
  | nil => cases h
  | cons s rest ih =>
      rw [splitFirstClose] at h
      split at h
      · cases h
        rw [‹s = _›]
        rfl
      · obtain ⟨⟨i, a⟩, hrest, heq⟩ := Option.map_eq_some_iff.1 h
        cases heq
        rw [ih hrest]
        rfl

theorem innermost?_eq_some {before inside after : List Slot}
    (h : innermost? slots = some (before, inside, after)) :
    slots = before ++ .openGroup :: (inside ++ .closeGroup :: after) := by
  rw [innermost?] at h
  cases hopen : splitLastOpen slots with
  | none =>
      rw [hopen] at h
      cases h
  | some p =>
      rw [hopen] at h
      obtain ⟨⟨i, a⟩, hclose, heq⟩ := Option.map_eq_some_iff.1 h
      cases heq
      rw [splitLastOpen_eq_some hopen, splitFirstClose_eq_some hclose]

/-- The slots around a group stay when it is resolved, and its value is the same in both rows. -/
theorem resolve_congr (mode : ChainMode) (h : Agree a b slots) :
    resolve mode a slots = resolve mode b slots := by
  fun_induction resolve mode a slots with
  | case1 slots hnone => rw [resolve_of_none mode b hnone, evalChain_congr mode h]
  | case2 slots before inside after hsome _ ih =>
      rw [innermost?_eq_some hsome] at h
      obtain ⟨hbefore, hgroup⟩ := h.of_append
      obtain ⟨hinside, hafter⟩ := hgroup.of_cons.2.of_append
      have hstep : Agree a b (before ++ .resolved (evalChain mode a inside) :: after) :=
        List.forall_mem_append.2 ⟨hbefore, List.forall_mem_cons.2 ⟨rfl, hafter.of_cons.2⟩⟩
      rw [resolve_of_some mode b hsome, ih hstep, evalChain_congr mode hinside]

/-- **A clause says the same of two rows that agree in the fields which it compares.** -/
theorem holds_congr {c : Clause} (h : ∀ t, .term t ∈ c.parts → a.get? t.field = b.get? t.field)
    (mode : ChainMode) : c.holds a mode = c.holds b mode := by
  refine resolve_congr mode fun s hs => ?_
  obtain ⟨p, hp, rfl⟩ := List.mem_map.1 hs
  cases p with
  | term t => exact Term.matches_congr (h t hp)
  | _ => rfl

end Clause
end TableQuery
