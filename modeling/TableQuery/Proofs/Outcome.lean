import Mathlib

/-! Results that can fail: how a sequence of steps comes to succeed or to fail. -/

namespace TableQuery

variable {ε α β : Type}

@[simp] theorem ok_bind (a : α) (f : α → Except ε β) : (Except.ok a >>= f) = f a := rfl

@[simp] theorem error_bind (err : ε) (f : α → Except ε β) :
    ((Except.error err : Except ε α) >>= f) = .error err := rfl

theorem bind_eq_ok_iff {x : Except ε α} {f : α → Except ε β} {b : β} :
    (x >>= f) = .ok b ↔ ∃ a, x = .ok a ∧ f a = .ok b := by
  cases x with
  | error err => simp
  | ok a => simp

theorem bind_eq_error_iff {x : Except ε α} {f : α → Except ε β} {err : ε} :
    (x >>= f) = .error err ↔ x = .error err ∨ ∃ a, x = .ok a ∧ f a = .error err := by
  cases x with
  | error err' => simp
  | ok a => simp

theorem map_eq_ok_iff {x : Except ε α} {f : α → β} {b : β} :
    x.map f = .ok b ↔ ∃ a, x = .ok a ∧ f a = b := by
  cases x with
  | error err => simp [Except.map]
  | ok a => simp [Except.map]

theorem map_eq_error_iff {x : Except ε α} {f : α → β} {err : ε} :
    x.map f = .error err ↔ x = .error err := by
  cases x with
  | error err' => simp [Except.map]
  | ok a => simp [Except.map]

/-- A list of steps fails at the first one that does. -/
theorem mapM_eq_error_iff {f : α → Except ε β} {l : List α} {err : ε} : l.mapM f = .error err ↔
    ∃ front a back, l = front ++ a :: back ∧ (∀ x ∈ front, ∃ b, f x = .ok b) ∧ f a = .error err := by
  induction l with
  | nil =>
      constructor
      · intro h
        cases h
      · rintro ⟨front, a, back, h, -⟩
        simp at h
  | cons x l ih =>
      rw [List.mapM_cons, bind_eq_error_iff]
      constructor
      · rintro (hx | ⟨b, hx, h⟩)
        · exact ⟨[], x, l, rfl, List.forall_mem_nil _, hx⟩
        · rcases bind_eq_error_iff.1 h with hl | ⟨bs, -, hpure⟩
          · obtain ⟨front, a, back, rfl, hfront, ha⟩ := ih.1 hl
            exact ⟨x :: front, a, back, rfl, List.forall_mem_cons.2 ⟨⟨b, hx⟩, hfront⟩, ha⟩
          · cases hpure
      · rintro ⟨front, a, back, heq, hfront, ha⟩
        cases front with
        | nil =>
            cases heq
            exact Or.inl ha
        | cons y front =>
            cases heq
            obtain ⟨⟨b, hb⟩, hfront⟩ := List.forall_mem_cons.1 hfront
            exact Or.inr ⟨b, hb, bind_eq_error_iff.2 (Or.inl (ih.2 ⟨front, a, back, rfl, hfront, ha⟩))⟩

/-- The outcome is a result that satisfies `P` or an error that satisfies `E`. -/
def Yields (E : ε → Prop) (P : α → Prop) : Except ε α → Prop
  | .ok a => P a
  | .error err => E err

namespace Yields

variable {E : ε → Prop} {P : α → Prop} {Q : β → Prop} {x : Except ε α}

theorem ok (h : Yields E P x) {a : α} (ha : x = .ok a) : P a := by
  rw [ha] at h
  exact h

theorem error (h : Yields E P x) {err : ε} (herr : x = .error err) : E err := by
  rw [herr] at h
  exact h

theorem imp {E' : ε → Prop} {P' : α → Prop} (h : Yields E P x) (hE : ∀ err, E err → E' err)
    (hP : ∀ a, P a → P' a) : Yields E' P' x := by
  cases x with
  | error err => exact hE err h
  | ok a => exact hP a h

theorem bind {f : α → Except ε β} (h : Yields E P x) (hf : ∀ a, P a → Yields E Q (f a)) :
    Yields E Q (x >>= f) := by
  cases x with
  | error err => exact h
  | ok a => exact hf a h

theorem map {f : α → β} (h : Yields E P x) (hf : ∀ a, P a → Q (f a)) : Yields E Q (x.map f) := by
  cases x with
  | error err => exact h
  | ok a => exact hf a h

end Yields
end TableQuery
