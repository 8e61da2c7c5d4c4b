import TableQuery.Proofs.Number.Grammar
import TableQuery.Proofs.Number.Magnitude
import TableQuery.Proofs.Statement.Derivation

/-! Numbers of rows. A limit takes every value that is read as a finite number that is not negative. These are
the numbers of rows and, besides, values that are no numbers at all. -/

namespace TableQuery

open Number Text

namespace Value

/-- A number of rows: an integer or a finite float that is not negative, or a text that spells one. -/
inductive IsAmount : Value → Prop
  | int {n : Int64} (h : 0 ≤ n.toInt) : IsAmount (.int n)
  | float {x : Binary64} (hfinite : x.isFinite) (h : 0 ≤ x.key) : IsAmount (.float x)
  | text {t : String} (hne : trimChars t.toList ≠ []) (hspells : SpellsNumber (trimChars t.toList))
      (hfinite : (Value.text t).toNumber.isFinite) (h : 0 ≤ (Value.text t).toNumber.key) : IsAmount (.text t)

/-- No number of rows, though it is taken for one: null, a boolean, a blank text, and the digits of a base with
a plus sign in front of them. -/
inductive PassesForAmount : Value → Prop
  | null : PassesForAmount .null
  | bool (b : Bool) : PassesForAmount (.bool b)
  | blank {t : String} (h : trimChars t.toList = []) : PassesForAmount (.text t)
  | signed {t : String} (h : SignsDigits (trimChars t.toList)) : PassesForAmount (.text t)

variable {v : Value}

theorem IsAmount.not_passesForAmount (h : v.IsAmount) : ¬ v.PassesForAmount := by
  intro hpasses
  cases hpasses with
  | null => cases h
  | bool b => cases h
  | blank hblank =>
      cases h with
      | text hne => exact hne hblank
  | signed hsigned =>
      cases h with
      | text hne hspells => exact not_spellsNumber_of_signsDigits hsigned hspells

theorem PassesForAmount.isCount (h : v.PassesForAmount) : v.IsCount := by
  cases h with
  | null => exact ⟨by decide, by decide⟩
  | bool b => cases b <;> exact ⟨by decide, by decide⟩
  | @blank t hblank =>
      have hzero : (Value.text t).toNumber = .zero := by
        simp only [toNumber, spelled?, hblank, List.isEmpty_nil, if_true, Option.getD_some]
      rw [IsCount, hzero]
      exact ⟨by decide, by decide⟩
  | @signed t hsigned =>
      obtain ⟨n, hn, hspelled⟩ := spelled?_of_signsDigits hsigned
      have hsmall : (n : Int).natAbs ≤ 2 ^ 64 := by omega
      rw [IsCount, toNumber, hspelled, Option.getD_some, Binary64.key_ofInt_nonneg_iff hsmall]
      exact ⟨Binary64.isFinite_ofInt hsmall, Int.natCast_nonneg n⟩

theorem IsAmount.isCount (h : v.IsAmount) : v.IsCount := by
  cases h with
  | int h => exact isCount_int_iff.2 h
  | float hfinite h => exact ⟨hfinite, h⟩
  | text hne hspells hfinite h => exact ⟨hfinite, h⟩

/-- What is read as a finite number that is not negative is a number of rows, or passes for one. -/
theorem isCount_iff : v.IsCount ↔ v.IsAmount ∨ v.PassesForAmount := by
  constructor
  · intro h
    cases v with
    | null => exact Or.inr .null
    | bool b => exact Or.inr (.bool b)
    | int n => exact Or.inl (.int (isCount_int_iff.1 h))
    | float x => exact Or.inl (.float h.1 h.2)
    | text t =>
        by_cases hblank : trimChars t.toList = []
        · exact Or.inr (.blank hblank)
        have hread : (spelled? t.toList).isSome := by
          by_contra hnone
          have hfinite := h.1
          rw [toNumber, Option.not_isSome_iff_eq_none.1 hnone] at hfinite
          exact absurd hfinite (by decide)
        rcases spelled?_isSome_iff.1 hread with hspells | hsigned
        · exact Or.inl (.text hblank hspells h.1 h.2)
        · exact Or.inr (.signed hsigned)
  · rintro (h | h)
    · exact h.isCount
    · exact h.isCount

/-- The number that a value is taken for where a number of rows stands. -/
def amount : Value → ℚ
  | .int n => n.toInt
  | v => toRat v.toNumber.magnitude

/-- The rows that a value allows: its fraction is cut off, and there are no more than 64 bits can count. -/
def rowCount (v : Value) : Nat := min ⌊v.amount⌋₊ (2 ^ 64 - 1)

theorem limit?_of_isCount (h : v.IsCount) : Statement.limit? v = some v.rowCount := by
  -- Integers are read as they are; every other value is read as a number first.
  have hother : ∀ w : Value, w.IsCount → w.amount = toRat w.toNumber.magnitude →
      (if w.toNumber.isFinite && decide (0 ≤ w.toNumber.key) then
        some (min w.toNumber.truncate Statement.greatestLimit) else none) = some w.rowCount := by
    intro w hw hamount
    have hcount : (w.toNumber.isFinite && decide (0 ≤ w.toNumber.key)) = true :=
      Bool.and_eq_true_iff.2 ⟨hw.1, decide_eq_true hw.2⟩
    rw [if_pos hcount, rowCount, hamount, truncate_eq_floor]
    rfl
  cases v with
  | int n =>
      have hn := isCount_int_iff.1 h
      have hhigh := n.toInt_lt
      have hfloor : ⌊(Value.int n).amount⌋₊ = n.toInt.toNat := by
        rw [amount, ← Int.floor_toNat, Int.floor_intCast]
      have hfits : n.toInt.toNat ≤ 2 ^ 64 - 1 := by omega
      rw [Statement.limit?, if_pos hn, rowCount, hfloor, Nat.min_eq_left hfits]
  | null => exact hother _ h rfl
  | bool b => exact hother _ h rfl
  | float x => exact hother _ h rfl
  | text t => exact hother _ h rfl

theorem rowCount_of_limit? {n : Nat} (h : Statement.limit? v = some n) : v.rowCount = n := by
  have hcount : v.IsCount := (Statement.limit?_isSome_iff v).1 (h ▸ rfl)
  exact Option.some.inj ((limit?_of_isCount hcount).symm.trans h)

theorem limit?_of_not_isCount (h : ¬ v.IsCount) : Statement.limit? v = none :=
  Option.not_isSome_iff_eq_none.1 (mt (Statement.limit?_isSome_iff v).1 h)

end Value

end TableQuery
