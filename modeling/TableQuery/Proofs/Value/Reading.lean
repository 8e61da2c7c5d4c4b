import TableQuery.Proofs.Number.Grammar
import TableQuery.Proofs.Value.Coherence
import TableQuery.Proofs.Value.Consistency

/-! When a text reads as a number in a comparison. A text that spells none differs from every number and is
in no order with it. -/

namespace TableQuery.Value

open Number Text

section Unread

variable {t : String} {v : Value}

theorem isNaN_toNumber_text_iff : (Value.text t).toNumber.isNaN = false ↔ (spelled? t.toList).isSome := by
  rw [toNumber]
  cases hspelled : spelled? t.toList with
  | none => exact iff_of_false (by decide) Bool.false_ne_true
  | some x => exact iff_of_true (isNaN_of_spelled? hspelled) rfl

theorem IsNumber.isNull (h : v.IsNumber) : v.isNull = false := by
  cases h <;> rfl

theorem IsNumber.not_orderedAsSuch (h : v.IsNumber) : ¬ OrderedAsSuch (.text t) v := by
  intro hordered
  cases hordered with
  | text s t => cases h

theorem looseCompare?_unread (h : (Value.text t).toNumber.isNaN) (hv : v.IsNumber) :
    (Value.text t).looseCompare? v = none ∧ v.looseCompare? (.text t) = none := by
  constructor
  · exact looseCompare?_eq_none_iff.2 ⟨Or.inl h, hv.not_orderedAsSuch⟩
  · exact looseCompare?_eq_none_iff.2 ⟨Or.inr h, fun hordered => hv.not_orderedAsSuch hordered.symm⟩

end Unread

theorem tells_none (op : Comparator) : op.tells none = decide (op = .ne) := by
  cases op <;> decide

/-- **Which texts read as numbers.** A text reads as a number exactly if it spells one, blanks at its ends
apart, or has a plus sign between the mark of a base and its digits. So the grammar alone tells which texts
read as numbers, but for the texts of the second kind. Of the comparison operators only `!=` holds between a
number and a text that does not read as one, on whichever side of the operator the text stands. -/
theorem text_reads_iff (t : String) :
    ((Value.text t).toNumber.isNaN = false ↔
      SpellsNumber (trimChars t.toList) ∨ SignsDigits (trimChars t.toList)) ∧
    (((Value.text t).toNumber.isNaN = false ↔ SpellsNumber (trimChars t.toList)) ↔
      ¬ SignsDigits (trimChars t.toList)) ∧
    ((Value.text t).toNumber.isNaN →
      ∀ (row : Row) (field : String) (v : Value) (op : Comparator), v.IsNumber →
      (row.get? field = some (.text t) → (⟨field, op, v⟩ : Term).matches row = decide (op = .ne)) ∧
      (row.get? field = some v → (⟨field, op, .text t⟩ : Term).matches row = decide (op = .ne))) := by
  have hreads : (Value.text t).toNumber.isNaN = false ↔
      SpellsNumber (trimChars t.toList) ∨ SignsDigits (trimChars t.toList) :=
    isNaN_toNumber_text_iff.trans spelled?_isSome_iff
  refine ⟨hreads, ?_, ?_⟩
  · rw [hreads, or_iff_left_iff_imp]
    exact ⟨fun h hsigns => not_spellsNumber_of_signsDigits hsigns (h hsigns), fun h hsigns => absurd hsigns h⟩
  · intro hnan row field v op hv
    obtain ⟨hleft, hright⟩ := looseCompare?_unread hnan hv
    constructor
    · intro hrow
      rw [Term.matches_eq_tells hrow rfl hv.isNull, hleft, tells_none]
    · intro hrow
      rw [Term.matches_eq_tells hrow hv.isNull rfl, hright, tells_none]

/-- A text that spells infinity in small letters differs from one, and nothing else is said of the two. -/
theorem text_reads_small_letters :
    let row : Row := .ofList [("size", .text "inf")]
    (Value.text "inf").toNumber.isNaN = true ∧ IsNumber (.int 1) ∧ row.get? "size" = some (.text "inf") ∧
      ¬ SpellsNumber (trimChars "inf".toList) ∧ (⟨"size", .ne, .int 1⟩ : Term).matches row = true ∧
      (⟨"size", .gt, .int 1⟩ : Term).matches row = false := by
  intro row
  have hnan : (Value.text "inf").toNumber.isNaN = true := by decide +kernel
  have hrow : row.get? "size" = some (.text "inf") := by decide +kernel
  obtain ⟨hreads, -, hmatches⟩ := text_reads_iff "inf"
  refine ⟨hnan, .int 1, hrow, fun hspells => ?_, ?_, ?_⟩
  · rw [hreads.2 (Or.inl hspells)] at hnan
    cases hnan
  · exact (hmatches hnan row "size" (.int 1) .ne (.int 1)).1 hrow
  · exact (hmatches hnan row "size" (.int 1) .gt (.int 1)).1 hrow

/-- A plus sign after the mark of a base is no part of any spelling, but the text reads as a number. -/
theorem signed_digits_read :
    ¬ ∀ t : String, (Value.text t).toNumber.isNaN = false ↔ SpellsNumber (trimChars t.toList) := by
  intro hspells
  have hone : (Value.text "0x+1").toNumber.isNaN = false := by decide +kernel
  have hmark : ('x', 16) ∈ bases := by decide
  have htrim : trimChars "0x+1".toList = ['0', 'x', '+', '1'] := by decide +kernel
  have hspelled := (hspells "0x+1").1 hone
  rw [htrim, spellsNumber_based_iff hmark] at hspelled
  obtain ⟨n, hdigits, -⟩ := hspelled
  exact not_spellsNatural_plus (Nat.le_refl 16) hdigits

end TableQuery.Value
