import TableQuery.Value.Document
import TableQuery.Proofs.Json.Shapes

/-! Integers are read back from their numerals, over the whole range of a word. -/

namespace TableQuery

open Number Text

namespace Number

theorem eq_zero_of_head?_toDigits {n : Nat} (h : (Nat.toDigits 10 n).head? = some '0') : n = 0 := by
  induction n using Nat.strongRecOn with
  | ind n ih =>
      by_cases hn : n < 10
      · rw [Nat.toDigits_of_lt_base hn] at h
        exact Nat.digitChar_eq_zero.1 (Option.some.inj h)
      · have hbase : 10 ≤ n := Nat.le_of_not_lt hn
        rw [Nat.toDigits_of_base_le (by decide) hbase, List.head?_append_of_ne_nil _ Nat.toDigits_ne_nil] at h
        have hzero := ih (n / 10) (by omega) h
        omega

theorem Numeral.isJson_ofInt (n : Int) : (Numeral.ofInt n).IsJson where
  ne_nil := Nat.toDigits_ne_nil
  digits := isDigit_toDigits _
  zero := by
    intro h
    have hzero : n.natAbs = 0 := eq_zero_of_head?_toDigits h
    rw [Numeral.ofInt, hzero]
    rfl
  fraction := by
    rintro ds ⟨⟩
  exponent := by
    rintro e ⟨⟩

end Number

namespace Json

theorem legible_ofInt (n : Int) : (ofInt n).Legible := .number (Numeral.isJson_ofInt n)

theorem worth?_natural {m : Nat} (h : m < 2 ^ 64) : worth? (Numeral.ofInt m) = some (.natural m) := by
  have hdigits : Nat.ofDigitChars 10 (Nat.toDigits 10 m) 0 = m := Nat.ofDigitChars_ten_toDigits
  have hpos : ¬ (m : Int) < 0 := by omega
  simp [worth?, Numeral.ofInt, hdigits, hpos, h]

theorem worth?_negative {m : Nat} (hpos : m ≠ 0) (h : m ≤ 2 ^ 63) :
    worth? (Numeral.ofInt (-m)) = some (.negative m) := by
  have hdigits : Nat.ofDigitChars 10 (Nat.toDigits 10 m) 0 = m := Nat.ofDigitChars_ten_toDigits
  have hword : m < 2 ^ 64 := by omega
  simp [worth?, Numeral.ofInt, hdigits, hword, hpos, h]

theorem readsAs_word (n : UInt64) : ReadsAs (fun n : UInt64 => ofInt n.toNat) word? n n where
  legible := legible_ofInt _
  back := by
    rw [ofInt, word?, worth?_natural n.toNat_lt]
    exact congrArg some UInt64.ofNat_toNat

/-- A signed word is a natural number below `2 ^ 63` or the opposite of one up to it. -/
theorem signed_cases (n : Int64) :
    (∃ m : Nat, m < 2 ^ 63 ∧ n.toInt = m ∧ Int64.ofNat m = n) ∨
      ∃ m : Nat, m ≠ 0 ∧ m ≤ 2 ^ 63 ∧ n.toInt = -m ∧ Int64.ofInt (-m) = n := by
  have hlow := Int64.le_toInt n
  have hhigh := Int64.toInt_lt n
  rcases Int.lt_or_le n.toInt 0 with hneg | hpos
  · obtain ⟨m, hm⟩ := Int.eq_ofNat_of_zero_le (show 0 ≤ -n.toInt by omega)
    refine .inr ⟨m, by omega, by omega, by omega, ?_⟩
    rw [← hm, Int.neg_neg, Int64.ofInt_toInt]
  · obtain ⟨m, hm⟩ := Int.eq_ofNat_of_zero_le hpos
    refine .inl ⟨m, by omega, hm, ?_⟩
    rw [← Int64.ofInt_eq_ofNat, ← hm, Int64.ofInt_toInt]

theorem readsAs_int (n : Int64) : ReadsAs (fun n : Int64 => ofInt n.toInt) int? n n where
  legible := legible_ofInt _
  back := by
    rcases signed_cases n with ⟨m, hm, hn, hback⟩ | ⟨m, hpos, hm, hn, hback⟩
    · have hword : m < 2 ^ 64 := by omega
      rw [ofInt, int?, hn, worth?_natural hword]
      simp [hm, hback]
    · rw [ofInt, int?, hn, worth?_negative hpos hm]
      simp [hback]

end Json

namespace Value

theorem readsAs_int (n : Int64) : Json.ReadsAs toJson ofJson? (.int n) (.int n) where
  legible := Json.legible_ofInt _
  back := by
    rcases Json.signed_cases n with ⟨m, hm, hn, hback⟩ | ⟨m, hpos, hm, hn, hback⟩
    · have hword : m < 2 ^ 64 := by omega
      rw [toJson, Json.ofInt, ofJson?, hn, Json.worth?_natural hword]
      simp [ofWorth, hm, hback]
    · rw [toJson, Json.ofInt, ofJson?, hn, Json.worth?_negative hpos hm]
      simp [ofWorth, hback]

/-- Every value but a float is read back. -/
theorem readsAs_self {v : Value} (h : v.float? = none) : Json.ReadsAs toJson ofJson? v v := by
  cases v with
  | null => exact ⟨.null, rfl⟩
  | bool b => exact ⟨.bool b, rfl⟩
  | int n => exact readsAs_int n
  | float x => cases h
  | text s => exact ⟨.text s, rfl⟩

end Value
end TableQuery
