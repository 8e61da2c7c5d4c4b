import TableQuery.Literal
import TableQuery.Proofs.Token.Lexeme

/-! Labels are words that are read as identifiers, and each stands for one value. -/

namespace TableQuery

open Text Token

theorem label_injective {m n : Nat} (h : label m = label n) : m = n := by
  have hdigits : Nat.toDigits 10 m = Nat.toDigits 10 n :=
    List.append_cancel_left (List.append_cancel_right h)
  have hm : Nat.ofDigitChars 10 (Nat.toDigits 10 m) 0 = m := Nat.ofDigitChars_ten_toDigits
  rw [hdigits, Nat.ofDigitChars_ten_toDigits] at hm
  exact hm.symm

theorem label_eq_cons (n : Nat) :
    label n = '_' :: ("LIT".toList ++ Nat.toDigits 10 n ++ ['_']) := rfl

theorem isWord_label (n : Nat) : IsWord (label n) := by
  refine ⟨⟨'_', _, label_eq_cons n, by decide⟩, fun c hc => ?_⟩
  rcases List.mem_append.1 hc with hc | hc
  · rcases List.mem_append.1 hc with hc | hc
    · have hprefix : ∀ c ∈ "_LIT".toList, isWordChar c := List.all_eq_true.1 rfl
      exact hprefix c hc
    · exact isWordChar_of_isDigit (isDigit_toDigits n c hc)
  · rw [List.mem_singleton.1 hc]
    decide

theorem upper_label (n : Nat) :
    (upper (label n)).toList = '_' :: capitals ("LIT".toList ++ Nat.toDigits 10 n ++ ['_']) := by
  rw [upper, String.toList_ofList, label_eq_cons]
  rfl

theorem ofWord?_of_underscore {word : String} {cs : List Char} (h : word.toList = '_' :: cs) :
    Keyword.ofWord? word = none ∧ Keyword.compound? word = none := by
  constructor
  · rw [Keyword.ofWord?.eq_def]
    split
    all_goals first | rfl | cases h
  · rw [Keyword.compound?.eq_def]
    split
    all_goals first | rfl | cases h

theorem lexes_label (n : Nat) : Lexes (label n) (.ident (String.ofList (label n))) := by
  obtain ⟨hword, hcompound⟩ := ofWord?_of_underscore (upper_label n)
  exact lexes_ident (isWord_label n) hword hcompound

namespace Extraction

theorem resolveFrom_label {values : List Value} {k : Nat} {v : Value} (h : values[k]? = some v)
    (number : Nat) : resolveFrom number (label (number + k)) values = some v := by
  induction values generalizing number k with
  | nil => cases h
  | cons u values ih =>
      cases k with
      | zero =>
          cases h
          rw [Nat.add_zero, resolveFrom, if_pos rfl]
      | succ k =>
          have hne : label (number + (k + 1)) ≠ label number := fun heq => by
            have := label_injective heq
            omega
          have hnext : number + (k + 1) = number + 1 + k := by omega
          rw [resolveFrom, if_neg hne, hnext]
          exact ih h (number + 1)

theorem resolveFrom_of_ne {word : List Char} (h : ∀ n, word ≠ label n) (number : Nat)
    (values : List Value) : resolveFrom number word values = none := by
  induction values generalizing number with
  | nil => rfl
  | cons u values ih =>
      rw [resolveFrom, if_neg (h number)]
      exact ih (number + 1)

theorem resolve?_label {e : Extraction} {k : Nat} {v : Value} (h : e.values[k]? = some v) :
    e.resolve? (String.ofList (label (k + 1))) = some v := by
  rw [resolve?, String.toList_ofList, Nat.add_comm]
  exact resolveFrom_label h 1

theorem exists_of_resolveFrom {number : Nat} {word : List Char} {values : List Value} {v : Value}
    (h : resolveFrom number word values = some v) : ∃ k, values[k]? = some v ∧ word = label (number + k) := by
  induction values generalizing number with
  | nil => cases h
  | cons u values ih =>
      rw [resolveFrom] at h
      split at h
      next hword =>
        cases h
        exact ⟨0, rfl, hword⟩
      · obtain ⟨k, hk, hword⟩ := ih h
        exact ⟨k + 1, hk, by rw [hword, Nat.add_right_comm, Nat.add_assoc]⟩

/-- Only the labels of the command are resolved. -/
theorem exists_of_resolve? {e : Extraction} {word : String} {v : Value} (h : e.resolve? word = some v) :
    ∃ k, e.values[k]? = some v ∧ word.toList = label (k + 1) := by
  obtain ⟨k, hk, hword⟩ := exists_of_resolveFrom h
  exact ⟨k, hk, by rw [hword, Nat.add_comm]⟩

end Extraction
end TableQuery
