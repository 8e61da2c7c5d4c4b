import TableQuery.Proofs.Number.Spelling
import TableQuery.Proofs.Token.Concatenation

/-! Integer literals. An integer may be written with zeros in front of its digits. Wherever the lexer comes to
one it takes the whole literal for one token, which is the integer itself if it fits in 64 bits and the nearest
float if it does not. -/

namespace TableQuery

open Text

namespace Token

/-! ### The course of the lexer -/

/-- The lexer reads these tokens at the front of a text and then stands before the rest. -/
inductive Reaches (rest : List Char) : List Char → List Token → Prop
  | here : Reaches rest rest []
  | blank {c : Char} {cs : List Char} {ts : List Token} (hc : isBlank c) (h : Reaches rest cs ts) :
      Reaches rest (c :: cs) ts
  | token {c : Char} {cs after : List Char} {t : Token} {ts : List Token} (hc : isBlank c = false)
      (htake : take c cs = .ok (t, after)) (h : Reaches rest after ts) : Reaches rest (c :: cs) (t :: ts)

namespace Reaches

variable {text middle rest : List Char} {ts us : List Token}

theorem scan_eq (h : Reaches rest text ts) : scan text = (scan rest).map (ts ++ ·) := by
  induction h with
  | here => cases scan rest <;> rfl
  | blank hc h ih => rw [scan_blank_cons hc, ih]
  | token hc htake h ih =>
      rw [scan_cons hc htake, ih]
      cases scan rest <;> rfl

theorem trans (h : Reaches middle text ts) (h' : Reaches rest middle us) : Reaches rest text (ts ++ us) := by
  induction h with
  | here => exact h'
  | blank hc h ih => exact .blank hc ih
  | token hc htake h ih => exact .token hc htake ih

end Reaches

end Token

open Token

/-- An integer as it is written: a minus sign or none, then digits, with zeros in front of them or not. -/
structure IntegerLiteral where
  negative : Bool
  digits : List Char
  ne_nil : digits ≠ []
  isDigit : ∀ c ∈ digits, c.isDigit

namespace IntegerLiteral

variable (l : IntegerLiteral) {tail : List Char} {n : Int64}

def chars : List Char := (if l.negative then ['-'] else []) ++ l.digits

def text : String := String.ofList l.chars

/-- The integer that is written. -/
def value : Int :=
  let k : Nat := Nat.ofDigitChars 10 l.digits 0
  if l.negative then -k else k

/-- The integer is one of 64 bits with a sign. -/
def Fits : Prop := -2 ^ 63 ≤ l.value ∧ l.value < 2 ^ 63

instance : Decidable l.Fits := inferInstanceAs (Decidable (_ ∧ _))

def token : Token := if l.Fits then .number (Int64.ofInt l.value) else .float (.ofInt l.value)

/-- The digits of an integer without zeros in front. -/
def ofInt (n : Int) : IntegerLiteral :=
  ⟨n < 0, Nat.toDigits 10 n.natAbs, Nat.toDigits_ne_nil, isDigit_toDigits n.natAbs⟩

theorem value_ofInt (n : Int) : (ofInt n).value = n := by
  simp only [value, ofInt, Nat.ofDigitChars_ten_toDigits, decide_eq_true_eq]
  split <;> omega

/-! ### Its token -/

theorem ofNumeral_eq : ofNumeral ⟨l.negative, l.digits, none, none⟩ = l.token := by
  have hint : (⟨l.negative, l.digits, none, none⟩ : Number.Numeral).int? = some l.value := rfl
  have hnearest : ¬ l.Fits →
      (⟨l.negative, l.digits, none, none⟩ : Number.Numeral).nearest = Binary64.ofInt l.value := by
    intro hfits
    have hsign : decide (l.value < 0) = l.negative := by
      unfold Fits at hfits
      unfold value at hfits ⊢
      cases l.negative with
      | true => simp at hfits ⊢; omega
      | false => simp
    have hmagnitude : l.value.natAbs = Nat.ofDigitChars 10 l.digits 0 := by
      unfold value
      cases l.negative <;> simp
    rw [Number.nearest_whole, Binary64.ofInt, hsign, hmagnitude]
  rw [ofNumeral, hint, token]
  by_cases hfits : l.Fits
  · rw [if_pos hfits]
    exact if_pos hfits
  · rw [if_neg hfits, ← hnearest hfits]
    exact if_neg hfits

/-- The token is an integer only if that is the one that is written. -/
theorem token_eq_number_iff : l.token = .number n ↔ n.toInt = l.value := by
  unfold token
  split
  next hfits =>
    have hvalue : (Int64.ofInt l.value).toInt = l.value := Int64.toInt_ofInt_of_le hfits.1 hfits.2
    rw [number.injEq, ← Int64.toInt_inj, hvalue, eq_comm]
  next hfits =>
    refine iff_of_false nofun fun hn => hfits ?_
    rw [Fits, ← hn]
    exact ⟨n.le_toInt, n.toInt_lt⟩

theorem exists_token_eq_number_iff : (∃ n : Int64, l.token = .number n) ↔ l.Fits := by
  unfold token
  split
  next hfits => exact iff_of_true ⟨_, rfl⟩ hfits
  next hfits => exact iff_of_false nofun hfits

theorem token_of_not_fits (h : ¬ l.Fits) : l.token = .float (.ofInt l.value) := if_neg h

/-- The lexer takes the whole literal at once. -/
theorem reaches (htail : ∀ c ∈ tail.head?, isNumberChar c = false) :
    Reaches tail (l.chars ++ tail) [l.token] := by
  have hends : ∀ c ∈ tail.head?, c.isDigit = false := fun c hc => (Bool.or_eq_false_iff.1 (htail c hc)).1
  have hdrop : (l.digits ++ tail).dropWhile Char.isDigit = tail := dropWhile_run l.isDigit hends
  have htake : (l.digits ++ tail).takeWhile Char.isDigit = l.digits := takeWhile_run l.isDigit hends
  have hpoint : ∀ c ∈ ((l.digits ++ tail).dropWhile Char.isDigit).head?, c ≠ '.' := by
    rw [hdrop]
    rintro c hc rfl
    exact absurd (htail '.' hc) (by decide)
  have hnumber : takeNumber l.negative (l.digits ++ tail) = .ok (l.token, tail) := by
    rw [takeNumber_whole hpoint, htake, hdrop, l.ofNumeral_eq]
  obtain ⟨d, ds, hds⟩ := List.exists_cons_of_ne_nil l.ne_nil
  have hd : d.isDigit := l.isDigit d (hds ▸ List.mem_cons_self)
  rw [hds, List.cons_append] at hnumber
  unfold chars
  cases hnegative : l.negative with
  | true =>
      rw [hnegative] at hnumber
      rw [if_pos rfl, hds, List.singleton_append, List.cons_append, List.cons_append]
      exact .token (by decide) ((take_minus hd _).trans hnumber) .here
  | false =>
      rw [hnegative] at hnumber
      rw [if_neg Bool.false_ne_true, hds, List.nil_append, List.cons_append]
      exact .token (isBlank_of_isWordChar (isWordChar_of_isDigit hd)) ((take_digit hd _).trans hnumber) .here

end IntegerLiteral

end TableQuery
