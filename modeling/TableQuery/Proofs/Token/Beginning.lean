import TableQuery.Proofs.Token.Lexeme

/-! What a token begins with. The lexer tells the kinds of tokens by their first characters; here each kind has
its own equation, and the cases are told once for all proofs about the lexer. -/

namespace TableQuery.Token

open Text

/-! ### Numbers -/

section Number

variable {negative : Bool} {cs rest : List Char} {t : Token}

theorem ofNumeral_cases (n : Number.Numeral) : (∃ k, ofNumeral n = .number k) ∨ ∃ x, ofNumeral n = .float x := by
  unfold ofNumeral
  split
  · split
    · exact Or.inl ⟨_, rfl⟩
    · exact Or.inr ⟨_, rfl⟩
  · exact Or.inr ⟨_, rfl⟩

theorem takeNumber_whole (h : ∀ c ∈ (cs.dropWhile Char.isDigit).head?, c ≠ '.') :
    takeNumber negative cs =
      .ok (ofNumeral ⟨negative, cs.takeWhile Char.isDigit, none, none⟩, cs.dropWhile Char.isDigit) := by
  unfold takeNumber
  extract_lets whole
  split
  next heq =>
    rw [heq] at h
    exact absurd rfl (h '.' rfl)
  · rfl

theorem takeNumber_point (h : cs.dropWhile Char.isDigit = '.' :: rest)
    (hrest : ∀ c ∈ (rest.dropWhile Char.isDigit).head?, c ≠ '.') :
    takeNumber negative cs = .ok (ofNumeral ⟨negative, cs.takeWhile Char.isDigit,
      some (rest.takeWhile Char.isDigit), none⟩, rest.dropWhile Char.isDigit) := by
  unfold takeNumber
  simp only [h]
  split
  next heq =>
    rw [heq] at hrest
    exact absurd rfl (hrest '.' rfl)
  · rfl

theorem takeNumber_second_point {after : List Char} (h : cs.dropWhile Char.isDigit = '.' :: rest)
    (hrest : rest.dropWhile Char.isDigit = '.' :: after) :
    takeNumber negative cs = .error (.malformed .secondPoint) := by
  unfold takeNumber
  rw [h]
  simp only [hrest]

/-- The points that a number meets: none, one behind its digits, or a second one behind its fraction. -/
inductive NumberShape (cs : List Char) : Prop
  | whole (h : ∀ c ∈ (cs.dropWhile Char.isDigit).head?, c ≠ '.')
  | point {rest : List Char} (h : cs.dropWhile Char.isDigit = '.' :: rest)
      (hrest : ∀ c ∈ (rest.dropWhile Char.isDigit).head?, c ≠ '.')
  | secondPoint {rest after : List Char} (h : cs.dropWhile Char.isDigit = '.' :: rest)
      (hrest : rest.dropWhile Char.isDigit = '.' :: after)

theorem numberShape (cs : List Char) : NumberShape cs := by
  by_cases hpoint : '.' ∈ (cs.dropWhile Char.isDigit).head?
  · obtain ⟨rest, hrest⟩ := List.head?_eq_some_iff.1 hpoint
    by_cases hsecond : '.' ∈ (rest.dropWhile Char.isDigit).head?
    · obtain ⟨after, hafter⟩ := List.head?_eq_some_iff.1 hsecond
      exact .secondPoint hrest hafter
    · exact .point hrest fun c hc heq => hsecond (heq ▸ hc)
  · exact .whole fun c hc heq => hpoint (heq ▸ hc)

theorem takeNumber_token (h : takeNumber negative cs = .ok (t, rest)) :
    (∃ n, t = .number n) ∨ ∃ x, t = .float x := by
  cases numberShape cs with
  | whole hnone =>
      rw [takeNumber_whole hnone] at h
      cases h
      exact ofNumeral_cases _
  | point hfraction hnone =>
      rw [takeNumber_point hfraction hnone] at h
      cases h
      exact ofNumeral_cases _
  | secondPoint hfraction hafter =>
      rw [takeNumber_second_point hfraction hafter] at h
      cases h

end Number

/-! ### Words -/

/-- The token of a word that is no part of a compound keyword. -/
def ofWord (w : List Char) : Token :=
  match Keyword.ofWord? (upper w) with
  | some k => .keyword k
  | none => .ident (String.ofList w)

/-- The compound keyword that the word begins and what stands behind it completes, and what follows. -/
def compound? (w after : List Char) : Option (Token × List Char) :=
  (Keyword.compound? (upper w)).bind fun c => (takeSecond c.1 after).map fun rest => (.keyword c.2, rest)

theorem takeWord_eq (cs : List Char) : takeWord cs =
    (compound? (cs.takeWhile isWordChar) (cs.dropWhile isWordChar)).getD
      (ofWord (cs.takeWhile isWordChar), cs.dropWhile isWordChar) := by
  have hsingle : ∀ w rest, (match Keyword.ofWord? (upper w) with
      | some k => ((.keyword k, rest) : Token × List Char)
      | none => (.ident (String.ofList w), rest)) = (ofWord w, rest) := by
    intro w rest
    unfold ofWord
    split <;> rfl
  unfold takeWord compound?
  extract_lets word rest up single
  rw [show single = (ofWord word, rest) from hsingle word rest, ← show upper word = up from rfl]
  cases Keyword.compound? (upper word) with
  | none => rfl
  | some c =>
      simp only [Option.bind_some]
      cases takeSecond c.1 rest <;> rfl

/-- A word is an identifier as it stands, a keyword, or the first word of a compound keyword. -/
theorem takeWord_cases {cs after : List Char} {t : Token} (h : takeWord cs = (t, after)) :
    t = .ident (String.ofList (cs.takeWhile isWordChar)) ∧
      Keyword.ofWord? (upper (cs.takeWhile isWordChar)) = none ∧ after = cs.dropWhile isWordChar ∨
    (∃ k, t = .keyword k ∧ Keyword.ofWord? (upper (cs.takeWhile isWordChar)) = some k ∧
      after = cs.dropWhile isWordChar) ∨
    ∃ k second, t = .keyword k ∧ Keyword.compound? (upper (cs.takeWhile isWordChar)) = some (second, k) ∧
      takeSecond second (cs.dropWhile isWordChar) = some after := by
  rw [takeWord_eq] at h
  cases hcompound : compound? (cs.takeWhile isWordChar) (cs.dropWhile isWordChar) with
  | none =>
      rw [hcompound, Option.getD_none] at h
      obtain ⟨rfl, rfl⟩ := Prod.mk.inj h
      unfold ofWord
      cases hk : Keyword.ofWord? (upper (cs.takeWhile isWordChar)) with
      | none => exact Or.inl ⟨rfl, rfl, rfl⟩
      | some k => exact Or.inr (Or.inl ⟨k, rfl, rfl, rfl⟩)
  | some r =>
      rw [hcompound, Option.getD_some] at h
      obtain ⟨⟨second, k⟩, hk, hmap⟩ := Option.bind_eq_some_iff.1 hcompound
      obtain ⟨rest, hrest, rfl⟩ := Option.map_eq_some_iff.1 hmap
      cases h
      exact Or.inr (Or.inr ⟨k, second, rfl, hk, hrest⟩)

/-! ### One token -/

section One

variable {c : Char} {cs : List Char}

theorem take_operator (hmark : ofChar? c = none) (h : isOperatorChar c) (cs : List Char) :
    take c cs = match Comparator.ofSymbol? (String.ofList ((c :: cs).takeWhile isOperatorChar)) with
      | some comparator => .ok (.op comparator, (c :: cs).dropWhile isOperatorChar)
      | none => .error (.unknownComparator (String.ofList ((c :: cs).takeWhile isOperatorChar))) := by
  rw [take, hmark]
  exact if_pos h

theorem take_unsupported (hmark : ofChar? c = none) (hop : isOperatorChar c = false)
    (hminus : (c = '-' && cs.head?.any Char.isDigit) = false) (hdigit : c.isDigit = false)
    (hword : isWordStart c = false) : take c cs = .error (.malformed (.unsupported c)) := by
  rw [take, hmark]
  simp only [hop, hminus, hdigit, hword, Bool.false_eq_true, if_false]

theorem take_mark {t : Token} (hmark : ofChar? c = some t) (cs : List Char) : take c cs = .ok (t, cs) := by
  rw [take, hmark]

/-- What a token begins with: a word, a mark, an operator, a number with or without a sign, or none of them. -/
inductive Beginning : Char → List Char → Prop
  | word {c : Char} {cs : List Char} (hword : isWordStart c) : Beginning c cs
  | mark {c : Char} {cs : List Char} {t : Token} (hword : isWordStart c = false) (hmark : ofChar? c = some t) :
      Beginning c cs
  | operator {c : Char} {cs : List Char} (hword : isWordStart c = false) (hmark : ofChar? c = none)
      (hop : isOperatorChar c) : Beginning c cs
  | number {c : Char} {cs : List Char} (hword : isWordStart c = false) (hdigit : c.isDigit) : Beginning c cs
  | negative {d : Char} {cs : List Char} (hdigit : d.isDigit) : Beginning '-' (d :: cs)
  | unsupported {c : Char} {cs : List Char} (hword : isWordStart c = false) (hmark : ofChar? c = none)
      (hop : isOperatorChar c = false) (hminus : (c = '-' && cs.head?.any Char.isDigit) = false)
      (hdigit : c.isDigit = false) : Beginning c cs

theorem beginning (c : Char) (cs : List Char) : Beginning c cs := by
  cases hword : isWordStart c with
  | true => exact .word hword
  | false =>
      cases hmark : ofChar? c with
      | some t => exact .mark hword hmark
      | none =>
          cases hop : isOperatorChar c with
          | true => exact .operator hword hmark hop
          | false =>
              cases hdigit : c.isDigit with
              | true => exact .number hword hdigit
              | false =>
                  cases hminus : (c = '-' && cs.head?.any Char.isDigit) with
                  | false => exact .unsupported hword hmark hop hminus hdigit
                  | true =>
                      obtain ⟨hc, hhead⟩ := Bool.and_eq_true_iff.1 hminus
                      obtain ⟨d, hd, hdigit'⟩ := (Option.any_eq_true _ _).1 hhead
                      obtain ⟨rest, rfl⟩ := List.head?_eq_some_iff.1 hd
                      rw [of_decide_eq_true hc]
                      exact .negative hdigit'

end One

end TableQuery.Token
