import TableQuery.Literal
import TableQuery.Proofs.Outcome

/-! What taking the literals and the placeholders out of a text does at the front of the text, and
induction along these steps. -/

namespace TableQuery

/-! ### Quoted texts -/

theorem replaceQuoted_nil (count : Nat) : replaceQuoted count [] = .ok ([], []) := by
  rw [replaceQuoted]

def isQuote (c : Char) : Bool := c = '\'' || c = '"'

theorem replaceQuoted_quote {quote : Char} (hquote : isQuote quote) {cs content rest : List Char}
    (h : takeQuoted quote cs = some (content, rest)) (count : Nat) :
    replaceQuoted count (quote :: cs) = (replaceQuoted (count + 1) rest).map fun p =>
      (label (count + 1) ++ p.1, .text (String.ofList content) :: p.2) := by
  unfold isQuote at hquote
  rw [replaceQuoted, if_pos hquote]
  split
  · rename_i hnone
    rw [h] at hnone
    cases hnone
  · rename_i content' rest' hsome
    rw [h] at hsome
    cases hsome
    cases replaceQuoted (count + 1) rest <;> rfl

theorem replaceQuoted_plain {c : Char} (h : ¬ isQuote c) (count : Nat) (cs : List Char) :
    replaceQuoted count (c :: cs) = (replaceQuoted count cs).map fun p => (c :: p.1, p.2) := by
  unfold isQuote at h
  rw [replaceQuoted, if_neg h]
  cases replaceQuoted count cs <;> rfl

theorem backslash_ne_of_isQuote {quote : Char} (h : isQuote quote) : quote ≠ '\\' := by
  rintro rfl
  exact absurd h (by decide)

/-- What is written between two quotes, and the content that it stands for. A backslash before the quote or
another backslash escapes it, and stands for itself before anything else; it cannot be last. -/
inductive Body (quote : Char) : List Char → List Char → Prop
  | nil : Body quote [] []
  | escape {c : Char} {body content : List Char} (hc : c = quote ∨ c = '\\') (hbody : Body quote body content) :
      Body quote ('\\' :: c :: body) (c :: content)
  | char {c : Char} {body content : List Char} (hc : c ≠ quote)
      (hlone : c = '\\' → ∃ d ∈ body.head?, d ≠ quote ∧ d ≠ '\\') (hbody : Body quote body content) :
      Body quote (c :: body) (c :: content)

section Body

variable {quote : Char} {body content : List Char}

theorem takeQuoted_quote (hquote : quote ≠ '\\') (rest : List Char) :
    takeQuoted quote (quote :: rest) = some ([], rest) := by
  rw [takeQuoted, if_pos rfl]
  exact fun _ _ h _ => hquote h

theorem takeQuoted_of_body (hquote : quote ≠ '\\') (h : Body quote body content) (rest : List Char) :
    takeQuoted quote (body ++ quote :: rest) = some (content, rest) := by
  induction h with
  | nil => exact takeQuoted_quote hquote rest
  | @escape c body content hc hbody ih =>
      have hescaped : (decide (c = quote) || decide (c = '\\')) = true := by simpa using hc
      rw [List.cons_append, List.cons_append, takeQuoted, if_pos hescaped, ih]
      rfl
  | @char c body content hc hlone hbody ih =>
      by_cases hbackslash : c = '\\'
      · obtain ⟨d, hd, hne, hne'⟩ := hlone hbackslash
        obtain ⟨body, rfl⟩ := List.head?_eq_some_iff.1 hd
        have hplain : ¬ (decide (d = quote) || decide (d = '\\')) = true := by simp [hne, hne']
        rw [hbackslash, List.cons_append, List.cons_append, takeQuoted, if_neg hplain, ← List.cons_append, ih]
        rfl
      · rw [List.cons_append, takeQuoted, if_neg hc, ih]
        · rfl
        · exact fun _ _ h _ => hbackslash h

/-- A backslash before every backslash and every quote. -/
def escaped (quote : Char) (cs : List Char) : List Char :=
  cs.flatMap fun c => if c = '\\' ∨ c = quote then ['\\', c] else [c]

theorem body_escaped (quote : Char) (cs : List Char) : Body quote (escaped quote cs) cs := by
  induction cs with
  | nil => exact .nil
  | cons c cs ih =>
      by_cases hc : c = '\\' ∨ c = quote
      · have hescaped : escaped quote (c :: cs) = '\\' :: c :: escaped quote cs := by
          rw [escaped, List.flatMap_cons, if_pos hc]
          rfl
        rw [hescaped]
        exact .escape hc.symm ih
      · have hescaped : escaped quote (c :: cs) = c :: escaped quote cs := by
          rw [escaped, List.flatMap_cons, if_neg hc]
          rfl
        obtain ⟨hbackslash, hne⟩ := not_or.1 hc
        rw [hescaped]
        exact .char hne (fun h => absurd h hbackslash) ih

theorem takeQuoted_escaped (hquote : isQuote quote) (cs rest : List Char) :
    takeQuoted quote (escaped quote cs ++ quote :: rest) = some (cs, rest) :=
  takeQuoted_of_body (backslash_ne_of_isQuote hquote) (body_escaped quote cs) rest

end Body

/-! ### Placeholders -/

/-- Whether a colon before this text begins the placeholder of a name. -/
def startsName (cs : List Char) : Bool := cs.head?.any Text.isWordStart

/-- Whether the character stands for itself before this text, being the mark of no placeholder. -/
def Unmarked (c : Char) (cs : List Char) : Prop := c ≠ '?' ∧ (c = ':' → ¬ startsName cs)

theorem text_cases (cs : List Char) : cs = [] ∨ (∃ rest, cs = ':' :: rest ∧ startsName rest) ∨
    (∃ rest, cs = '?' :: rest) ∨ ∃ c rest, cs = c :: rest ∧ Unmarked c rest := by
  rcases cs with _ | ⟨c, rest⟩
  · exact Or.inl rfl
  by_cases hposition : c = '?'
  · exact Or.inr (Or.inr (Or.inl ⟨rest, by rw [hposition]⟩))
  by_cases hname : c = ':' ∧ startsName rest
  · exact Or.inr (Or.inl ⟨rest, by rw [hname.1], hname.2⟩)
  · exact Or.inr (Or.inr (Or.inr ⟨c, rest, rfl, hposition, fun hc hs => hname ⟨hc, hs⟩⟩))

/-- What is shown of a text follows from the same of the texts behind its first placeholder or
character. -/
theorem placeholder_induction {motive : List Char → Prop} (nil : motive [])
    (name : ∀ cs, startsName cs → motive (cs.dropWhile Text.isWordChar) → motive (':' :: cs))
    (position : ∀ cs, motive cs → motive ('?' :: cs))
    (plain : ∀ c cs, Unmarked c cs → motive cs → motive (c :: cs)) (cs : List Char) : motive cs := by
  rcases text_cases cs with rfl | ⟨rest, rfl, hname⟩ | ⟨rest, rfl⟩ | ⟨c, rest, rfl, hplain⟩
  · exact nil
  · exact name rest hname (placeholder_induction nil name position plain _)
  · exact position rest (placeholder_induction nil name position plain rest)
  · exact plain c rest hplain (placeholder_induction nil name position plain rest)
termination_by cs.length
decreasing_by
  all_goals subst cs
  · exact Nat.lt_succ_of_le (Text.length_dropWhile_le Text.isWordChar rest)
  · exact Nat.lt_succ_self _
  · exact Nat.lt_succ_self _

variable (subs : Option Substitutions) (given count : Nat)

theorem replacePlaceholders_nil (left : List Value) :
    replacePlaceholders subs given count left [] =
      if left.isEmpty then .ok ([], []) else .error (.unusedPositions left.length) := by
  rw [replacePlaceholders]

/-- The name at the front of a text. -/
def nameAt (cs : List Char) : String := String.ofList (cs.takeWhile Text.isWordChar)

/-- What comes of a placeholder: an error if it has no value, else its label before the rest. -/
def filled (err : QueryError) (value : Option Value)
    (rest : Except QueryError (List Char × List Value)) : Except QueryError (List Char × List Value) :=
  match value with
  | none => .error err
  | some v => rest.map fun p => (label (count + 1) ++ p.1, v :: p.2)

theorem replacePlaceholders_name {cs : List Char} (h : startsName cs) (left : List Value) :
    replacePlaceholders subs given count left (':' :: cs) =
      filled count (.unresolvedName (nameAt cs)) (Substitutions.byName? subs (nameAt cs))
        (replacePlaceholders subs given (count + 1) left (cs.dropWhile Text.isWordChar)) := by
  rcases cs with _ | ⟨c, cs⟩
  · cases h
  have hstart : Text.isWordStart c := h
  rw [replacePlaceholders, if_pos hstart]
  simp only [nameAt]
  cases Substitutions.byName? subs (String.ofList ((c :: cs).takeWhile Text.isWordChar)) with
  | none => rfl
  | some v =>
      rw [filled]
      cases replacePlaceholders subs given (count + 1) left ((c :: cs).dropWhile Text.isWordChar) <;> rfl

theorem replacePlaceholders_position (left : List Value) (cs : List Char) :
    replacePlaceholders subs given count left ('?' :: cs) =
      filled count (.unresolvedPosition given) left.head?
        (replacePlaceholders subs given (count + 1) left.tail cs) := by
  rw [replacePlaceholders.eq_def]
  cases left with
  | nil => rfl
  | cons v left =>
      split
      · rename_i heq
        cases heq
      · rename_i heq
        cases heq
      · rename_i heq
        cases heq
        rw [if_pos rfl, List.head?_cons, List.tail_cons]
        simp only [filled]
        cases replacePlaceholders subs given (count + 1) left cs <;> rfl

theorem replacePlaceholders_plain {c : Char} {cs : List Char} (h : Unmarked c cs) (left : List Value) :
    replacePlaceholders subs given count left (c :: cs) =
      (replacePlaceholders subs given count left cs).map fun p => (c :: p.1, p.2) := by
  obtain ⟨hposition, hname⟩ := h
  by_cases hcolon : c = ':' ∧ cs ≠ []
  · obtain ⟨rfl, hcs⟩ := hcolon
    obtain ⟨d, cs, rfl⟩ := List.exists_cons_of_ne_nil hcs
    have hstart : ¬ Text.isWordStart d := hname rfl
    rw [replacePlaceholders, if_neg hstart]
    cases replacePlaceholders subs given count left (d :: cs) <;> rfl
  · rw [replacePlaceholders.eq_def]
    split
    · rename_i heq
      cases heq
    · rename_i heq
      cases heq
      exact absurd ⟨rfl, List.cons_ne_nil _ _⟩ hcolon
    · rename_i heq
      cases heq
      rw [if_neg hposition]
      cases replacePlaceholders subs given count left cs <;> rfl

end TableQuery
