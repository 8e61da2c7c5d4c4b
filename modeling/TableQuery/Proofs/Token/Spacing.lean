import TableQuery.Proofs.Token.LetterCase

/-! Spacing carries no meaning. Blanks between two characters that cannot stand side by side in one token, and
the length and the kind of a run of blanks anywhere, do not change the tokens of a text. -/

namespace TableQuery.Token

open Text

/-! ### Boundaries -/

section Boundaries

variable {c d : Char}

/-- A character that belongs to no word, number or comparator. -/
structure IsLoose (c : Char) : Prop where
  word : isWordChar c = false
  operator : isOperatorChar c = false
  point : c ≠ '.'
  minus : c ≠ '-'

namespace IsLoose

theorem digit (h : IsLoose c) : c.isDigit = false := by
  rw [Bool.eq_false_iff]
  intro hdigit
  have hword := h.word
  rw [isWordChar_of_isDigit hdigit] at hword
  cases hword

theorem joins_left (h : IsLoose d) (c : Char) : joins d c = false := by
  simp [joins, h.word, h.operator, h.digit, h.point, h.minus]

theorem joins_right (h : IsLoose c) (d : Char) : joins d c = false := by
  simp [joins, h.word, h.operator, h.digit, h.point]

theorem of_isBlank (h : isBlank c) : IsLoose c where
  word := isWordChar_of_isBlank h
  operator := isOperatorChar_of_isBlank h
  point := ne_of_isBlank h (by decide)
  minus := ne_of_isBlank h (by decide)

end IsLoose

theorem operator_apart (h : isOperatorChar c) :
    isWordChar c = false ∧ c.isDigit = false ∧ c ≠ '.' ∧ c ≠ '-' := by
  have hmem : c ∈ ['!', '=', '<', '>'] := by simpa [isOperatorChar, or_assoc] using h
  simp only [List.mem_cons, List.not_mem_nil, or_false] at hmem
  rcases hmem with rfl | rfl | rfl | rfl <;> decide

/-- A character of a comparator joins its own kind only. -/
theorem joins_operator_left (hd : isOperatorChar d) (hc : isOperatorChar c = false) : joins d c = false := by
  obtain ⟨hword, hdigit, hpoint, hminus⟩ := operator_apart hd
  simp [joins, hc, hword, hdigit, hpoint, hminus]

theorem joins_operator_right (hd : isOperatorChar d = false) (hc : isOperatorChar c) : joins d c = false := by
  obtain ⟨hword, hdigit, hpoint, -⟩ := operator_apart hc
  simp [joins, hd, hword, hdigit, hpoint]

end Boundaries

/-! ### Exchanging blanks -/

section Blanks

variable {front back bs bs' : List Char}

theorem boundary_blanks (hbs : ∀ c ∈ bs, isBlank c) (h : bs = [] → Boundary front back) :
    Boundary front (bs ++ back) := by
  cases bs with
  | nil => exact h rfl
  | cons b bs =>
      rintro d - c hc
      cases hc
      exact (IsLoose.of_isBlank (hbs b List.mem_cons_self)).joins_right d

/-- **The blanks between two texts can be exchanged**, and left out where the texts have a boundary. -/
theorem scan_exchange_blanks (hbs : ∀ c ∈ bs, isBlank c) (hbs' : ∀ c ∈ bs', isBlank c)
    (h : bs = [] ∨ bs' = [] → Boundary front back) :
    scan (front ++ (bs ++ back)) = scan (front ++ (bs' ++ back)) := by
  refine scan_append_congr front (boundary_blanks hbs fun hnil => h (Or.inl hnil))
    (boundary_blanks hbs' fun hnil => h (Or.inr hnil)) ?_ fun second => ?_
  · rw [scan_blanks hbs, scan_blanks hbs']
  · rw [takeSecond_blanks_append hbs, takeSecond_blanks_append hbs']

/-- Blanks are left out where two texts have a boundary. -/
theorem scan_insert_blanks (hbs : ∀ c ∈ bs, isBlank c) (h : Boundary front back) :
    scan (front ++ back) = scan (front ++ (bs ++ back)) :=
  scan_exchange_blanks (List.forall_mem_nil _) hbs fun _ => h

end Blanks

/-! ### Changes of spacing -/

/-- A mark that is a token wherever it stands. A point is none, for it may belong to a number. -/
def isLoneMark (c : Char) : Bool := c = '(' || c = ')' || c = ',' || c = ';' || c = '*'

theorem IsLoose.of_isLoneMark {c : Char} (h : isLoneMark c) : IsLoose c := by
  have hmem : c ∈ ['(', ')', ',', ';', '*'] := by simpa [isLoneMark, or_assoc] using h
  simp only [List.mem_cons, List.not_mem_nil, or_false] at hmem
  rcases hmem with rfl | rfl | rfl | rfl | rfl <;> exact ⟨by decide, by decide, by decide, by decide⟩

/-- The second text has more blanks in one place, or other ones. -/
inductive Respaced : List Char → List Char → Prop
  | run {front back bs bs' : List Char} (hbs : ∀ c ∈ bs, isBlank c) (hne : bs ≠ [])
      (hbs' : ∀ c ∈ bs', isBlank c) (hne' : bs' ≠ []) :
      Respaced (front ++ (bs ++ back)) (front ++ (bs' ++ back))
  | start {cs bs : List Char} (hbs : ∀ c ∈ bs, isBlank c) : Respaced cs (bs ++ cs)
  | finish {cs bs : List Char} (hbs : ∀ c ∈ bs, isBlank c) : Respaced cs (cs ++ bs)
  | beforeMark {front back bs : List Char} {c : Char} (hc : isLoneMark c) (hbs : ∀ c ∈ bs, isBlank c) :
      Respaced (front ++ c :: back) (front ++ (bs ++ c :: back))
  | afterMark {front back bs : List Char} {c : Char} (hc : isLoneMark c) (hbs : ∀ c ∈ bs, isBlank c) :
      Respaced (front ++ c :: back) (front ++ c :: (bs ++ back))
  | beforeOperator {front back bs : List Char} {c d : Char} (hd : isOperatorChar d = false)
      (hc : isOperatorChar c) (hbs : ∀ c ∈ bs, isBlank c) :
      Respaced (front ++ d :: c :: back) (front ++ d :: (bs ++ c :: back))
  | afterOperator {front back bs : List Char} {c d : Char} (hc : isOperatorChar c)
      (hd : isOperatorChar d = false) (hbs : ∀ c ∈ bs, isBlank c) :
      Respaced (front ++ c :: d :: back) (front ++ c :: (bs ++ d :: back))

theorem boundary_concat {front back : List Char} {d : Char} (h : ∀ c ∈ back.head?, joins d c = false) :
    Boundary (front ++ [d]) back := by
  intro e he
  rw [List.getLast?_concat] at he
  cases he
  exact h

theorem Respaced.scan_eq {cs cs' : List Char} (h : Respaced cs cs') : scan cs = scan cs' := by
  cases h with
  | run hbs hne hbs' hne' => exact scan_exchange_blanks hbs hbs' fun h => absurd h (by simp [hne, hne'])
  | start hbs => exact (scan_blanks hbs cs).symm
  | @finish _ bs hbs =>
      have hnil : Boundary cs [] := fun _ _ => nofun
      have hscan := scan_insert_blanks hbs hnil
      rwa [List.append_nil, List.append_nil] at hscan
  | beforeMark hc hbs =>
      refine scan_insert_blanks hbs ?_
      rintro d - c ⟨⟩
      exact (IsLoose.of_isLoneMark hc).joins_right d
  | @afterMark front back bs c hc hbs =>
      rw [List.append_cons front c back, List.append_cons front c (bs ++ back)]
      exact scan_insert_blanks hbs (boundary_concat fun d _ => (IsLoose.of_isLoneMark hc).joins_left d)
  | @beforeOperator front back bs c d hd hc hbs =>
      rw [List.append_cons front d (c :: back), List.append_cons front d (bs ++ c :: back)]
      refine scan_insert_blanks hbs (boundary_concat ?_)
      rintro c ⟨⟩
      exact joins_operator_right hd hc
  | @afterOperator front back bs c d hc hd hbs =>
      rw [List.append_cons front c (d :: back), List.append_cons front c (bs ++ d :: back)]
      refine scan_insert_blanks hbs (boundary_concat ?_)
      rintro c ⟨⟩
      exact joins_operator_left hc hd

/-- **Spacing and letter case carry no meaning.** However often and wherever the spacing of a text is changed,
the same tokens are read, or the same error is met. Whatever the case of its letters is, they are the same but
for the letter case of the identifiers. -/
theorem scan_respaced_recased :
    (∀ cs cs', Relation.EqvGen Respaced cs cs' → scan cs = scan cs') ∧
    ∀ cs cs', smallLetters cs = smallLetters cs' →
      (scan cs).map (List.map small) = (scan cs').map (List.map small) := by
  constructor
  · intro cs cs' h
    induction h with
    | rel _ _ h => exact h.scan_eq
    | refl _ => rfl
    | symm _ _ _ ih => exact ih.symm
    | trans _ _ _ _ _ ih ih' => exact ih.trans ih'
  · intro cs cs' h
    rw [← scan_smallLetters, ← scan_smallLetters, h]

/-- A condition and an order, written closely and widely, and in small letters and capitals. -/
theorem scan_respaced_recased_order :
    Relation.EqvGen Respaced "a>=-1 order by b".toList "a >=-1\torder \n by b".toList ∧
      scan "a>=-1 order by b".toList = scan "a >=-1\torder \n by b".toList ∧
      smallLetters "a>=-1 order by b".toList = smallLetters "A>=-1 ORDER By b".toList ∧
      (scan "a>=-1 order by b".toList).map (List.map small) =
        (scan "A>=-1 ORDER By b".toList).map (List.map small) := by
  have hspace := isBlank_of_mem_space
  have hstep : Respaced ([] ++ 'a' :: '>' :: "=-1 order by b".toList)
      ([] ++ 'a' :: ([' '] ++ '>' :: "=-1 order by b".toList)) :=
    .beforeOperator rfl rfl hspace
  have htab : Respaced ("a >=-1".toList ++ ([' '] ++ "order by b".toList))
      ("a >=-1".toList ++ (['\t'] ++ "order by b".toList)) :=
    .run hspace (List.cons_ne_nil _ _) (List.all_eq_true.1 rfl) (List.cons_ne_nil _ _)
  have hline : Respaced ("a >=-1\torder".toList ++ ([' '] ++ "by b".toList))
      ("a >=-1\torder".toList ++ ([' ', '\n', ' '] ++ "by b".toList)) :=
    .run hspace (List.cons_ne_nil _ _) (List.all_eq_true.1 rfl) (List.cons_ne_nil _ _)
  have hrespaced : Relation.EqvGen Respaced "a>=-1 order by b".toList "a >=-1\torder \n by b".toList :=
    .trans _ _ _ (.rel _ _ hstep) (.trans _ _ _ (.rel _ _ htab) (.rel _ _ hline))
  have hrecased : smallLetters "a>=-1 order by b".toList = smallLetters "A>=-1 ORDER By b".toList := by decide
  exact ⟨hrespaced, scan_respaced_recased.1 _ _ hrespaced, hrecased, scan_respaced_recased.2 _ _ hrecased⟩

end TableQuery.Token
