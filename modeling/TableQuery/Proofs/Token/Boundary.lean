import TableQuery.Proofs.Token.Beginning

/-! Where a text can be cut between two tokens. Two characters that cannot stand side by side in one token
are a boundary: what is in front of it is read as it is read alone, except that the first word of a compound
keyword looks beyond it for the second. -/

namespace TableQuery.Token

open Text

/-- Whether the characters can stand side by side in one token. -/
def joins (d c : Char) : Bool :=
  isWordChar d && isWordChar c || isOperatorChar d && isOperatorChar c ||
    (d.isDigit || d = '.') && (c.isDigit || c = '.') || d = '-' && c.isDigit

/-- No token goes on from the first text into the second. -/
def Boundary (front tail : List Char) : Prop :=
  ∀ d ∈ front.getLast?, ∀ c ∈ tail.head?, joins d c = false

namespace Boundary

variable {front tail own : List Char}

theorem nil (tail : List Char) : Boundary [] tail := nofun

theorem of_append (h : Boundary (own ++ front) tail) : Boundary front tail := by
  cases front with
  | nil => exact nil tail
  | cons c front => rwa [Boundary, List.getLast?_append_of_ne_nil _ (List.cons_ne_nil c front)] at h

theorem of_suffix (h : Boundary front tail) (hown : own <:+ front) : Boundary own tail := by
  obtain ⟨rest, rfl⟩ := hown
  exact h.of_append

/-- Characters of one class do not stand on both sides. -/
theorem class_eq_false {p : Char → Bool} (hp : ∀ d c, p d → p c → joins d c) (h : Boundary front tail)
    (hne : front ≠ []) (hall : ∀ d ∈ front, p d) : ∀ c ∈ tail.head?, p c = false := by
  intro c hc
  have hlast := h _ (List.getLast?_eq_some_getLast hne) c hc
  rw [Bool.eq_false_iff]
  intro hclass
  rw [hp _ c (hall _ (List.getLast_mem hne)) hclass] at hlast
  cases hlast

end Boundary

theorem joins_words (d c : Char) (hd : isWordChar d) (hc : isWordChar c) : joins d c := by
  simp [joins, hd, hc]

theorem joins_operators (d c : Char) (hd : isOperatorChar d) (hc : isOperatorChar c) : joins d c := by
  simp [joins, hd, hc]

/-- A digit or the point of a number. -/
def isNumberChar (c : Char) : Bool := c.isDigit || c = '.'

theorem joins_numbers (d c : Char) (hd : isNumberChar d) (hc : isNumberChar c) : joins d c := by
  unfold isNumberChar at hd hc
  simp only [joins, hd, hc, Bool.and_self, Bool.or_true, Bool.true_or]

/-! ### Runs -/

section Run

variable {p : Char → Bool} {front tail : List Char}

/-- A run of the class that goes through the first text ends with it. -/
def RunEnds (p : Char → Bool) (front tail : List Char) : Prop :=
  (∀ d ∈ front, p d) → ∀ c ∈ tail.head?, p c = false

theorem takeWhile_append_of_runEnds (h : RunEnds p front tail) :
    (front ++ tail).takeWhile p = front.takeWhile p := by
  by_cases hall : ∀ d ∈ front, p d
  · rw [takeWhile_run hall (h hall), List.takeWhile_eq_self_iff.2 hall]
  · have hlength : (front.takeWhile p).length ≠ front.length := fun heq =>
      hall (List.takeWhile_eq_self_iff.1 ((List.takeWhile_prefix p).eq_of_length heq))
    rw [List.takeWhile_append, if_neg hlength]

theorem dropWhile_append_of_runEnds (h : RunEnds p front tail) :
    (front ++ tail).dropWhile p = front.dropWhile p ++ tail := by
  by_cases hall : ∀ d ∈ front, p d
  · rw [dropWhile_run hall (h hall), List.dropWhile_eq_nil_iff.2 hall, List.nil_append]
  · have hrest : front.dropWhile p ≠ [] := mt List.dropWhile_eq_nil_iff.1 hall
    rw [List.dropWhile_append, if_neg (by simpa using hrest)]

theorem Boundary.runEnds (hp : ∀ d c, p d → p c → joins d c) (h : Boundary front tail) (hne : front ≠ []) :
    RunEnds p front tail := h.class_eq_false hp hne

end Run

/-! ### Numbers -/

section Number

variable {negative : Bool} {cs rest front tail : List Char}

/-- What is read, with more behind what is left. -/
def behind (tail : List Char) (r : Token × List Char) : Token × List Char := (r.1, r.2 ++ tail)

/-- The character at the front of what is left of a run. -/
theorem head?_dropWhile_append {p : Char → Bool} {c : Char} (h : RunEnds p front tail)
    (hc : c ∈ ((front ++ tail).dropWhile p).head?) :
    c ∈ (front.dropWhile p).head? ∨ (∀ d ∈ front, p d) ∧ c ∈ tail.head? := by
  rw [dropWhile_append_of_runEnds h] at hc
  cases hdrop : front.dropWhile p with
  | nil =>
      rw [hdrop, List.nil_append] at hc
      exact Or.inr ⟨List.dropWhile_eq_nil_iff.1 hdrop, hc⟩
  | cons d rest =>
      rw [hdrop, List.cons_append, List.head?_cons] at hc
      exact Or.inl hc

theorem takeNumber_append (h : Boundary front tail) (hne : front ≠ []) :
    takeNumber negative (front ++ tail) = (takeNumber negative front).map (behind tail) := by
  have hdigit : ∀ c : Char, c.isDigit → isNumberChar c := fun c hc => by simp [isNumberChar, hc]
  have hwholeEnds : (∀ d ∈ front, d.isDigit) → ∀ c ∈ tail.head?, isNumberChar c = false := fun hall =>
    h.class_eq_false joins_numbers hne fun d hd => hdigit d (hall d hd)
  have hwhole : RunEnds Char.isDigit front tail := fun hall c hc =>
    (Bool.or_eq_false_iff.1 (hwholeEnds hall c hc)).1
  have hdrop := dropWhile_append_of_runEnds hwhole
  -- if only digits follow the point, the text in front ends in a number
  have hends : ∀ {rest : List Char}, front.dropWhile Char.isDigit = '.' :: rest → (∀ d ∈ rest, d.isDigit) →
      ∀ c ∈ tail.head?, isNumberChar c = false := by
    intro rest hrest hall
    have hown : '.' :: rest <:+ front := hrest ▸ List.dropWhile_suffix _
    exact (h.of_suffix hown).class_eq_false joins_numbers (List.cons_ne_nil _ _)
      (List.forall_mem_cons.2 ⟨rfl, fun d hd => hdigit d (hall d hd)⟩)
  have hfraction : ∀ {rest : List Char}, front.dropWhile Char.isDigit = '.' :: rest →
      RunEnds Char.isDigit rest tail := fun hrest hall c hc =>
    (Bool.or_eq_false_iff.1 (hends hrest hall c hc)).1
  cases numberShape front with
  | whole hnone =>
      have hnone' : ∀ c ∈ ((front ++ tail).dropWhile Char.isDigit).head?, c ≠ '.' := by
        rintro c hc rfl
        rcases head?_dropWhile_append hwhole hc with hin | ⟨hall, hin⟩
        · exact hnone '.' hin rfl
        · exact absurd (hwholeEnds hall '.' hin) (by decide)
      rw [takeNumber_whole hnone', takeNumber_whole hnone, takeWhile_append_of_runEnds hwhole, hdrop]
      rfl
  | @point rest hrest hnone =>
      have hrest' : (front ++ tail).dropWhile Char.isDigit = '.' :: (rest ++ tail) := by
        rw [hdrop, hrest, List.cons_append]
      have hnone' : ∀ c ∈ ((rest ++ tail).dropWhile Char.isDigit).head?, c ≠ '.' := by
        rintro c hc rfl
        rcases head?_dropWhile_append (hfraction hrest) hc with hin | ⟨hall, hin⟩
        · exact hnone '.' hin rfl
        · exact absurd (hends hrest hall '.' hin) (by decide)
      rw [takeNumber_point hrest' hnone', takeNumber_point hrest hnone, takeWhile_append_of_runEnds hwhole,
        takeWhile_append_of_runEnds (hfraction hrest), dropWhile_append_of_runEnds (hfraction hrest)]
      rfl
  | @secondPoint rest after hrest hafter =>
      have hrest' : (front ++ tail).dropWhile Char.isDigit = '.' :: (rest ++ tail) := by
        rw [hdrop, hrest, List.cons_append]
      have hafter' : (rest ++ tail).dropWhile Char.isDigit = '.' :: (after ++ tail) := by
        rw [dropWhile_append_of_runEnds (hfraction hrest), hafter, List.cons_append]
      rw [takeNumber_second_point hrest' hafter', takeNumber_second_point hrest hafter]
      rfl

end Number

/-! ### Words -/

section Word

variable {second : String} {w cs front tail : List Char}

theorem takeSecond_blanks_append {bs : List Char} (hbs : ∀ c ∈ bs, isBlank c) :
    takeSecond second (bs ++ cs) = takeSecond second cs := by
  unfold takeSecond
  rw [List.dropWhile_append_of_pos hbs]

theorem takeSecond_append (h : Boundary front tail) (hfront : ¬ ∀ c ∈ front, isBlank c) :
    takeSecond second (front ++ tail) = (takeSecond second front).map (· ++ tail) := by
  have hdrop : (front ++ tail).dropWhile isBlank = front.dropWhile isBlank ++ tail :=
    dropWhile_append_of_runEnds fun hall => absurd hall hfront
  have hne : front.dropWhile isBlank ≠ [] := mt List.dropWhile_eq_nil_iff.1 hfront
  have hword : RunEnds isWordChar (front.dropWhile isBlank) tail :=
    (h.of_suffix (List.dropWhile_suffix _)).runEnds joins_words hne
  have htake := takeWhile_append_of_runEnds hword
  have hrest := dropWhile_append_of_runEnds hword
  unfold takeSecond
  rw [hdrop]
  generalize front.dropWhile isBlank = own at hne htake hrest
  obtain ⟨c, own, rfl⟩ := List.exists_cons_of_ne_nil hne
  rw [List.cons_append] at htake hrest
  simp only [List.cons_append, htake, hrest]
  split <;> rfl

theorem compound?_blanks_append {bs : List Char} (hbs : ∀ c ∈ bs, isBlank c) :
    compound? w (bs ++ tail) = compound? w tail := by
  simp only [compound?, takeSecond_blanks_append hbs]

theorem compound?_append (h : Boundary front tail) (hfront : ¬ ∀ c ∈ front, isBlank c) :
    compound? w (front ++ tail) = (compound? w front).map (behind tail) := by
  unfold compound?
  cases Keyword.compound? (upper w) with
  | none => rfl
  | some c =>
      simp only [Option.bind_some, takeSecond_append h hfront, Option.map_map]
      rfl

theorem compound?_nil (w : List Char) : compound? w [] = none := by
  unfold compound?
  cases Keyword.compound? (upper w) <;> rfl

theorem compound?_of_blanks {bs : List Char} (hbs : ∀ c ∈ bs, isBlank c) : compound? w bs = none := by
  rw [← List.append_nil bs, compound?_blanks_append hbs, compound?_nil]

/-- The compound keyword that the second text completes, if the first one is a word with only blanks behind
it. -/
def completed? (front tail : List Char) : Option (Token × List Char) :=
  if ∀ c ∈ front.dropWhile isWordChar, isBlank c then compound? (front.takeWhile isWordChar) tail else none

theorem takeWord_append (h : Boundary front tail) (hne : front ≠ []) :
    takeWord (front ++ tail) = (completed? front tail).getD (behind tail (takeWord front)) := by
  have hword : RunEnds isWordChar front tail := h.runEnds joins_words hne
  have hrest : Boundary (front.dropWhile isWordChar) tail := h.of_suffix (List.dropWhile_suffix _)
  rw [takeWord_eq, takeWord_eq, takeWhile_append_of_runEnds hword, dropWhile_append_of_runEnds hword,
    completed?]
  split
  next hblanks =>
    rw [compound?_blanks_append hblanks, compound?_of_blanks hblanks]
    rfl
  next hother =>
    rw [compound?_append hrest hother]
    cases compound? (front.takeWhile isWordChar) (front.dropWhile isWordChar) <;> rfl

end Word

/-! ### One token -/

section One

variable {c : Char} {cs front tail : List Char}

theorem isWordStart_of_isUpper_capital (h : (capital c).isUpper) : isWordStart c := by
  unfold capital at h
  split at h
  next hdotless =>
    rw [hdotless]
    decide
  split at h
  next hlong =>
    rw [hlong]
    decide
  · rw [isWordStart, isAlphabetic_of_isAlpha (isAlpha_of_toUpper h).1, Bool.true_or]

theorem Keyword.isUpper_head?_of_compound? {word : String} {r : String × Keyword}
    (h : Keyword.compound? word = some r) : ∃ d ∈ word.toList.head?, d.isUpper := by
  rw [Keyword.compound?.eq_def] at h
  split at h
  all_goals cases h
  all_goals exact ⟨_, rfl, rfl⟩

/-- What begins a compound keyword is a word. -/
theorem compound?_eq_none (h : isWordStart c = false) (after : List Char) :
    compound? ((c :: cs).takeWhile isWordChar) after = none := by
  unfold compound?
  cases hcompound : Keyword.compound? (upper ((c :: cs).takeWhile isWordChar)) with
  | none => rfl
  | some r =>
      obtain ⟨d, hd, hupper⟩ := Keyword.isUpper_head?_of_compound? hcompound
      rw [upper, String.toList_ofList, capitals, List.head?_map] at hd
      obtain ⟨c', hc', rfl⟩ := Option.mem_map.1 hd
      have heq : c' = c := by
        rw [List.takeWhile_cons] at hc'
        split at hc'
        · exact (Option.some.inj hc').symm
        · cases hc'
      rw [← heq, isWordStart_of_isUpper_capital hupper] at h
      cases h

theorem completed?_eq_none (h : isWordStart c = false) : completed? (c :: front) tail = none := by
  unfold completed?
  rw [compound?_eq_none h]
  split <;> rfl

/-- A minus sign in front of a boundary belongs to a number if it does alone. -/
theorem minus_append (h : Boundary (c :: front) tail) : (c = '-' && (front ++ tail).head?.any Char.isDigit) =
    (c = '-' && front.head?.any Char.isDigit) := by
  cases front with
  | cons d front => rfl
  | nil =>
      rw [List.nil_append, List.head?_nil, Option.any_none, Bool.and_false, Bool.eq_false_iff]
      intro hminus
      obtain ⟨hc, hdigit⟩ := Bool.and_eq_true_iff.1 hminus
      obtain ⟨d, hd, hdigit⟩ := (Option.any_eq_true _ _).1 hdigit
      have hjoins := h c rfl d hd
      rw [joins, hc, hdigit] at hjoins
      simp at hjoins

/-- **A token in front of a boundary is read as it is read alone**, except that the text behind it may
complete a compound keyword. -/
theorem take_append (h : Boundary (c :: front) tail) :
    take c (front ++ tail) = (completed? (c :: front) tail).elim ((take c front).map (behind tail)) .ok := by
  cases beginning c front with
  | word hword =>
      rw [take_of_isWordStart hword, take_of_isWordStart hword, ← List.cons_append,
        takeWord_append h (List.cons_ne_nil c front)]
      cases completed? (c :: front) tail <;> rfl
  | mark hword hmark =>
      rw [completed?_eq_none hword, take_mark hmark, take_mark hmark]
      rfl
  | operator hword hmark hop =>
      have hends := h.runEnds joins_operators (List.cons_ne_nil c front)
      rw [completed?_eq_none hword, take_operator hmark hop, take_operator hmark hop, ← List.cons_append,
        takeWhile_append_of_runEnds hends, dropWhile_append_of_runEnds hends, Option.elim_none]
      split <;> rfl
  | number hword hdigit =>
      rw [completed?_eq_none hword, take_digit hdigit, take_digit hdigit, ← List.cons_append]
      exact takeNumber_append h (List.cons_ne_nil c front)
  | @negative d front hdigit =>
      rw [completed?_eq_none rfl, List.cons_append, take_minus hdigit, take_minus hdigit, ← List.cons_append]
      exact takeNumber_append (h.of_suffix (List.suffix_cons _ _)) (List.cons_ne_nil d front)
  | unsupported hword hmark hop hminus hdigit =>
      rw [completed?_eq_none hword, take_unsupported hmark hop ((minus_append h).trans hminus) hdigit hword,
        take_unsupported hmark hop hminus hdigit hword]
      rfl

/-! ### What is left -/

theorem takeNumber_suffix {negative : Bool} {rest : List Char} {t : Token}
    (h : takeNumber negative cs = .ok (t, rest)) : rest <:+ cs := by
  cases numberShape cs with
  | whole hnone =>
      rw [takeNumber_whole hnone] at h
      cases h
      exact List.dropWhile_suffix _
  | @point fraction hfraction hnone =>
      rw [takeNumber_point hfraction hnone] at h
      cases h
      have hsuffix : '.' :: fraction <:+ cs := hfraction ▸ List.dropWhile_suffix _
      exact (List.dropWhile_suffix _).trans ((List.suffix_cons '.' fraction).trans hsuffix)
  | secondPoint hfraction hafter =>
      rw [takeNumber_second_point hfraction hafter] at h
      cases h

theorem takeSecond_suffix {second : String} {rest : List Char} (h : takeSecond second cs = some rest) :
    rest <:+ cs := by
  have hown : cs.dropWhile isBlank <:+ cs := List.dropWhile_suffix _
  unfold takeSecond at h
  generalize cs.dropWhile isBlank = own at h hown
  cases own with
  | nil => cases h
  | cons c own =>
      simp only at h
      split at h
      · cases h
        exact (List.dropWhile_suffix _).trans hown
      · cases h

theorem takeWord_suffix (cs : List Char) : (takeWord cs).2 <:+ cs := by
  have hrest : cs.dropWhile isWordChar <:+ cs := List.dropWhile_suffix _
  rw [takeWord_eq]
  cases hcompound : compound? (cs.takeWhile isWordChar) (cs.dropWhile isWordChar) with
  | none => exact hrest
  | some r =>
      obtain ⟨c, -, hc⟩ := Option.bind_eq_some_iff.1 hcompound
      obtain ⟨after, hafter, rfl⟩ := Option.map_eq_some_iff.1 hc
      exact (takeSecond_suffix hafter).trans hrest

/-- What is left behind a token is the end of the text. -/
theorem take_suffix {rest : List Char} {t : Token} (h : take c cs = .ok (t, rest)) : rest <:+ cs := by
  have hall : rest <:+ c :: cs := by
    cases beginning c cs with
    | word hword =>
        have hsuffix := takeWord_suffix (c :: cs)
        rw [take_of_isWordStart hword] at h
        rwa [Except.ok.inj h] at hsuffix
    | mark _ hmark =>
        rw [take_mark hmark] at h
        cases h
        exact List.suffix_cons c cs
    | operator _ hmark hop =>
        rw [take_operator hmark hop] at h
        split at h
        · cases h
          exact List.dropWhile_suffix _
        · cases h
    | number _ hdigit =>
        rw [take_digit hdigit] at h
        exact takeNumber_suffix h
    | negative hdigit =>
        rw [take_minus hdigit] at h
        exact (takeNumber_suffix h).trans (List.suffix_cons _ _)
    | unsupported hword hmark hop hminus hdigit =>
        rw [take_unsupported hmark hop hminus hdigit hword] at h
        cases h
  refine (List.suffix_cons_iff.1 hall).resolve_left fun heq => ?_
  have hlength := length_take h
  rw [heq] at hlength
  exact Nat.lt_irrefl _ hlength

end One

end TableQuery.Token
