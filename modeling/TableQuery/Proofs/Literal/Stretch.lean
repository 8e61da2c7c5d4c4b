import TableQuery.Proofs.Literal.Label
import TableQuery.Proofs.Literal.Source
import TableQuery.Proofs.Statement.Layout

/-! The stretches of a labelled text. Taking out the literals and the placeholders leaves a text of which
every character is written in the command or belongs to a label. The text alone does not tell which, for a
command may spell a label itself, so here both steps are followed with the labels kept apart. -/

namespace TableQuery

open Text Token

/-- A character of a command, or the label with this number. -/
inductive Stretch
  | char (c : Char)
  | label (number : Nat)
  deriving DecidableEq

namespace Stretch

def chars : Stretch → List Char
  | .char c => [c]
  | .label n => TableQuery.label n

/-- The text of some stretches. -/
def text (ss : List Stretch) : List Char := ss.flatMap chars

/-- No label is among the stretches. -/
def Written (ss : List Stretch) : Prop := ∀ n, .label n ∉ ss

variable {s : Stretch} {ss own rest : List Stretch}

@[simp] theorem text_nil : text [] = [] := rfl

@[simp] theorem text_char (c : Char) (ss : List Stretch) : text (.char c :: ss) = c :: text ss := rfl

@[simp] theorem text_label (n : Nat) (ss : List Stretch) :
    text (.label n :: ss) = TableQuery.label n ++ text ss := rfl

@[simp] theorem text_append (ss rest : List Stretch) : text (ss ++ rest) = text ss ++ text rest :=
  List.flatMap_append

theorem written_cons : Written (s :: ss) ↔ (∀ n, s ≠ .label n) ∧ Written ss := by
  simp only [Written, List.mem_cons, not_or, forall_and, ne_comm]

theorem Written.eq_map (h : Written ss) : ss = (text ss).map char := by
  induction ss with
  | nil => rfl
  | cons s ss ih =>
      obtain ⟨hs, hss⟩ := written_cons.1 h
      cases s with
      | char c => rw [text_char, List.map_cons, ← ih hss]
      | label n => exact absurd rfl (hs n)

theorem text_eq_nil_iff : text ss = [] ↔ ss = [] := by
  constructor
  · intro h
    cases ss with
    | nil => rfl
    | cons s ss =>
        cases s with
        | char c => cases h
        | label n => cases h
  · rintro rfl
    rfl

/-- Stretches are told apart by how much text they leave behind. -/
theorem append_inj {own' rest' : List Stretch} (h : own ++ rest = own' ++ rest')
    (htext : text rest = text rest') : own = own' ∧ rest = rest' := by
  rcases List.append_eq_append_iff.1 h with ⟨x, rfl, rfl⟩ | ⟨x, rfl, rfl⟩
  · rw [text_append, List.append_left_eq_self, text_eq_nil_iff] at htext
    simp [htext]
  · rw [text_append, eq_comm, List.append_left_eq_self, text_eq_nil_iff] at htext
    simp [htext]

/-! ### Labels among stretches -/

theorem count_label (n : Nat) : (TableQuery.label n).count '_' = 2 := by
  have hdigits : (Nat.toDigits 10 n).count '_' = 0 := by
    rw [List.count_eq_zero]
    intro hmem
    exact absurd (isDigit_toDigits n _ hmem) (by decide)
  rw [label_eq_cons, List.count_cons_self, List.count_append, List.count_append, hdigits]
  rfl

/-- A label has underscores only at its two ends, so that no longer run of stretches spells one. -/
theorem eq_of_text_eq_label {n k : Nat} (hn : .label n ∈ own) (h : text own = TableQuery.label k) :
    own = [.label n] := by
  obtain ⟨front, back, rfl⟩ := List.append_of_mem hn
  rw [text_append, text_label] at h
  have hcount : ((text front).count '_') + (text back).count '_' = 0 := by
    have hsum := congrArg (List.count '_') h
    rw [List.count_append, List.count_append, count_label, count_label] at hsum
    omega
  have hfront : front = [] := by
    rw [← text_eq_nil_iff]
    cases hw : text front with
    | nil => rfl
    | cons c w =>
        rw [hw, label_eq_cons k] at h
        rw [hw, (List.cons.inj h).1, List.count_cons_self] at hcount
        omega
  have hback : back = [] := by
    rw [← text_eq_nil_iff]
    rcases List.eq_nil_or_concat (text back) with hnil | ⟨w, c, hw⟩
    · exact hnil
    · rw [hw, List.concat_eq_append, ← List.append_assoc, ← List.append_assoc, TableQuery.label] at h
      have hlast := (List.append_inj' h rfl).2
      rw [hw, List.concat_eq_append, hlast, List.count_append, List.count_singleton_self] at hcount
      omega
  rw [hfront, hback]
  rfl

/-! ### Runs of characters -/

/-- Whether all of a stretch is in a class of characters. -/
def within (p : Char → Bool) (s : Stretch) : Bool := s.chars.all p

/-- A run of this class ends only where a stretch does: labels are in the class, or do not begin in it. -/
def Whole (p : Char → Bool) : Prop := (∀ n, within p (.label n)) ∨ p '_' = false

theorem whole_isWordChar : Whole isWordChar :=
  Or.inl fun n => List.all_eq_true.2 (isWord_label n).all

theorem within_label {p : Char → Bool} (hp : p '_' = false) (n : Nat) : within p (.label n) = false := by
  rw [within, chars, label_eq_cons, List.all_cons, hp, Bool.false_and]

theorem dropWhile_text {p : Char → Bool} (hp : Whole p) (ss : List Stretch) :
    (text ss).dropWhile p = text (ss.dropWhile (within p)) := by
  induction ss with
  | nil => rfl
  | cons s ss ih =>
      cases s with
      | char c =>
          have hchar : within p (.char c) = p c := Bool.and_true (p c)
          cases hc : p c with
          | true => rw [text_char, List.dropWhile_cons_of_pos hc, ih, List.dropWhile_cons_of_pos (hchar.trans hc)]
          | false =>
              rw [text_char, List.dropWhile_cons_of_neg (by simp [hc]),
                List.dropWhile_cons_of_neg (by simp [hchar, hc]), text_char]
      | label n =>
          rcases hp with hall | hnone
          · have hchars : ∀ c ∈ TableQuery.label n, p c := List.all_eq_true.1 (hall n)
            rw [text_label, List.dropWhile_append_of_pos hchars, ih, List.dropWhile_cons_of_pos (hall n)]
          · rw [List.dropWhile_cons_of_neg (by simp [within_label hnone]), text_label, label_eq_cons,
              List.cons_append, List.dropWhile_cons_of_neg (by simp [hnone])]

theorem takeWhile_text {p : Char → Bool} (hp : Whole p) (ss : List Stretch) :
    (text ss).takeWhile p = text (ss.takeWhile (within p)) := by
  refine (List.append_left_inj ((text ss).dropWhile p)).1 ?_
  rw [List.takeWhile_append_dropWhile, dropWhile_text hp, ← text_append, List.takeWhile_append_dropWhile]

end Stretch

/-! ### Taking out the quoted texts -/

/-- These are the stretches that are left when the quoted texts are taken out, and the values of the new
labels; `count` labels have been given out before. -/
inductive Unquotes : Nat → List Char → List Stretch → List Value → Prop
  | nil {count : Nat} : Unquotes count [] [] []
  | quote {count : Nat} {quote : Char} {cs content rest : List Char} {ss : List Stretch}
      {values : List Value} (hquote : isQuote quote) (hcontent : takeQuoted quote cs = some (content, rest))
      (hrest : Unquotes (count + 1) rest ss values) :
      Unquotes count (quote :: cs) (.label (count + 1) :: ss) (.text (String.ofList content) :: values)
  | char {count : Nat} {c : Char} {cs : List Char} {ss : List Stretch} {values : List Value}
      (hc : ¬ isQuote c) (hrest : Unquotes count cs ss values) :
      Unquotes count (c :: cs) (.char c :: ss) values

theorem exists_unquotes {count : Nat} {cs quoted : List Char} {literals : List Value}
    (h : replaceQuoted count cs = .ok (quoted, literals)) :
    ∃ ss, Unquotes count cs ss literals ∧ Stretch.text ss = quoted := by
  fun_induction replaceQuoted count cs generalizing quoted literals with
  | case1 count =>
      cases h
      exact ⟨[], .nil, rfl⟩
  | case2 => cases h
  | case3 count c cs hc content rest hcontent _ ih =>
      obtain ⟨⟨text, values⟩, hrest, h⟩ := bind_eq_ok_iff.1 h
      cases h
      obtain ⟨ss, hss, rfl⟩ := ih hrest
      exact ⟨.label (count + 1) :: ss, .quote hc hcontent hss, rfl⟩
  | case4 count c cs hc ih =>
      obtain ⟨⟨text, values⟩, hrest, h⟩ := bind_eq_ok_iff.1 h
      cases h
      obtain ⟨ss, hss, rfl⟩ := ih hrest
      exact ⟨.char c :: ss, .char hc hss, rfl⟩

/-! ### Taking out the placeholders -/

/-- These are the stretches that are left when the placeholders are taken out, and the values of the new
labels; `count` labels have been given out before, and the positional values `left` are not used yet. The
name of a placeholder goes on through labels. -/
inductive Fills (subs : Option Substitutions) :
    Nat → List Value → List Stretch → List Stretch → List Value → Prop
  | nil {count : Nat} : Fills subs count [] [] [] []
  | name {count : Nat} {left : List Value} {ss out : List Stretch} {v : Value} {values : List Value}
      (hname : startsName (Stretch.text ss))
      (hvalue : Substitutions.byName? subs (nameAt (Stretch.text ss)) = some v)
      (hrest : Fills subs (count + 1) left (ss.dropWhile (Stretch.within isWordChar)) out values) :
      Fills subs count left (.char ':' :: ss) (.label (count + 1) :: out) (v :: values)
  | position {count : Nat} {v : Value} {left : List Value} {ss out : List Stretch} {values : List Value}
      (hrest : Fills subs (count + 1) left ss out values) :
      Fills subs count (v :: left) (.char '?' :: ss) (.label (count + 1) :: out) (v :: values)
  | char {count : Nat} {left : List Value} {c : Char} {ss out : List Stretch} {values : List Value}
      (hc : Unmarked c (Stretch.text ss)) (hrest : Fills subs count left ss out values) :
      Fills subs count left (.char c :: ss) (.char c :: out) values
  | label {count n : Nat} {left : List Value} {ss out : List Stretch} {values : List Value}
      (hrest : Fills subs count left ss out values) :
      Fills subs count left (.label n :: ss) (.label n :: out) values

theorem exists_fills {subs : Option Substitutions} {given count : Nat} {left values : List Value}
    {labelled : List Char} (ss : List Stretch)
    (h : replacePlaceholders subs given count left (Stretch.text ss) = .ok (labelled, values)) :
    ∃ out, Fills subs count left ss out values ∧ Stretch.text out = labelled := by
  match ss with
  | [] =>
      rw [Stretch.text_nil, replacePlaceholders_nil] at h
      split at h
      next hempty =>
        cases h
        obtain rfl := List.isEmpty_iff.1 hempty
        exact ⟨[], .nil, rfl⟩
      · cases h
  | .label n :: ss =>
      have hplain : ∀ c ∈ label n, Plain c := fun c hc => plain_of_isWordChar ((isWord_label n).all c hc)
      rw [Stretch.text_label, replacePlaceholders_of_plain hplain] at h
      obtain ⟨⟨text, values⟩, hrest, h⟩ := map_eq_ok_iff.1 h
      cases h
      obtain ⟨out, hout, rfl⟩ := exists_fills ss hrest
      exact ⟨.label n :: out, .label hout, rfl⟩
  | .char c :: ss =>
      rw [Stretch.text_char] at h
      rcases text_cases (c :: Stretch.text ss) with
        hnil | ⟨rest, heq, hname⟩ | ⟨rest, heq⟩ | ⟨d, rest, heq, hplain⟩
      · cases hnil
      · cases heq
        rw [replacePlaceholders_name _ _ _ hname, Stretch.dropWhile_text Stretch.whole_isWordChar] at h
        obtain ⟨v, after, vs, hvalue, hrest, rfl, rfl⟩ := exists_of_filled h
        have hshort : (ss.dropWhile (Stretch.within isWordChar)).length ≤ ss.length :=
          (List.dropWhile_suffix _).length_le
        obtain ⟨out, hout, rfl⟩ := exists_fills _ hrest
        exact ⟨.label (count + 1) :: out, .name hname hvalue hout, rfl⟩
      · cases heq
        rw [replacePlaceholders_position] at h
        obtain ⟨v, after, vs, hvalue, hrest, rfl, rfl⟩ := exists_of_filled h
        obtain ⟨others, rfl⟩ := List.head?_eq_some_iff.1 hvalue
        obtain ⟨out, hout, rfl⟩ := exists_fills ss hrest
        exact ⟨.label (count + 1) :: out, .position hout, rfl⟩
      · cases heq
        rw [replacePlaceholders_plain _ _ _ hplain] at h
        obtain ⟨⟨text, values⟩, hrest, h⟩ := map_eq_ok_iff.1 h
        cases h
        obtain ⟨out, hout, rfl⟩ := exists_fills ss hrest
        exact ⟨.char c :: out, .char hplain hout, rfl⟩
termination_by ss.length
decreasing_by all_goals simp only [List.length_cons]; omega

/-! ### The stretches of a command -/

/-- These are the stretches of the labelled text of a command, and the values of its labels in order: the
quoted texts, then the values of the placeholders. -/
def Labels (command : List Char) (subs : Option Substitutions) (ss : List Stretch) (values : List Value) :
    Prop :=
  ∃ between literals filled, Unquotes 0 command between literals ∧
    Fills subs literals.length (Substitutions.positions subs) between ss filled ∧ literals ++ filled = values

theorem exists_labels {command : String} {subs : Option Substitutions} {e : Extraction}
    (h : Extraction.ofText command subs = .ok e) :
    ∃ ss, Labels command.toList subs ss e.values ∧ Stretch.text ss = e.text := by
  obtain ⟨⟨quoted, literals⟩, hquoted, h⟩ := bind_eq_ok_iff.1 h
  obtain ⟨⟨labelled, values⟩, hfilled, h⟩ := bind_eq_ok_iff.1 h
  cases h
  obtain ⟨between, hbetween, rfl⟩ := exists_unquotes hquoted
  obtain ⟨ss, hss, rfl⟩ := exists_fills between hfilled
  exact ⟨ss, ⟨between, literals, values, hbetween, hss, rfl⟩, rfl⟩

section Numbers

variable {subs : Option Substitutions} {count n : Nat} {cs : List Char} {ss out : List Stretch}
  {left values : List Value}

theorem Unquotes.label_mem_iff (h : Unquotes count cs ss values) :
    .label n ∈ ss ↔ count < n ∧ n ≤ count + values.length := by
  induction h with
  | nil =>
      simp only [List.not_mem_nil, List.length_nil, false_iff]
      omega
  | quote _ _ _ ih =>
      rw [List.mem_cons, ih, Stretch.label.injEq, List.length_cons]
      omega
  | char _ _ ih => simp only [List.mem_cons, ih, reduceCtorEq, false_or]

theorem Fills.of_label_mem (h : Fills subs count left ss out values) (hn : .label n ∈ out) :
    .label n ∈ ss ∨ count < n ∧ n ≤ count + values.length := by
  induction h with
  | nil => exact Or.inl hn
  | name _ _ _ ih =>
      rw [List.length_cons]
      rcases List.mem_cons.1 hn with heq | hn
      · cases heq
        omega
      · rcases ih hn with hold | hnew
        · exact Or.inl (List.mem_cons_of_mem _ ((List.dropWhile_suffix _).mem hold))
        · omega
  | position _ ih =>
      rw [List.length_cons]
      rcases List.mem_cons.1 hn with heq | hn
      · cases heq
        omega
      · rcases ih hn with hold | hnew
        · exact Or.inl (List.mem_cons_of_mem _ hold)
        · omega
  | char _ _ ih =>
      have hrest := (List.mem_cons.1 hn).resolve_left (by simp)
      exact (ih hrest).imp_left (List.mem_cons_of_mem _)
  | label _ ih =>
      rcases List.mem_cons.1 hn with heq | hn
      · exact Or.inl (heq ▸ List.mem_cons_self)
      · exact (ih hn).imp_left (List.mem_cons_of_mem _)

/-- The number of every label is that of a value. -/
theorem Labels.number_le {command : List Char} (h : Labels command subs ss values) (hn : .label n ∈ ss) :
    0 < n ∧ n ≤ values.length := by
  obtain ⟨between, literals, filled, hquoted, hfilled, rfl⟩ := h
  rw [List.length_append]
  rcases hfilled.of_label_mem hn with hold | hnew
  · have := hquoted.label_mem_iff.1 hold
    omega
  · omega

/-- No name that the substitutions bind contains the beginning of a label. -/
def Substitutions.KeysApart (subs : Option Substitutions) : Prop :=
  ∀ name v, byName? subs name = some v → ¬ "_LIT".toList <:+: name.toList

theorem infix_label (n : Nat) : "_LIT".toList <:+: label n :=
  ((List.prefix_append _ _).trans (List.prefix_append _ _)).isInfix

theorem Stretch.infix_text_of_mem {s : Stretch} (h : s ∈ ss) : s.chars <:+: text ss := by
  obtain ⟨front, back, rfl⟩ := List.append_of_mem h
  rw [text_append]
  exact ⟨text front, text back, by rw [List.append_assoc]; rfl⟩

theorem Fills.label_mem (hkeys : Substitutions.KeysApart subs) (h : Fills subs count left ss out values)
    (hn : .label n ∈ ss ∨ count < n ∧ n ≤ count + values.length) : .label n ∈ out := by
  induction h with
  | nil =>
      rcases hn with hold | hnew
      · exact hold
      · rw [List.length_nil] at hnew
        omega
  | @name count left ss out v values _ hvalue _ ih =>
      rw [List.length_cons] at hn
      by_cases hfirst : n = count + 1
      · exact hfirst ▸ List.mem_cons_self
      refine List.mem_cons_of_mem _ (ih ?_)
      rcases hn with hold | hnew
      · have hmem : .label n ∈ ss := (List.mem_cons.1 hold).resolve_left (by simp)
        rw [← List.takeWhile_append_dropWhile (p := Stretch.within isWordChar) (l := ss), List.mem_append] at hmem
        rcases hmem with hname | hlater
        · refine absurd ?_ (hkeys _ _ hvalue)
          have hkey : (nameAt (Stretch.text ss)).toList =
              Stretch.text (ss.takeWhile (Stretch.within isWordChar)) := by
            rw [nameAt, String.toList_ofList, Stretch.takeWhile_text Stretch.whole_isWordChar]
          rw [hkey]
          exact (infix_label n).trans (Stretch.infix_text_of_mem hname)
        · exact Or.inl hlater
      · omega
  | @position count v left ss out values _ ih =>
      rw [List.length_cons] at hn
      by_cases hfirst : n = count + 1
      · exact hfirst ▸ List.mem_cons_self
      refine List.mem_cons_of_mem _ (ih ?_)
      rcases hn with hold | hnew
      · exact Or.inl ((List.mem_cons.1 hold).resolve_left (by simp))
      · omega
  | char _ _ ih =>
      refine List.mem_cons_of_mem _ (ih (hn.imp_left fun hold => ?_))
      exact (List.mem_cons.1 hold).resolve_left (by simp)
  | @label count m left ss out values _ ih =>
      by_cases hfirst : n = m
      · exact hfirst ▸ List.mem_cons_self
      refine List.mem_cons_of_mem _ (ih (hn.imp_left fun hold => ?_))
      exact (List.mem_cons.1 hold).resolve_left (by simpa using hfirst)

/-- **A label is lost only in a name that spells one.** -/
theorem Labels.label_mem {command : List Char} (hkeys : Substitutions.KeysApart subs)
    (h : Labels command subs ss values) (hpos : 0 < n) (hn : n ≤ values.length) : .label n ∈ ss := by
  obtain ⟨between, literals, filled, hquoted, hfilled, rfl⟩ := h
  rw [List.length_append] at hn
  refine hfilled.label_mem hkeys ?_
  rw [hquoted.label_mem_iff]
  omega

end Numbers

/-! ### What the stretches say about the command -/

theorem takeQuoted_suffix {quote : Char} {cs content rest : List Char}
    (h : takeQuoted quote cs = some (content, rest)) : rest <:+ cs := by
  fun_induction takeQuoted quote cs generalizing content rest with
  | case1 => cases h
  | case2 c cs _ ih =>
      obtain ⟨p, hp, heq⟩ := Option.map_eq_some_iff.1 h
      cases heq
      exact (ih hp).trans ((List.suffix_cons c cs).trans (List.suffix_cons _ _))
  | case3 c cs _ ih =>
      obtain ⟨p, hp, heq⟩ := Option.map_eq_some_iff.1 h
      cases heq
      exact (ih hp).trans (List.suffix_cons _ _)
  | case4 cs =>
      cases h
      exact List.suffix_cons _ _
  | case5 c cs _ _ ih =>
      obtain ⟨p, hp, heq⟩ := Option.map_eq_some_iff.1 h
      cases heq
      exact (ih hp).trans (List.suffix_cons _ _)

section Infix

variable {subs : Option Substitutions} {w : List Char} {count : Nat} {left values : List Value}

/-- Characters that stand together in the stretches stand together in the command. -/
theorem Unquotes.begins_of_begins {cs : List Char} {ss : List Stretch} (h : Unquotes count cs ss values)
    (hw : w.map .char <+: ss) : w <+: cs := by
  induction h generalizing w with
  | nil =>
      rw [List.prefix_nil, List.map_eq_nil_iff] at hw
      exact hw ▸ List.nil_prefix
  | quote _ _ _ _ =>
      cases w with
      | nil => exact List.nil_prefix
      | cons c w => cases (List.cons_prefix_cons.1 hw).1
  | char _ _ ih =>
      cases w with
      | nil => exact List.nil_prefix
      | cons c w =>
          obtain ⟨heq, htail⟩ := List.cons_prefix_cons.1 hw
          cases heq
          exact List.cons_prefix_cons.2 ⟨rfl, ih htail⟩

theorem Unquotes.stands_of_stands {cs : List Char} {ss : List Stretch} (h : Unquotes count cs ss values)
    (hw : w.map .char <:+: ss) : w <:+: cs := by
  induction h with
  | nil =>
      rw [List.infix_nil, List.map_eq_nil_iff] at hw
      exact hw ▸ List.nil_infix
  | quote hquote hcontent hrest ih =>
      rcases List.infix_cons_iff.1 hw with hfront | hlater
      · exact ((Unquotes.quote hquote hcontent hrest).begins_of_begins hfront).isInfix
      · exact ((ih hlater).trans (takeQuoted_suffix hcontent).isInfix).trans (List.infix_cons List.infix_rfl)
  | char hc hrest ih =>
      rcases List.infix_cons_iff.1 hw with hfront | hlater
      · exact ((Unquotes.char hc hrest).begins_of_begins hfront).isInfix
      · exact List.infix_cons (ih hlater)

theorem Fills.begins_of_begins {ss out : List Stretch} (h : Fills subs count left ss out values)
    (hw : w.map .char <+: out) : w.map .char <+: ss := by
  induction h generalizing w with
  | nil => exact hw
  | char _ _ ih =>
      cases w with
      | nil => exact List.nil_prefix
      | cons c w =>
          obtain ⟨heq, htail⟩ := List.cons_prefix_cons.1 hw
          cases heq
          exact List.cons_prefix_cons.2 ⟨rfl, ih htail⟩
  | _ =>
      cases w with
      | nil => exact List.nil_prefix
      | cons c w => cases (List.cons_prefix_cons.1 hw).1

theorem Fills.stands_of_stands {ss out : List Stretch} (h : Fills subs count left ss out values)
    (hw : w.map .char <:+: out) : w.map .char <:+: ss := by
  induction h with
  | nil => exact hw
  | name hname hvalue hrest ih =>
      rcases List.infix_cons_iff.1 hw with hfront | hlater
      · exact ((Fills.name hname hvalue hrest).begins_of_begins hfront).isInfix
      · exact List.infix_cons ((ih hlater).trans (List.dropWhile_suffix _).isInfix)
  | @position count v left ss out values hrest ih =>
      rcases List.infix_cons_iff.1 hw with hfront | hlater
      · exact ((Fills.position (v := v) hrest).begins_of_begins hfront).isInfix
      · exact List.infix_cons (ih hlater)
  | char hc hrest ih =>
      rcases List.infix_cons_iff.1 hw with hfront | hlater
      · exact ((Fills.char hc hrest).begins_of_begins hfront).isInfix
      · exact List.infix_cons (ih hlater)
  | label hrest ih =>
      rcases List.infix_cons_iff.1 hw with hfront | hlater
      · exact ((Fills.label hrest).begins_of_begins hfront).isInfix
      · exact List.infix_cons (ih hlater)

/-- **Stretches without a label among them are a part of the command.** -/
theorem Labels.infix_of_written {command : List Char} {ss own : List Stretch} (h : Labels command subs ss values)
    (hown : own <:+: ss) (hwritten : Stretch.Written own) : Stretch.text own <:+: command := by
  obtain ⟨between, literals, filled, hquoted, hfilled, -⟩ := h
  rw [hwritten.eq_map] at hown
  exact hquoted.stands_of_stands (hfilled.stands_of_stands hown)

end Infix

end TableQuery
