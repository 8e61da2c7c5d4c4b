import TableQuery.Proofs.Token.Boundary

/-! The tokens of texts that are put together. Behind a boundary a text is read as it is read alone, and texts
that are read alike can be exchanged there. -/

namespace TableQuery.Token

open Text

theorem scan_blank_cons {c : Char} (hc : isBlank c) (cs : List Char) : scan (c :: cs) = scan cs := by
  rw [scan, if_pos hc]

theorem scan_cons_eq {c : Char} (hc : isBlank c = false) (cs : List Char) :
    scan (c :: cs) = (take c cs >>= fun r => (scan r.2).map (r.1 :: ·)) := by
  cases htake : take c cs with
  | ok r => exact scan_cons hc htake
  | error err =>
      rw [scan, if_neg (by simp [hc])]
      split
      next heq =>
        cases htake.symm.trans heq
        rfl
      next heq => cases htake.symm.trans heq

section All

variable {tail tail' : List Char} {ts : List Token}

/-- **Texts that are read alike are read alike behind a boundary.** They complete the same compound keywords,
so every token in front of them is the same. -/
theorem scan_append_congr (front : List Char) (h : Boundary front tail) (h' : Boundary front tail')
    (hscan : scan tail = scan tail') (hsecond : ∀ second, takeSecond second tail = takeSecond second tail') :
    scan (front ++ tail) = scan (front ++ tail') := by
  match front with
  | [] => exact hscan
  | c :: front =>
      have hrest : ∀ rest, rest <:+ front → scan (rest ++ tail) = scan (rest ++ tail') := fun rest hsuffix =>
        have hshort : rest.length < front.length + 1 := Nat.lt_succ_of_le hsuffix.length_le
        have hwhole := hsuffix.trans (List.suffix_cons c front)
        scan_append_congr rest (h.of_suffix hwhole) (h'.of_suffix hwhole) hscan hsecond
      rw [List.cons_append, List.cons_append]
      cases hblank : isBlank c with
      | true =>
          rw [scan_blank_cons hblank, scan_blank_cons hblank]
          exact hrest front List.suffix_rfl
      | false =>
          have hcompleted : completed? (c :: front) tail = completed? (c :: front) tail' := by
            simp only [completed?, compound?, hsecond]
          rw [scan_cons_eq hblank, scan_cons_eq hblank, take_append h, take_append h', ← hcompleted]
          cases completed? (c :: front) tail with
          | some r => rfl
          | none =>
              cases htake : take c front with
              | error err => rfl
              | ok r =>
                  have hsame := hrest r.2 (take_suffix htake)
                  exact congrArg (Except.map (r.1 :: ·)) hsame
termination_by front.length

theorem scan_ne_nil (cs : List Char) : scan cs ≠ .ok [] := by
  fun_induction scan cs with
  | case1 => nofun
  | case2 c cs hblank ih => exact ih
  | case3 => nofun
  | case4 c cs hblank t rest htake hlength ih =>
      intro h
      obtain ⟨others, -, h⟩ := bind_eq_ok_iff.1 h
      cases h

/-- The tokens leave no compound keyword to be completed by this text. -/
def Complete (ts : List Token) (tail : List Char) : Prop :=
  ∀ w, .ident w ∈ ts.getLast? → ∀ c, Keyword.compound? (upper w.toList) = some c → takeSecond c.1 tail = none

theorem ofWord_of_compound? {w : List Char} {c : String × Keyword} (h : Keyword.compound? (upper w) = some c) :
    ofWord w = .ident (String.ofList w) := by
  have hnone : Keyword.ofWord? (upper w) = none := by
    generalize upper w = word at h
    rw [Keyword.compound?.eq_def] at h
    split at h
    · rfl
    · rfl
    · rfl
    · cases h
  rw [ofWord, hnone]

/-- A word with only blanks behind it is the last token. -/
theorem scan_of_blanks_behind {c : Char} {front : List Char} (hc : isWordStart c)
    (hblanks : ∀ d ∈ (c :: front).dropWhile isWordChar, isBlank d) :
    scan (c :: front) = .ok [ofWord ((c :: front).takeWhile isWordChar), .eof] := by
  have hend := scan_blanks hblanks []
  rw [List.append_nil, scan_nil] at hend
  rw [scan_cons_eq (isBlank_of_isWordChar (isWordChar_of_isWordStart hc)), take_of_isWordStart hc, takeWord_eq,
    compound?_of_blanks hblanks, Option.getD_none, ok_bind, hend]
  rfl

theorem Complete.completed?_eq_none {c : Char} {front : List Char} (h : Complete ts tail)
    (hfront : scan (c :: front) = .ok (ts ++ [.eof])) : completed? (c :: front) tail = none := by
  cases hc : isWordStart c with
  | false => exact Token.completed?_eq_none hc
  | true =>
      unfold completed?
      split
      next hblanks =>
        rw [scan_of_blanks_behind hc hblanks] at hfront
        obtain rfl : [ofWord ((c :: front).takeWhile isWordChar)] = ts :=
          List.append_cancel_right (Except.ok.inj hfront)
        unfold compound?
        cases hcompound : Keyword.compound? (upper ((c :: front).takeWhile isWordChar)) with
        | none => rfl
        | some second =>
            rw [ofWord_of_compound? hcompound] at h
            rw [Option.bind_some, h _ rfl second (by rwa [String.toList_ofList])]
            rfl
      · rfl

/-- **The tokens of a text are those in front of a boundary, then those behind it**, unless the last word in
front begins a compound keyword that is completed behind. -/
theorem scan_append {ts : List Token} (front : List Char) (h : Boundary front tail)
    (hfront : scan front = .ok (ts ++ [.eof])) (hcomplete : Complete ts tail) :
    scan (front ++ tail) = (scan tail).map (ts ++ ·) := by
  match front with
  | [] =>
      rw [scan_nil] at hfront
      obtain rfl : [] = ts := List.append_cancel_right (Except.ok.inj hfront)
      rw [List.nil_append]
      cases scan tail <;> rfl
  | c :: front =>
      rw [List.cons_append]
      cases hblank : isBlank c with
      | true =>
          rw [scan_blank_cons hblank] at hfront ⊢
          exact scan_append front (h.of_suffix (List.suffix_cons c front)) hfront hcomplete
      | false =>
          have hcompleted := hcomplete.completed?_eq_none hfront
          rw [scan_cons_eq hblank] at hfront
          obtain ⟨⟨t, rest⟩, htake, hmap⟩ := bind_eq_ok_iff.1 hfront
          obtain ⟨others, hothers, heq⟩ := map_eq_ok_iff.1 hmap
          have hsuffix := take_suffix htake
          have hshort : rest.length < front.length + 1 := Nat.lt_succ_of_le hsuffix.length_le
          cases ts with
          | nil =>
              cases heq
              exact absurd hothers (scan_ne_nil _)
          | cons t' ts =>
              cases heq
              have hcomplete' : Complete ts tail := by
                intro w hw
                refine hcomplete w ?_
                rw [List.getLast?_cons, Option.mem_def.1 hw]
                rfl
              have hrest := scan_append rest (h.of_suffix (hsuffix.trans (List.suffix_cons c front))) hothers
                hcomplete'
              rw [scan_cons_eq hblank, take_append h, hcompleted, htake]
              show (scan (rest ++ tail)).map (t :: ·) = _
              rw [hrest]
              cases scan tail <;> rfl
termination_by front.length

end All

section Apart

variable {w cs : List Char}

/-- A word is an identifier where nothing behind it completes a compound keyword that it begins. -/
theorem scan_apart (hw : IsWord w) (hkeyword : Keyword.ofWord? (upper w) = none)
    (hend : ∀ c ∈ cs.head?, isWordChar c = false)
    (happart : ∀ r ∈ Keyword.compound? (upper w), takeSecond r.1 cs = none) :
    scan (w ++ cs) = (scan cs).map (.ident (String.ofList w) :: ·) := by
  have hcompound : compound? w cs = none := by
    unfold compound?
    cases hr : Keyword.compound? (upper w) with
    | none => rfl
    | some r =>
        rw [Option.bind_some, happart r hr]
        rfl
  refine scan_word hw ?_
  rw [takeWord_eq, takeWhile_run hw.all hend, dropWhile_run hw.all hend, hcompound, ofWord, hkeyword]
  rfl

/-- Another word completes no keyword. -/
theorem takeSecond_eq_none {second : String} (hw : IsWord w) (hend : ∀ c ∈ cs.head?, isWordChar c = false)
    (hne : w.map Char.toUpper ≠ second.toList) : takeSecond second (w ++ cs) = none := by
  have htake := takeWhile_run hw.all hend
  obtain ⟨c, w, rfl, hstart⟩ := hw.start
  have hblank : isBlank c = false := isBlank_of_isWordChar (isWordChar_of_isWordStart hstart)
  rw [List.cons_append] at htake ⊢
  unfold takeSecond
  rw [List.dropWhile_cons_of_neg (by simp [hblank])]
  simp only [htake, hne, decide_false, Bool.and_false, Bool.false_eq_true, if_false]

end Apart

end TableQuery.Token
