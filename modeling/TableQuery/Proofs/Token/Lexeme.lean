import TableQuery.Token.Lexer
import TableQuery.Proofs.Outcome
import TableQuery.Proofs.Text.CharClass

/-! The lexemes of the tokens: texts that are read as one token where a blank or the end follows. -/

namespace TableQuery.Token

open Text

theorem scan_nil : scan [] = .ok [.eof] := by
  rw [scan]

theorem scan_blanks {bs : List Char} (h : ∀ c ∈ bs, isBlank c) (cs : List Char) :
    scan (bs ++ cs) = scan cs := by
  induction bs with
  | nil => rfl
  | cons b bs ih =>
      have hb : isBlank b := h b List.mem_cons_self
      rw [List.cons_append, scan, if_pos hb]
      exact ih fun c hc => h c (List.mem_cons_of_mem _ hc)

theorem scan_cons {c : Char} {cs rest : List Char} {t : Token} (hc : isBlank c = false)
    (h : take c cs = .ok (t, rest)) : scan (c :: cs) = (scan rest).map (t :: ·) := by
  have hblank : ¬ isBlank c := by simp [hc]
  rw [scan, if_neg hblank]
  split
  · rename_i err herr
    rw [h] at herr
    cases herr
  · rename_i t' rest' hok
    rw [h] at hok
    cases hok
    cases scan rest <;> rfl

/-- The text is read as this token where a blank or the end follows. -/
def Lexes (w : List Char) (t : Token) : Prop :=
  ∀ cs, Parted cs → scan (w ++ cs) = (scan cs).map (t :: ·)

/-! ### Marks -/

theorem isBlank_of_ofChar? {c : Char} {t : Token} (h : ofChar? c = some t) : isBlank c = false := by
  rw [ofChar?.eq_def] at h
  split at h
  all_goals first | rfl | cases h

theorem lexes_mark {c : Char} {t : Token} (h : ofChar? c = some t) : Lexes [c] t := by
  intro cs _
  refine scan_cons (isBlank_of_ofChar? h) ?_
  rw [take, h]
  rfl

/-- A class of characters that has none of the marks of comparisons in it. -/
theorem isOperatorChar_eq_false {p : Char → Bool} (hp : ['!', '=', '<', '>'].any p = false)
    {c : Char} (h : p c) : isOperatorChar c = false := by
  rw [Bool.eq_false_iff]
  intro hop
  have hmem : c ∈ ['!', '=', '<', '>'] := by
    simpa [isOperatorChar, or_assoc] using hop
  exact List.any_eq_false.1 hp c hmem h

/-- A class of characters that has none of the other marks in it. -/
theorem ofChar?_eq_none {p : Char → Bool} (hp : ['(', ')', ',', '.', ';', '*'].any p = false)
    {c : Char} (h : p c) : ofChar? c = none := by
  rw [ofChar?.eq_def]
  split
  all_goals first | rfl | exact absurd h (List.any_eq_false.1 hp _ (by decide))

theorem isOperatorChar_of_isBlank {c : Char} (h : isBlank c) : isOperatorChar c = false :=
  isOperatorChar_eq_false (by decide) h

theorem lexes_operator {c : Char} {w : List Char} {op : Comparator}
    (hall : ∀ d ∈ c :: w, isOperatorChar d)
    (h : Comparator.ofSymbol? (String.ofList (c :: w)) = some op) : Lexes (c :: w) (.op op) := by
  intro cs hcs
  have hc : isOperatorChar c := hall c List.mem_cons_self
  have hblank : isBlank c = false := by
    rw [Bool.eq_false_iff]
    intro hblank
    rw [isOperatorChar_of_isBlank hblank] at hc
    cases hc
  have htake := takeWhile_of_parted (fun _ => isOperatorChar_of_isBlank) hall hcs
  have hdrop := dropWhile_of_parted (fun _ => isOperatorChar_of_isBlank) hall hcs
  refine scan_cons hblank ?_
  rw [List.cons_append] at htake hdrop
  rw [take, ofChar?_eq_none (by decide) hc]
  simp only [if_pos hc, List.append_eq, htake, hdrop, h]

theorem lexes_comparator (op : Comparator) : Lexes op.symbol.toList (.op op) := by
  cases op <;> exact lexes_operator (List.all_eq_true.1 rfl) rfl

/-! ### Words -/

theorem take_of_isWordStart {c : Char} (h : isWordStart c) (cs : List Char) :
    take c cs = .ok (takeWord (c :: cs)) := by
  have hop : isOperatorChar c = false := isOperatorChar_eq_false (by decide) h
  have hminus : c ≠ '-' := by
    rintro rfl
    exact absurd h (by decide)
  have hdigit : c.isDigit = false := not_isDigit_of_isWordStart h
  rw [take, ofChar?_eq_none (by decide) h]
  simp only [hop, hminus, hdigit, h, decide_false, Bool.false_and, Bool.false_eq_true, if_false,
    if_true]

theorem scan_word {w : List Char} (hw : IsWord w) {cs rest : List Char} {t : Token}
    (h : takeWord (w ++ cs) = (t, rest)) : scan (w ++ cs) = (scan rest).map (t :: ·) := by
  obtain ⟨c, w, rfl, hstart⟩ := hw.start
  have hblank : isBlank c = false := isBlank_of_isWordChar (hw.all c List.mem_cons_self)
  refine scan_cons hblank ?_
  rw [take_of_isWordStart hstart]
  exact congrArg Except.ok h

/-- The form of a word in which it is compared with the keywords. -/
def upper (w : List Char) : String := String.ofList (capitals w)

theorem lexes_ident {w : List Char} (hw : IsWord w) (hword : Keyword.ofWord? (upper w) = none)
    (hcompound : Keyword.compound? (upper w) = none) : Lexes w (.ident (String.ofList w)) := by
  intro cs hcs
  refine scan_word hw ?_
  have htake := takeWhile_of_parted (fun _ => isWordChar_of_isBlank) hw.all hcs
  have hdrop := dropWhile_of_parted (fun _ => isWordChar_of_isBlank) hw.all hcs
  rw [upper] at hword hcompound
  simp only [takeWord, htake, hdrop, hword, hcompound]

theorem lexes_keyword {w : List Char} {k : Keyword} (hw : IsWord w)
    (hword : Keyword.ofWord? (upper w) = some k) (hcompound : Keyword.compound? (upper w) = none) :
    Lexes w (.keyword k) := by
  intro cs hcs
  refine scan_word hw ?_
  have htake := takeWhile_of_parted (fun _ => isWordChar_of_isBlank) hw.all hcs
  have hdrop := dropWhile_of_parted (fun _ => isWordChar_of_isBlank) hw.all hcs
  rw [upper] at hword hcompound
  simp only [takeWord, htake, hdrop, hword, hcompound]

theorem takeSecond_blanks {second : String} {bs w cs : List Char} (hbs : ∀ c ∈ bs, isBlank c)
    (hw : IsWord w) (hstart : ∀ c ∈ w.head?, isAlphabetic c)
    (h : w.map Char.toUpper = second.toList) (hcs : Parted cs) :
    takeSecond second (bs ++ (w ++ cs)) = some cs := by
  obtain ⟨c, w, rfl, -⟩ := hw.start
  have hblank : isBlank c = false := isBlank_of_isWordChar (hw.all c List.mem_cons_self)
  have hskip : (bs ++ (c :: w ++ cs)).dropWhile isBlank = c :: w ++ cs := by
    rw [List.dropWhile_append_of_pos hbs, List.cons_append, List.dropWhile_cons_of_neg (by simp [hblank])]
  have htake := takeWhile_of_parted (fun _ => isWordChar_of_isBlank) hw.all hcs
  have hdrop := dropWhile_of_parted (fun _ => isWordChar_of_isBlank) hw.all hcs
  rw [List.cons_append] at htake hdrop hskip
  have hc : isAlphabetic c := hstart c rfl
  simp only [takeSecond, List.cons_append, hskip, htake, hdrop, h, hc, decide_true, Bool.and_self,
    if_true]

theorem lexes_compound {w bs v : List Char} {second : String} {k : Keyword} (hw : IsWord w)
    (hbs : ∀ c ∈ bs, isBlank c) (hne : bs ≠ []) (hv : IsWord v)
    (hstart : ∀ c ∈ v.head?, isAlphabetic c) (hcompound : Keyword.compound? (upper w) = some (second, k))
    (hsecond : v.map Char.toUpper = second.toList) : Lexes (w ++ (bs ++ v)) (.keyword k) := by
  intro cs hcs
  have hparted : Parted (bs ++ (v ++ cs)) := by
    obtain ⟨b, bs, rfl⟩ := List.exists_cons_of_ne_nil hne
    rintro c hc
    cases hc
    exact hbs b List.mem_cons_self
  rw [List.append_assoc, List.append_assoc]
  refine scan_word hw ?_
  have htake := takeWhile_of_parted (fun _ => isWordChar_of_isBlank) hw.all hparted
  have hdrop := dropWhile_of_parted (fun _ => isWordChar_of_isBlank) hw.all hparted
  rw [upper] at hcompound
  simp only [takeWord, htake, hdrop, hcompound, takeSecond_blanks hbs hv hstart hsecond hcs]

/-! ### Integers -/

theorem takeNumber_digits (negative : Bool) {ds cs : List Char} (hds : ∀ c ∈ ds, c.isDigit)
    (hcs : Parted cs) :
    takeNumber negative (ds ++ cs) = .ok (ofNumeral ⟨negative, ds, none, none⟩, cs) := by
  have htake := takeWhile_of_parted (fun _ => isDigit_of_isBlank) hds hcs
  have hdrop := dropWhile_of_parted (fun _ => isDigit_of_isBlank) hds hcs
  simp only [takeNumber, htake, hdrop]
  split
  · exact absurd (hcs '.' rfl) (by decide)
  · rfl

theorem int?_ofInt (n : Int) : (Number.Numeral.ofInt n).int? = some n := by
  have hdigits : Nat.ofDigitChars 10 (Nat.toDigits 10 n.natAbs) 0 = n.natAbs :=
    Nat.ofDigitChars_ten_toDigits
  simp only [Number.Numeral.int?, Number.Numeral.ofInt, hdigits, Option.isNone_none, Bool.and_self,
    if_true, decide_eq_true_eq, Option.some.injEq]
  split <;> omega

theorem ofNumeral_ofInt (n : Int64) : ofNumeral (Number.Numeral.ofInt n.toInt) = .number n := by
  have hrange : -2 ^ 63 ≤ n.toInt ∧ n.toInt < 2 ^ 63 := ⟨n.le_toInt, n.toInt_lt⟩
  rw [ofNumeral, int?_ofInt]
  simp only [if_pos hrange, Int64.ofInt_toInt]

theorem take_digit {c : Char} (h : c.isDigit) (cs : List Char) :
    take c cs = takeNumber false (c :: cs) := by
  have hop : isOperatorChar c = false := isOperatorChar_eq_false (by decide) h
  have hminus : c ≠ '-' := by
    rintro rfl
    exact absurd h (by decide)
  rw [take, ofChar?_eq_none (by decide) h]
  simp only [hop, hminus, h, decide_false, Bool.false_and, Bool.false_eq_true, if_false, if_true]

theorem take_minus {d : Char} (h : d.isDigit) (cs : List Char) :
    take '-' (d :: cs) = takeNumber true (d :: cs) := by
  have hchar : ofChar? '-' = none := rfl
  have hop : isOperatorChar '-' = false := rfl
  rw [take, hchar]
  simp only [hop, h, List.head?_cons, Option.any_some, decide_true, Bool.and_self, if_true,
    Bool.false_eq_true, if_false]

theorem chars_ofInt (n : Int) : (Number.Numeral.ofInt n).chars =
    (if n < 0 then ['-'] else []) ++ Nat.toDigits 10 n.natAbs := by
  by_cases hneg : n < 0 <;> simp [Number.Numeral.chars, Number.Numeral.ofInt, hneg]

theorem mem_chars_ofInt {n : Int} {c : Char} (h : c ∈ (Number.Numeral.ofInt n).chars) : c = '-' ∨ c.isDigit := by
  rw [chars_ofInt] at h
  rcases List.mem_append.1 h with hsign | hdigit
  · split at hsign
    · exact Or.inl (List.mem_singleton.1 hsign)
    · cases hsign
  · exact Or.inr (isDigit_toDigits _ c hdigit)

theorem lexes_int (n : Int64) : Lexes (Number.Numeral.ofInt n.toInt).chars (.number n) := by
  intro cs hcs
  have hdigits := isDigit_toDigits n.toInt.natAbs
  obtain ⟨d, ds, hds⟩ := List.exists_cons_of_ne_nil
    (Nat.toDigits_ne_nil : Nat.toDigits 10 n.toInt.natAbs ≠ [])
  have hd : d.isDigit := hdigits d (hds ▸ List.mem_cons_self)
  have htoken := takeNumber_digits (decide (n.toInt < 0)) hdigits hcs
  rw [hds, List.cons_append] at htoken
  have hnumber : ofNumeral ⟨decide (n.toInt < 0), d :: ds, none, none⟩ = .number n := by
    rw [← hds]
    exact ofNumeral_ofInt n
  rw [hnumber] at htoken
  by_cases hneg : n.toInt < 0
  · rw [chars_ofInt, if_pos hneg, hds, List.singleton_append, List.cons_append, List.cons_append]
    refine scan_cons (by decide) ?_
    rw [take_minus hd]
    rw [decide_eq_true hneg] at htoken
    exact htoken
  · rw [chars_ofInt, if_neg hneg, hds, List.nil_append, List.cons_append]
    refine scan_cons (isBlank_of_isWordChar (isWordChar_of_isDigit hd)) ?_
    rw [take_digit hd]
    rw [decide_eq_false hneg] at htoken
    exact htoken

/-! ### Keywords -/

/-- The words of a keyword in capitals. -/
def keywordWords : Keyword → String × Option String
  | .select => ("SELECT", none)
  | .fromTable => ("FROM", none)
  | .whereRows => ("WHERE", none)
  | .and => ("AND", none)
  | .or => ("OR", none)
  | .orderBy => ("ORDER", some "BY")
  | .asc => ("ASC", none)
  | .desc => ("DESC", none)
  | .limit => ("LIMIT", none)
  | .insertInto => ("INSERT", some "INTO")
  | .values => ("VALUES", none)
  | .update => ("UPDATE", none)
  | .setFields => ("SET", none)
  | .deleteFrom => ("DELETE", some "FROM")

/-- The text spells the word, which is in capitals, in some case of its letters. -/
def InSomeCase (word : String) (w : List Char) : Prop := w.map Char.toUpper = word.toList

section Case

variable {word : String} {w : List Char}

theorem inSomeCase_self (hword : ∀ c ∈ word.toList, c.isUpper) : InSomeCase word word.toList := by
  have hsame : ∀ c ∈ word.toList, c.toUpper = c := by
    intro c hc
    have hupper := (isUpper_iff c).1 (hword c hc)
    have hlower : ¬ c.isLower := by
      rw [isLower_iff]
      omega
    exact toUpper_of_not_isLower hlower
  exact (List.map_congr_left hsame).trans (List.map_id _)

theorem isAlpha_of_inSomeCase (hword : ∀ c ∈ word.toList, c.isUpper) (h : InSomeCase word w) :
    ∀ c ∈ w, c.isAlpha ∧ capital c = c.toUpper := by
  intro c hc
  have hupper : c.toUpper ∈ word.toList := h ▸ List.mem_map_of_mem hc
  exact isAlpha_of_toUpper (hword _ hupper)

theorem isWord_of_inSomeCase (hword : ∀ c ∈ word.toList, c.isUpper) (hne : word.toList ≠ [])
    (h : InSomeCase word w) : IsWord w := by
  have halpha := isAlpha_of_inSomeCase hword h
  refine isWord_of_isAlpha ?_ fun c hc => (halpha c hc).1
  rintro rfl
  exact hne h.symm

theorem upper_of_inSomeCase (hword : ∀ c ∈ word.toList, c.isUpper) (h : InSomeCase word w) :
    upper w = word := by
  have hmap : w.map capital = w.map Char.toUpper :=
    List.map_congr_left fun c hc => (isAlpha_of_inSomeCase hword h c hc).2
  rw [upper, capitals, hmap, h, String.ofList_toList]

theorem smallLetters_of_inSomeCase (h : InSomeCase word w) :
    smallLetters w = smallLetters word.toList := by
  rw [smallLetters, smallLetters, ← h, List.map_map]
  exact List.map_congr_left fun c _ => (toLower_toUpper c).symm

end Case

/-- The text spells the keyword, a compound one with blanks between its words. -/
inductive SpellsKeyword (k : Keyword) : List Char → Prop
  | single {word : String} {w : List Char} (hk : keywordWords k = (word, none))
      (hw : InSomeCase word w) : SpellsKeyword k w
  | compound {first second : String} {v bs w : List Char}
      (hk : keywordWords k = (first, some second)) (hv : InSomeCase first v)
      (hbs : ∀ c ∈ bs, isBlank c) (hne : bs ≠ []) (hw : InSomeCase second w) :
      SpellsKeyword k (v ++ (bs ++ w))

theorem keywordWords_first (k : Keyword) :
    (keywordWords k).1.toList ≠ [] ∧ ∀ c ∈ (keywordWords k).1.toList, c.isUpper := by
  cases k <;> exact ⟨by decide, List.all_eq_true.1 rfl⟩

theorem keywordWords_second {k : Keyword} {second : String} (h : (keywordWords k).2 = some second) :
    second.toList ≠ [] ∧ ∀ c ∈ second.toList, c.isUpper := by
  cases k <;> cases h <;> exact ⟨by decide, List.all_eq_true.1 rfl⟩

theorem keyword_of_single {k : Keyword} {word : String} (h : keywordWords k = (word, none)) :
    Keyword.ofWord? word = some k ∧ Keyword.compound? word = none := by
  cases k <;> cases h <;> exact ⟨rfl, rfl⟩

theorem keyword_of_compound {k : Keyword} {first second : String}
    (h : keywordWords k = (first, some second)) : Keyword.compound? first = some (second, k) := by
  cases k <;> cases h <;> rfl

theorem lexes_spelled {k : Keyword} {w : List Char} (h : SpellsKeyword k w) : Lexes w (.keyword k) := by
  obtain ⟨hne, hupper⟩ := keywordWords_first k
  cases h with
  | @single word _ hk hw =>
      rw [hk] at hne hupper
      obtain ⟨hword, hcompound⟩ := keyword_of_single hk
      have hw' : upper w = word := upper_of_inSomeCase hupper hw
      rw [← hw'] at hword hcompound
      exact lexes_keyword (isWord_of_inSomeCase hupper hne hw) hword hcompound
  | @compound first second v bs w hk hv hbs hbne hw =>
      rw [hk] at hne hupper
      have hcompound := keyword_of_compound hk
      have hv' : upper v = first := upper_of_inSomeCase hupper hv
      rw [← hv'] at hcompound
      obtain ⟨hne', hupper'⟩ := keywordWords_second (congrArg Prod.snd hk)
      have hstart : ∀ c ∈ w.head?, isAlphabetic c := fun c hc =>
        isAlphabetic_of_isAlpha (isAlpha_of_inSomeCase hupper' hw c (List.mem_of_mem_head? hc)).1
      exact lexes_compound (isWord_of_inSomeCase hupper hne hv) hbs hbne
        (isWord_of_inSomeCase hupper' hne' hw) hstart hcompound hw

theorem exists_spellsKeyword (k : Keyword) : ∃ w, SpellsKeyword k w := by
  obtain ⟨-, hupper⟩ := keywordWords_first k
  cases hk : keywordWords k with
  | mk first rest =>
      rw [hk] at hupper
      cases rest with
      | none => exact ⟨_, .single hk (inSomeCase_self hupper)⟩
      | some second =>
          obtain ⟨-, hupper'⟩ := keywordWords_second (congrArg Prod.snd hk)
          exact ⟨_, .compound hk (inSomeCase_self hupper) isBlank_of_mem_space (List.cons_ne_nil _ _)
            (inSomeCase_self hupper')⟩

end TableQuery.Token
