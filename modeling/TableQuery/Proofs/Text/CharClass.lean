import Mathlib
import TableQuery.Text.Blank
import TableQuery.Text.Word
import TableQuery.Text.Run

/-! How the classes of characters exclude each other: blanks, letters, digits and marks. A run of one
class ends where a blank follows. -/

namespace TableQuery.Text

theorem isUpper_iff (c : Char) : c.isUpper ↔ 65 ≤ c.toNat ∧ c.toNat ≤ 90 := by
  simp only [Char.isUpper, decide_eq_true_eq, ge_iff_le, UInt32.le_iff_toNat_le, Char.toNat]
  rfl

theorem isLower_iff (c : Char) : c.isLower ↔ 97 ≤ c.toNat ∧ c.toNat ≤ 122 := by
  simp only [Char.isLower, Bool.and_eq_true, decide_eq_true_eq, ge_iff_le, UInt32.le_iff_toNat_le,
    Char.toNat]
  rfl

theorem isAlpha_iff (c : Char) :
    c.isAlpha ↔ 65 ≤ c.toNat ∧ c.toNat ≤ 90 ∨ 97 ≤ c.toNat ∧ c.toNat ≤ 122 := by
  rw [Char.isAlpha, Bool.or_eq_true, isUpper_iff, isLower_iff]

theorem isDigit_iff (c : Char) : c.isDigit ↔ 48 ≤ c.toNat ∧ c.toNat ≤ 57 := by
  simp only [Char.isDigit, Bool.and_eq_true, decide_eq_true_eq, ge_iff_le, UInt32.le_iff_toNat_le,
    Char.toNat]
  rfl

theorem inRanges_eq_false {as bs : List (Nat × Nat)} {c : Char}
    (h : ∀ a ∈ as, ∀ b ∈ bs, a.2 < b.1 ∨ b.2 < a.1) (hc : inRanges as c) : inRanges bs c = false := by
  rw [Bool.eq_false_iff]
  intro hb
  obtain ⟨a, ha, hlow, hhigh⟩ := inRanges_iff.1 hc
  obtain ⟨b, hb, hlow', hhigh'⟩ := inRanges_iff.1 hb
  rcases h a ha b hb with hlt | hlt <;> omega

/-! ### Blanks -/

theorem toNat_of_isBlank {c : Char} (h : isBlank c) :
    9 ≤ c.toNat ∧ c.toNat ≤ 13 ∨ c.toNat = 32 ∨ 133 ≤ c.toNat := by
  obtain ⟨r, hr, hlow, hhigh⟩ := inRanges_iff.1 h
  have hranges : ∀ r ∈ blankRanges, r = (9, 13) ∨ r = (32, 32) ∨ 133 ≤ r.1 := by decide
  rcases hranges r hr with rfl | rfl | hge <;> omega

theorem isAlphabetic_of_isBlank {c : Char} (h : isBlank c) : isAlphabetic c = false := by
  rw [isAlphabetic]
  split
  · have hblank := toNat_of_isBlank h
    rw [Bool.eq_false_iff, Ne, isAlpha_iff]
    omega
  · exact inRanges_eq_false (by decide +kernel) h

theorem isDigit_of_isBlank {c : Char} (h : isBlank c) : c.isDigit = false := by
  have hblank := toNat_of_isBlank h
  rw [Bool.eq_false_iff, Ne, isDigit_iff]
  omega

theorem isNumeric_of_isBlank {c : Char} (h : isBlank c) : isNumeric c = false := by
  rw [isNumeric]
  split
  · exact isDigit_of_isBlank h
  · exact inRanges_eq_false (by decide +kernel) h

theorem ne_of_isBlank {c d : Char} (h : isBlank c) (hd : isBlank d = false) : c ≠ d := by
  rintro rfl
  rw [h] at hd
  cases hd

theorem isWordChar_of_isBlank {c : Char} (h : isBlank c) : isWordChar c = false := by
  rw [isWordChar, isAlphabetic_of_isBlank h, isNumeric_of_isBlank h]
  exact beq_eq_false_iff_ne.2 (ne_of_isBlank h (by decide))

/-- The text is at its end or goes on with a blank. -/
def Parted (cs : List Char) : Prop := ∀ c ∈ cs.head?, isBlank c

theorem dropWhile_isBlank {cs : List Char} (h : ∀ c ∈ cs, isBlank c = false) :
    cs.dropWhile isBlank = cs := by
  cases cs with
  | nil => rfl
  | cons c cs => rw [List.dropWhile_cons_of_neg (by simp [h c List.mem_cons_self])]

theorem trimChars_eq_self {cs : List Char} (h : ∀ c ∈ cs, isBlank c = false) : trimChars cs = cs := by
  rw [trimChars, dropWhile_isBlank h, dropWhile_isBlank fun c hc => h c (List.mem_reverse.1 hc),
    List.reverse_reverse]

theorem isDigit_toDigits (n : Nat) : ∀ c ∈ Nat.toDigits 10 n, c.isDigit := fun _ =>
  Nat.isDigit_of_mem_toDigits (by decide) (by decide)

theorem isBlank_of_mem_space : ∀ c ∈ [' '], isBlank c := List.all_eq_true.1 rfl

theorem parted_nil : Parted [] := by
  rintro c ⟨⟩

theorem parted_space (cs : List Char) : Parted (' ' :: cs) := by
  rintro c ⟨⟩
  decide

section Run

variable {p : Char → Bool} {w cs : List Char}

theorem takeWhile_run (hw : ∀ c ∈ w, p c) (hcs : ∀ c ∈ cs.head?, p c = false) :
    (w ++ cs).takeWhile p = w := by
  rw [List.takeWhile_append_of_pos hw]
  cases cs with
  | nil => rw [List.takeWhile_nil, List.append_nil]
  | cons c cs => rw [List.takeWhile_cons_of_neg (by simp [hcs c rfl]), List.append_nil]

theorem dropWhile_run (hw : ∀ c ∈ w, p c) (hcs : ∀ c ∈ cs.head?, p c = false) :
    (w ++ cs).dropWhile p = cs := by
  rw [List.dropWhile_append_of_pos hw]
  cases cs with
  | nil => rfl
  | cons c cs => rw [List.dropWhile_cons_of_neg (by simp [hcs c rfl])]

theorem head?_dropWhile : ∀ c ∈ (cs.dropWhile p).head?, p c = false := by
  intro c hc
  have hhead := List.head?_dropWhile_not p cs
  rwa [Option.mem_def.1 hc] at hhead

theorem takeWhile_of_parted (hp : ∀ c, isBlank c → p c = false) (hw : ∀ c ∈ w, p c)
    (hcs : Parted cs) : (w ++ cs).takeWhile p = w :=
  takeWhile_run hw fun c hc => hp c (hcs c hc)

theorem dropWhile_of_parted (hp : ∀ c, isBlank c → p c = false) (hw : ∀ c ∈ w, p c)
    (hcs : Parted cs) : (w ++ cs).dropWhile p = cs :=
  dropWhile_run hw fun c hc => hp c (hcs c hc)

end Run

/-! ### Words -/

theorem isBlank_of_isWordChar {c : Char} (h : isWordChar c) : isBlank c = false := by
  rw [Bool.eq_false_iff]
  intro hblank
  rw [isWordChar_of_isBlank hblank] at h
  cases h

theorem isWordChar_of_isDigit {c : Char} (h : c.isDigit) : isWordChar c := by
  have hcode := (isDigit_iff c).1 h
  have hascii : c.toNat < 128 := by omega
  rw [isWordChar, isNumeric, if_pos hascii, h, Bool.or_true, Bool.true_or]

theorem isAlphabetic_of_isAlpha {c : Char} (h : c.isAlpha) : isAlphabetic c := by
  have hcode := (isAlpha_iff c).1 h
  have hascii : c.toNat < 128 := by omega
  rw [isAlphabetic, if_pos hascii, h]

theorem not_isDigit_of_isWordStart {c : Char} (h : isWordStart c) : c.isDigit = false := by
  rw [Bool.eq_false_iff, Ne, isDigit_iff]
  intro hdigit
  have hascii : c.toNat < 128 := by omega
  rw [isWordStart, isAlphabetic, if_pos hascii, Bool.or_eq_true, isAlpha_iff, beq_iff_eq] at h
  rcases h with halpha | rfl
  · omega
  · exact absurd hdigit (by decide)

/-- Whether the characters are one word. -/
structure IsWord (w : List Char) : Prop where
  start : ∃ c cs, w = c :: cs ∧ isWordStart c
  all : ∀ c ∈ w, isWordChar c

theorem isWord_of_isAlpha {w : List Char} (hne : w ≠ []) (h : ∀ c ∈ w, c.isAlpha) : IsWord w := by
  have hstart : ∀ c ∈ w, isWordStart c := fun c hc => by
    rw [isWordStart, isAlphabetic_of_isAlpha (h c hc), Bool.true_or]
  obtain ⟨c, cs, rfl⟩ := List.exists_cons_of_ne_nil hne
  exact ⟨⟨c, cs, rfl, hstart c List.mem_cons_self⟩,
    fun d hd => isWordChar_of_isWordStart (hstart d hd)⟩

/-! ### Letter case -/

theorem toUpper_of_not_isLower {c : Char} (h : ¬ c.isLower) : c.toUpper = c := by
  rw [Char.toUpper, dif_neg]
  simpa [Char.isLower] using h

theorem toLower_of_not_isUpper {c : Char} (h : ¬ c.isUpper) : c.toLower = c := by
  rw [Char.toLower, dif_neg]
  simpa [Char.isUpper] using h

theorem isAlpha_of_toUpper {c : Char} (h : c.toUpper.isUpper) : c.isAlpha ∧ capital c = c.toUpper := by
  constructor
  · by_cases hlower : c.isLower
    · rw [Char.isAlpha, hlower, Bool.or_true]
    · rw [toUpper_of_not_isLower hlower] at h
      rw [Char.isAlpha, h, Bool.true_or]
  · rw [capital]
    split
    · rename_i hdotless
      subst hdotless
      exact absurd h (by decide)
    · split
      · rename_i hlong
        subst hlong
        exact absurd h (by decide)
      · rfl

theorem toNat_toUpper_of_isLower {c : Char} (h : c.isLower) : c.toUpper.toNat = c.toNat - 32 := by
  have hbounds : 'a'.val ≤ c.val ∧ c.val ≤ 'z'.val := by simpa [Char.isLower] using h
  have hval : c.toUpper.val = c.val + ('A'.val - 'a'.val) := by
    rw [Char.toUpper, dif_pos hbounds]
  have hshift : ('A'.val - 'a'.val).toNat = 2 ^ 32 - 32 := by decide
  have hcode : c.toUpper.toNat = (c.toNat + (2 ^ 32 - 32)) % 2 ^ 32 := by
    rw [Char.toNat, hval, UInt32.toNat_add, hshift]
    rfl
  have hrange := (isLower_iff c).1 h
  omega

theorem toNat_toLower_of_isUpper {c : Char} (h : c.isUpper) : c.toLower.toNat = c.toNat + 32 := by
  have hbounds : c.val ≥ 'A'.val ∧ c.val ≤ 'Z'.val := by simpa [Char.isUpper] using h
  have hval : c.toLower.val = c.val + ('a'.val - 'A'.val) := by
    rw [Char.toLower, dif_pos hbounds]
  have hshift : ('a'.val - 'A'.val).toNat = 32 := by decide
  have hcode : c.toLower.toNat = (c.toNat + 32) % 2 ^ 32 := by
    rw [Char.toNat, hval, UInt32.toNat_add, hshift]
    rfl
  have hrange := (isUpper_iff c).1 h
  omega

theorem toLower_toUpper (c : Char) : c.toUpper.toLower = c.toLower := by
  by_cases hlower : c.isLower
  · have hrange := (isLower_iff c).1 hlower
    have hcode := toNat_toUpper_of_isLower hlower
    have hupper : c.toUpper.isUpper := by
      rw [isUpper_iff]
      omega
    have hnot : ¬ c.isUpper := by
      rw [isUpper_iff]
      omega
    have hback := toNat_toLower_of_isUpper hupper
    rw [toLower_of_not_isUpper hnot]
    refine Char.ext (UInt32.toNat_inj.1 ?_)
    show c.toUpper.toLower.toNat = c.toNat
    omega
  · rw [toUpper_of_not_isLower hlower]

end TableQuery.Text
