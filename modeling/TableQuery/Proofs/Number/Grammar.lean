import Mathlib
import TableQuery.Number.Spelling
import TableQuery.Proofs.Text.CharClass

/-! Which texts spell a number. The grammar is declared here without the reader: nothing at all, the
spellings of infinity, digits after the mark of a base, and decimal numerals. The reader accepts the texts
of the grammar and one kind more, a plus sign between the mark of a base and its digits. -/

namespace TableQuery.Number

open Text

/-- The character is the digit `d` of a base, in either letter case. -/
def SpellsDigit (base : Nat) (c : Char) (d : Nat) : Prop :=
  d < base ∧ (c = Nat.digitChar d ∨ c = (Nat.digitChar d).toUpper)

/-- One or more digits of a base and the natural that they denote, the first digit weighing most. -/
def SpellsNatural (base : Nat) (ds : List Char) (n : Nat) : Prop :=
  ds ≠ [] ∧ ∃ vs, List.Forall₂ (SpellsDigit base) ds vs ∧ Nat.ofDigits base vs.reverse = n

/-- The letters that mark a base, after a zero. -/
def bases : List (Char × Nat) := [('x', 16), ('X', 16), ('o', 8), ('O', 8), ('b', 2), ('B', 2)]

def IsSign (cs : List Char) : Prop := cs = [] ∨ cs = ['+'] ∨ cs = ['-']

/-- Digits with at most one point among them, and at least one digit. -/
structure IsMantissa (cs : List Char) : Prop where
  digit_or_point : ∀ c ∈ cs, c.isDigit ∨ c = '.'
  count_point : cs.count '.' ≤ 1
  has_digit : ∃ c ∈ cs, c.isDigit

inductive IsExponent : List Char → Prop
  | none : IsExponent []
  | power {e : Char} {sign ds : List Char} (he : e = 'e' ∨ e = 'E') (hsign : IsSign sign) (hne : ds ≠ [])
      (hds : ∀ c ∈ ds, c.isDigit) : IsExponent (e :: (sign ++ ds))

def IsDecimal (cs : List Char) : Prop :=
  ∃ sign mantissa exponent, IsSign sign ∧ IsMantissa mantissa ∧ IsExponent exponent ∧
    cs = sign ++ (mantissa ++ exponent)

/-- The texts that spell a number. -/
inductive SpellsNumber : List Char → Prop
  | blank : SpellsNumber []
  | infinity {sign : List Char} (h : IsSign sign) : SpellsNumber (sign ++ "Infinity".toList)
  | based {letter : Char} {base n : Nat} {ds : List Char} (hletter : (letter, base) ∈ bases)
      (hds : SpellsNatural base ds n) (hn : n < 2 ^ 64) : SpellsNumber ('0' :: letter :: ds)
  | decimal {cs : List Char} (h : IsDecimal cs) : SpellsNumber cs

/-- A plus sign between the mark of a base and its digits. -/
inductive SignsDigits : List Char → Prop
  | plus {letter : Char} {base n : Nat} {ds : List Char} (hletter : (letter, base) ∈ bases)
      (hds : SpellsNatural base ds n) (hn : n < 2 ^ 64) : SignsDigits ('0' :: letter :: '+' :: ds)

/-! ### Digits of a base -/

section Based

variable {base d n : Nat} {c letter : Char} {cs ds rest : List Char}

theorem spellsDigit_iff (hbase : base ≤ 16) :
    SpellsDigit base c d ↔
      d < base ∧ (d < 10 ∧ c.toNat = 48 + d ∨ 10 ≤ d ∧ (c.toNat = 87 + d ∨ c.toNat = 55 + d)) := by
  refine and_congr_right fun hd => ?_
  have hcodes : ∀ d < 16, (Nat.digitChar d).toNat = (if d < 10 then 48 + d else 87 + d) ∧
      (Nat.digitChar d).toUpper.toNat = (if d < 10 then 48 + d else 55 + d) := by decide
  obtain ⟨hlower, hupper⟩ := hcodes d (hd.trans_le hbase)
  rw [← Char.toNat_inj, ← Char.toNat_inj, hlower, hupper]
  split_ifs <;> omega

theorem digitIn_eq_some_iff (hbase : base ≤ 16) : digitIn base c = some d ↔ SpellsDigit base c d := by
  rw [spellsDigit_iff hbase, digitIn, Option.ite_none_right_eq_some, Option.some_inj]
  by_cases hdigit : c.isDigit
  · have hcode := (isDigit_iff c).1 hdigit
    rw [if_pos hdigit]
    omega
  have hnotDigit := mt (isDigit_iff c).2 hdigit
  rw [if_neg hdigit]
  by_cases hupper : c.isUpper
  · have hcode := (isUpper_iff c).1 hupper
    rw [if_pos (by rw [Char.isAlpha, hupper, Bool.true_or]), toNat_toLower_of_isUpper hupper]
    omega
  have hnotUpper := mt (isUpper_iff c).2 hupper
  by_cases hlower : c.isLower
  · have hcode := (isLower_iff c).1 hlower
    rw [if_pos (by rw [Char.isAlpha, hlower, Bool.or_true]), toLower_of_not_isUpper hupper]
    omega
  · have hnotLower := mt (isLower_iff c).2 hlower
    rw [if_neg (by rw [Char.isAlpha, Bool.or_eq_true]; exact not_or.2 ⟨hupper, hlower⟩)]
    omega

theorem foldlM_digitIn_eq_some_iff (hbase : base ≤ 16) {acc : Nat} :
    ds.foldlM (fun n c => (digitIn base c).map (base * n + ·)) acc = some n ↔
      ∃ vs, List.Forall₂ (SpellsDigit base) ds vs ∧
        Nat.ofDigits base vs.reverse + acc * base ^ vs.length = n := by
  induction ds generalizing acc with
  | nil => simp [List.forall₂_nil_left_iff]
  | cons c ds ih =>
      simp only [List.foldlM_cons, Option.bind_eq_bind, Option.bind_eq_some_iff, Option.map_eq_some_iff,
        digitIn_eq_some_iff hbase, List.forall₂_cons_left_iff, ih]
      have hvalue : ∀ (d : Nat) (vs : List Nat),
          Nat.ofDigits base vs.reverse + (base * acc + d) * base ^ vs.length
            = Nat.ofDigits base (d :: vs).reverse + acc * base ^ (d :: vs).length := by
        intro d vs
        rw [Nat.ofDigits_reverse_cons, List.length_cons, pow_succ]
        ring
      constructor
      · rintro ⟨m, ⟨d, hd, rfl⟩, vs, hvs, hn⟩
        exact ⟨d :: vs, ⟨d, vs, hd, hvs, rfl⟩, (hvalue d vs).symm.trans hn⟩
      · rintro ⟨_, ⟨d, vs, hd, hvs, rfl⟩, hn⟩
        exact ⟨base * acc + d, ⟨d, hd, rfl⟩, vs, hvs, (hvalue d vs).trans hn⟩

/-- The value of a run of digits is the natural that they denote. -/
theorem naturalIn_eq_some_iff (hbase : base ≤ 16) (hne : ds ≠ []) :
    naturalIn base ds = some n ↔ SpellsNatural base ds n := by
  rw [naturalIn, foldlM_digitIn_eq_some_iff hbase, SpellsNatural, and_iff_right hne]
  simp only [Nat.zero_mul, Nat.add_zero]

theorem not_spellsNatural_plus (hbase : base ≤ 16) : ¬ SpellsNatural base ('+' :: ds) n := by
  rintro ⟨-, vs, hvs, -⟩
  obtain ⟨d, -, hd, -, -⟩ := List.forall₂_cons_left_iff.1 hvs
  obtain ⟨-, hcode⟩ := (spellsDigit_iff hbase).1 hd
  have hplus : '+'.toNat = 43 := rfl
  omega

theorem filter_naturalIn_isSome_iff (hbase : base ≤ 16) :
    (if ds.isEmpty then none else (naturalIn base ds).filter (· < 2 ^ 64)).isSome ↔
      ∃ n, SpellsNatural base ds n ∧ n < 2 ^ 64 := by
  cases ds with
  | nil => exact iff_of_false (by simp) fun ⟨n, hn, _⟩ => hn.1 rfl
  | cons c ds =>
      have hne : c :: ds ≠ [] := List.cons_ne_nil c ds
      rw [List.isEmpty_cons, if_neg Bool.false_ne_true, Option.isSome_iff_exists]
      simp only [Option.filter_eq_some_iff, naturalIn_eq_some_iff hbase hne, decide_eq_true_eq]

/-- A plus sign before the digits is skipped. -/
theorem wordIn_isSome_iff (hbase : base ≤ 16) :
    (wordIn base cs).isSome ↔ (∃ n, SpellsNatural base cs n ∧ n < 2 ^ 64) ∨
      ∃ ds n, cs = '+' :: ds ∧ SpellsNatural base ds n ∧ n < 2 ^ 64 := by
  -- no digit is a plus sign, so that the two alternatives exclude each other
  by_cases hplus : ∃ ds, cs = '+' :: ds
  · obtain ⟨ds, rfl⟩ := hplus
    have hunsigned : ¬ ∃ n, SpellsNatural base ('+' :: ds) n ∧ n < 2 ^ 64 :=
      fun ⟨n, hn, _⟩ => not_spellsNatural_plus hbase hn
    rw [or_iff_right hunsigned]
    have hword : (wordIn base ('+' :: ds)).isSome ↔ ∃ n, SpellsNatural base ds n ∧ n < 2 ^ 64 :=
      filter_naturalIn_isSome_iff hbase
    refine hword.trans ⟨fun ⟨n, hn⟩ => ⟨ds, n, rfl, hn⟩, ?_⟩
    rintro ⟨ds', n, heq, hn⟩
    rw [(List.cons.inj heq).2]
    exact ⟨n, hn⟩
  · have hword : wordIn base cs = if cs.isEmpty then none else (naturalIn base cs).filter (· < 2 ^ 64) := by
      rw [wordIn]
      exact fun ds hds => hplus ⟨ds, hds⟩
    rw [hword, filter_naturalIn_isSome_iff hbase, or_iff_left]
    rintro ⟨ds, -, rfl, -⟩
    exact hplus ⟨ds, rfl⟩

theorem based?_zero_eq_some_iff {tail : List Char} :
    based? ('0' :: letter :: tail) = some (base, rest) ↔ (letter, base) ∈ bases ∧ tail = rest := by
  simp only [based?, bases, Bool.or_eq_true, decide_eq_true_eq, List.mem_cons, Prod.mk.injEq,
    List.not_mem_nil, or_false]
  split_ifs with hhex hoctal hbinary <;> grind

theorem based?_eq_some_iff :
    based? cs = some (base, rest) ↔ ∃ letter, (letter, base) ∈ bases ∧ cs = '0' :: letter :: rest := by
  constructor
  · intro h
    rw [based?.eq_def] at h
    split at h
    next letter tail =>
      obtain ⟨hmem, rfl⟩ := based?_zero_eq_some_iff.1 h
      exact ⟨letter, hmem, rfl⟩
    next => cases h
  · rintro ⟨letter, hmem, rfl⟩
    exact based?_zero_eq_some_iff.2 ⟨hmem, rfl⟩

theorem base_le_of_mem (h : (letter, base) ∈ bases) : base ≤ 16 := by
  have hall : ∀ b ∈ bases, b.2 ≤ 16 := by decide
  exact hall _ h

end Based

/-! ### Decimal numerals -/

section Decimal

variable {cs ds rest sign : List Char}

theorem exists_sign (cs : List Char) : ∃ sign, IsSign sign ∧ cs = sign ++ (signed cs).2 := by
  rw [signed.eq_def]
  split
  next rest => exact ⟨['+'], Or.inr (Or.inl rfl), rfl⟩
  next rest => exact ⟨['-'], Or.inr (Or.inr rfl), rfl⟩
  next => exact ⟨[], Or.inl rfl, rfl⟩

theorem signed_append (hsign : IsSign sign) (hrest : ∀ c ∈ rest.head?, c ≠ '+' ∧ c ≠ '-') :
    (signed (sign ++ rest)).2 = rest := by
  rcases hsign with rfl | rfl | rfl
  · rw [List.nil_append, signed.eq_def]
    split
    next => exact absurd rfl (hrest '+' rfl).1
    next => exact absurd rfl (hrest '-' rfl).2
    next => rfl
  · rfl
  · rfl

theorem ne_sign_of_digits (hds : ∀ c ∈ ds, c.isDigit) : ∀ c ∈ ds.head?, c ≠ '+' ∧ c ≠ '-' := by
  intro c hc
  have hdigit := hds c (List.mem_of_mem_head? hc)
  constructor <;> (rintro rfl; exact absurd hdigit (by decide))

theorem exponent?_cons_isSome_iff {c : Char} :
    (exponent? (c :: cs)).isSome ↔
      (c = 'e' ∨ c = 'E') ∧ (signed cs).2 ≠ [] ∧ ∀ d ∈ (signed cs).2, d.isDigit := by
  rcases hsigned : signed cs with ⟨mark, ds⟩
  have hdigits : (ds.isEmpty || !ds.all Char.isDigit) = false ↔ ds ≠ [] ∧ ∀ d ∈ ds, d.isDigit := by simp
  rw [← hdigits]
  by_cases hletter : c = 'e' ∨ c = 'E'
  · have hmark : (decide (c = 'e') || decide (c = 'E')) = true := by simpa using hletter
    simp only [exponent?, hsigned, hmark, if_true, Option.isSome_ite', Bool.not_eq_true, hletter, true_and]
  · have hmark : (decide (c = 'e') || decide (c = 'E')) = false := by simpa using hletter
    simp only [exponent?, hmark, Bool.false_eq_true, if_false, Option.isSome_none, hletter, false_and]

theorem exponent?_isSome_iff : (exponent? cs).isSome ↔ IsExponent cs := by
  cases cs with
  | nil => exact iff_of_true rfl .none
  | cons c cs =>
      rw [exponent?_cons_isSome_iff]
      constructor
      · rintro ⟨he, hne, hds⟩
        obtain ⟨sign, hsign, heq⟩ := exists_sign cs
        rw [heq]
        exact .power he hsign hne hds
      · intro h
        cases h with
        | power he hsign hne hds =>
            rw [signed_append hsign (ne_sign_of_digits hds)]
            exact ⟨he, hne, hds⟩

theorem IsExponent.head (h : IsExponent cs) : ∀ c ∈ cs.head?, c.isDigit = false ∧ c ≠ '.' := by
  cases h with
  | none => exact fun c hc => absurd hc (Option.not_mem_none c)
  | power he =>
      rintro c ⟨⟩
      rcases he with rfl | rfl <;> decide

theorem IsMantissa.head (h : IsMantissa cs) (rest : List Char) :
    ∀ c ∈ (cs ++ rest).head?, c ≠ '+' ∧ c ≠ '-' := by
  obtain ⟨d, hd, -⟩ := h.has_digit
  obtain ⟨e, es, rfl⟩ := List.exists_cons_of_ne_nil (List.ne_nil_of_mem hd)
  rintro c ⟨⟩
  have hmem := h.digit_or_point e List.mem_cons_self
  constructor <;> (rintro rfl; exact absurd hmem (by decide))

/-- A mantissa is digits alone, or digits around a point. -/
theorem isMantissa_iff : IsMantissa cs ↔ (cs ≠ [] ∧ ∀ c ∈ cs, c.isDigit) ∨
    ∃ whole fraction, cs = whole ++ '.' :: fraction ∧ (whole ≠ [] ∨ fraction ≠ []) ∧
      (∀ c ∈ whole, c.isDigit) ∧ ∀ c ∈ fraction, c.isDigit := by
  constructor
  · rintro ⟨hchars, hcount, d, hd, hdigit⟩
    have hdigits : ∀ ds, ds ⊆ cs → '.' ∉ ds → ∀ c ∈ ds, c.isDigit := fun ds hds hpoint c hc =>
      (hchars c (hds hc)).resolve_right fun heq => hpoint (heq ▸ hc)
    by_cases hpoint : '.' ∈ cs
    · right
      obtain ⟨whole, fraction, rfl⟩ := List.append_of_mem hpoint
      rw [List.count_append, List.count_cons_self] at hcount
      refine ⟨whole, fraction, rfl, ?_, hdigits whole (by simp) (List.count_eq_zero.1 (by omega)),
        hdigits fraction (by simp) (List.count_eq_zero.1 (by omega))⟩
      by_contra hempty
      obtain ⟨rfl, rfl⟩ := not_or.1 hempty |>.imp not_not.1 not_not.1
      rw [List.mem_singleton.1 hd] at hdigit
      exact absurd hdigit (by decide)
    · exact Or.inl ⟨List.ne_nil_of_mem hd, hdigits cs (List.Subset.refl cs) hpoint⟩
  · have hcount : ∀ ds : List Char, (∀ c ∈ ds, c.isDigit) → ds.count '.' = 0 := fun ds hds =>
      List.count_eq_zero.2 fun hmem => absurd (hds '.' hmem) (by decide)
    rintro (⟨hne, hds⟩ | ⟨whole, fraction, rfl, hne, hwhole, hfraction⟩)
    · obtain ⟨c, hc⟩ := List.exists_mem_of_ne_nil cs hne
      exact ⟨fun c hc => Or.inl (hds c hc), by rw [hcount cs hds]; exact Nat.zero_le 1, c, hc, hds c hc⟩
    · refine ⟨fun c hc => ?_, ?_, ?_⟩
      · rcases List.mem_append.1 hc with hc | hc
        · exact Or.inl (hwhole c hc)
        · exact (List.mem_cons.1 hc).symm.imp_left (hfraction c)
      · rw [List.count_append, List.count_cons_self, hcount whole hwhole, hcount fraction hfraction]
      · rcases hne with hne | hne
        · obtain ⟨c, hc⟩ := List.exists_mem_of_ne_nil whole hne
          exact ⟨c, List.mem_append_left _ hc, hwhole c hc⟩
        · obtain ⟨c, hc⟩ := List.exists_mem_of_ne_nil fraction hne
          exact ⟨c, List.mem_append_right _ (List.mem_cons_of_mem _ hc), hfraction c hc⟩

section Unsigned

variable {whole fraction : List Char}

theorem numeral?_whole_isSome_iff (hcs : (signed cs).2 = whole ++ rest) (hwhole : ∀ c ∈ whole, c.isDigit)
    (hrest : ∀ c ∈ rest.head?, c.isDigit = false ∧ c ≠ '.') :
    (numeral? cs).isSome ↔ whole ≠ [] ∧ IsExponent rest := by
  rcases hsigned : signed cs with ⟨mark, unsigned⟩
  obtain rfl : unsigned = whole ++ rest := by rw [← hcs, hsigned]
  have hdigit : ∀ c ∈ rest.head?, c.isDigit = false := fun c hc => (hrest c hc).1
  simp only [numeral?, hsigned, takeWhile_run hwhole hdigit, dropWhile_run hwhole hdigit]
  split
  next => exact absurd rfl (hrest '.' rfl).2
  next =>
    rw [Option.getD_none, List.isEmpty_nil, Bool.and_true, ← exponent?_isSome_iff]
    cases whole with
    | nil => simp
    | cons d ds => simp

theorem numeral?_point_isSome_iff (hcs : (signed cs).2 = whole ++ '.' :: (fraction ++ rest))
    (hwhole : ∀ c ∈ whole, c.isDigit) (hfraction : ∀ c ∈ fraction, c.isDigit)
    (hrest : ∀ c ∈ rest.head?, c.isDigit = false) :
    (numeral? cs).isSome ↔ (whole ≠ [] ∨ fraction ≠ []) ∧ IsExponent rest := by
  rcases hsigned : signed cs with ⟨mark, unsigned⟩
  obtain rfl : unsigned = whole ++ '.' :: (fraction ++ rest) := by rw [← hcs, hsigned]
  have hpoint : ∀ c ∈ ('.' :: (fraction ++ rest)).head?, c.isDigit = false := by
    rintro c ⟨⟩
    decide
  simp only [numeral?, hsigned, takeWhile_run hwhole hpoint, dropWhile_run hwhole hpoint,
    takeWhile_run hfraction hrest, dropWhile_run hfraction hrest, Option.getD_some]
  rw [← exponent?_isSome_iff]
  cases whole with
  | nil =>
      cases fraction with
      | nil => simp
      | cons d ds => simp
  | cons d ds => simp

end Unsigned

/-- The reader of numerals accepts a mantissa and an exponent after an optional sign. -/
theorem numeral?_isSome_iff : (numeral? cs).isSome ↔ IsDecimal cs := by
  constructor
  · intro h
    obtain ⟨sign, hsign, hcs⟩ := exists_sign cs
    have hparts : ∀ ds : List Char, ds = ds.takeWhile Char.isDigit ++ ds.dropWhile Char.isDigit :=
      fun ds => List.takeWhile_append_dropWhile.symm
    have hdigits : ∀ ds : List Char, ∀ c ∈ ds.takeWhile Char.isDigit, c.isDigit :=
      fun ds c hc => List.mem_takeWhile_imp hc
    have hrest := hparts (signed cs).2
    -- the first run of digits ends at a point, or the mantissa ends with it
    by_cases hpoint : ∃ after, (signed cs).2.dropWhile Char.isDigit = '.' :: after
    · obtain ⟨after, hafter⟩ := hpoint
      rw [hafter, hparts after] at hrest
      obtain ⟨hne, hexponent⟩ :=
        (numeral?_point_isSome_iff hrest (hdigits _) (hdigits _) head?_dropWhile).1 h
      have hmantissa := isMantissa_iff.2 (Or.inr ⟨_, _, rfl, hne, hdigits _, hdigits _⟩)
      refine ⟨sign, _, _, hsign, hmantissa, hexponent, ?_⟩
      rw [List.append_assoc, List.cons_append, ← hrest, ← hcs]
    · have hhead : ∀ c ∈ ((signed cs).2.dropWhile Char.isDigit).head?, c.isDigit = false ∧ c ≠ '.' := by
        refine fun c hc => ⟨head?_dropWhile c hc, ?_⟩
        rintro rfl
        exact hpoint ⟨_, (List.cons_head?_tail hc).symm⟩
      obtain ⟨hne, hexponent⟩ := (numeral?_whole_isSome_iff hrest (hdigits _) hhead).1 h
      exact ⟨sign, _, _, hsign, isMantissa_iff.2 (Or.inl ⟨hne, hdigits _⟩), hexponent, hrest ▸ hcs⟩
  · rintro ⟨sign, mantissa, exponent, hsign, hmantissa, hexponent, rfl⟩
    have hunsigned := signed_append hsign (hmantissa.head exponent)
    have hdigit : ∀ c ∈ exponent.head?, c.isDigit = false := fun c hc => (hexponent.head c hc).1
    rcases isMantissa_iff.1 hmantissa with
      ⟨hne, hwhole⟩ | ⟨whole, fraction, rfl, hne, hwhole, hfraction⟩
    · exact (numeral?_whole_isSome_iff hunsigned hwhole hexponent.head).2 ⟨hne, hexponent⟩
    · rw [List.append_assoc, List.cons_append] at hunsigned
      rw [List.append_assoc, List.cons_append]
      exact (numeral?_point_isSome_iff hunsigned hwhole hfraction hdigit).2 ⟨hne, hexponent⟩

theorem numeral?_of_mem_bases {letter : Char} {base : Nat} (h : (letter, base) ∈ bases) :
    numeral? ('0' :: letter :: rest) = none := by
  have hletter : ∀ b ∈ bases, b.1.isDigit = false ∧ b.1 ≠ '.' ∧ b.1 ≠ 'e' ∧ b.1 ≠ 'E' := by decide
  obtain ⟨hdigit, hpoint, he, hE⟩ := hletter _ h
  have hzero : ∀ c ∈ ['0'], c.isDigit := List.all_eq_true.1 rfl
  have hhead : ∀ c ∈ (letter :: rest).head?, c.isDigit = false ∧ c ≠ '.' := by
    rintro c ⟨⟩
    exact ⟨hdigit, hpoint⟩
  rw [← Option.not_isSome_iff_eq_none, numeral?_whole_isSome_iff rfl hzero hhead]
  rintro ⟨-, hexponent⟩
  cases hexponent with
  | power hmark => exact hmark.elim he hE

end Decimal

/-! ### Every text -/

section Spelled

variable {cs rest : List Char} {letter : Char} {base : Nat}

theorem base_unique {base' : Nat} (h : (letter, base) ∈ bases) (h' : (letter, base') ∈ bases) :
    base = base' := by
  have hbased : based? ['0', letter] = some (base, []) := based?_zero_eq_some_iff.2 ⟨h, rfl⟩
  have hbased' : based? ['0', letter] = some (base', []) := based?_zero_eq_some_iff.2 ⟨h', rfl⟩
  rw [hbased] at hbased'
  exact congrArg Prod.fst (Option.some.inj hbased')

theorem spellsNumber_based_iff (h : (letter, base) ∈ bases) :
    SpellsNumber ('0' :: letter :: rest) ↔ ∃ n, SpellsNatural base rest n ∧ n < 2 ^ 64 := by
  constructor
  · generalize hcs : '0' :: letter :: rest = cs
    intro hspells
    cases hspells with
    | blank => cases hcs
    | infinity hsign => rcases hsign with rfl | rfl | rfl <;> exact absurd (List.cons.inj hcs).1 (by decide)
    | based hletter hds hn =>
        cases hcs
        rw [base_unique h hletter]
        exact ⟨_, hds, hn⟩
    | decimal hdecimal =>
        rw [← numeral?_isSome_iff, ← hcs, numeral?_of_mem_bases h] at hdecimal
        cases hdecimal
  · rintro ⟨n, hds, hn⟩
    exact .based h hds hn

theorem signsDigits_based_iff (h : (letter, base) ∈ bases) :
    SignsDigits ('0' :: letter :: rest) ↔
      ∃ ds n, rest = '+' :: ds ∧ SpellsNatural base ds n ∧ n < 2 ^ 64 := by
  constructor
  · intro hsigns
    cases hsigns with
    | plus hletter hds hn =>
        rw [base_unique h hletter]
        exact ⟨_, _, rfl, hds, hn⟩
  · rintro ⟨ds, n, rfl, hds, hn⟩
    exact .plus h hds hn

theorem not_spellsNumber_of_signsDigits (h : SignsDigits cs) : ¬ SpellsNumber cs := by
  cases h with
  | plus hletter =>
      rw [spellsNumber_based_iff hletter]
      rintro ⟨n, hds, -⟩
      exact not_spellsNatural_plus (base_le_of_mem hletter) hds

theorem based?_eq_none_iff : based? cs = none ↔
    ∀ letter base rest, (letter, base) ∈ bases → cs ≠ '0' :: letter :: rest := by
  rw [Option.eq_none_iff_forall_ne_some]
  constructor
  · intro h letter base rest hmem heq
    exact h (base, rest) (based?_eq_some_iff.2 ⟨letter, hmem, heq⟩)
  · rintro h ⟨base, rest⟩ heq
    obtain ⟨letter, hmem, hcs⟩ := based?_eq_some_iff.1 heq
    exact h letter base rest hmem hcs

theorem spelled?_of_proper (hne : trimChars cs ≠ [])
    (hinfinity : ∀ sign, IsSign sign → trimChars cs ≠ sign ++ "Infinity".toList) :
    spelled? cs = match based? (trimChars cs) with
      | some (base, rest) => (wordIn base rest).map fun n : Nat => Binary64.ofInt n
      | none => (numeral? (trimChars cs)).map Numeral.nearest := by
  have hempty : (trimChars cs).isEmpty = false := by simpa using hne
  have hbare : trimChars cs ≠ "Infinity".toList := hinfinity [] (Or.inl rfl)
  have hplus : trimChars cs ≠ "+Infinity".toList := hinfinity ['+'] (Or.inr (Or.inl rfl))
  have hminus : trimChars cs ≠ "-Infinity".toList := hinfinity ['-'] (Or.inr (Or.inr rfl))
  simp only [spelled?, hempty, hbare, hplus, hminus, decide_false, Bool.or_self, Bool.false_eq_true, if_false]
  rcases based? (trimChars cs) with _ | ⟨base, rest⟩
  · rfl
  · have hcast : ∀ o : Option Nat, Option.map Binary64.ofInt (do let n ← o; pure (n : Int)) =
        o.map fun n : Nat => Binary64.ofInt n := by
      rintro (_ | n) <;> rfl
    exact hcast (wordIn base rest)

/-- **The texts that spell a number are those of the grammar, and those with a plus sign between the mark
of a base and the digits.** -/
theorem spelled?_isSome_iff :
    (spelled? cs).isSome ↔ SpellsNumber (trimChars cs) ∨ SignsDigits (trimChars cs) := by
  by_cases hempty : trimChars cs = []
  · have hzero : spelled? cs = some .zero := by simp only [spelled?, hempty, List.isEmpty_nil, if_true]
    rw [hzero, hempty]
    exact iff_of_true rfl (Or.inl .blank)
  by_cases hinfinity : ∃ sign, IsSign sign ∧ trimChars cs = sign ++ "Infinity".toList
  · obtain ⟨sign, hsign, heq⟩ := hinfinity
    refine iff_of_true ?_ (Or.inl (heq ▸ .infinity hsign))
    simp only [spelled?, heq]
    rcases hsign with rfl | rfl | rfl <;> decide
  rw [spelled?_of_proper hempty fun sign hsign heq => hinfinity ⟨sign, hsign, heq⟩]
  cases hbased : based? (trimChars cs) with
  | some p =>
      obtain ⟨letter, hletter, heq⟩ := based?_eq_some_iff.1 hbased
      rw [Option.isSome_map, wordIn_isSome_iff (base_le_of_mem hletter), heq, spellsNumber_based_iff hletter,
        signsDigits_based_iff hletter]
  | none =>
      have hnone := based?_eq_none_iff.1 hbased
      rw [Option.isSome_map, numeral?_isSome_iff]
      constructor
      · exact fun h => Or.inl (.decimal h)
      · rintro (h | h)
        · generalize hcs : trimChars cs = ws at h
          cases h with
          | blank => exact absurd hcs hempty
          | infinity hsign => exact absurd ⟨_, hsign, hcs⟩ hinfinity
          | based hletter => exact absurd hcs (hnone _ _ _ hletter)
          | decimal h => exact h
        · generalize hcs : trimChars cs = ws at h
          cases h with
          | plus hletter => exact absurd hcs (hnone _ _ _ hletter)

theorem Numeral.isNaN_nearest (n : Numeral) : n.nearest.isNaN = false := by
  have hle := nearestDecimal_le n.coefficient n.scale
  have hlt : nearestDecimal n.coefficient n.scale < 2 ^ 63 := hle.trans_lt (by decide)
  rw [Numeral.nearest, Binary64.isNaN, Binary64.magnitude_ofMagnitude hlt]
  exact decide_eq_false hle.not_gt

theorem isNaN_of_spelled? {x : Binary64} (h : spelled? cs = some x) : x.isNaN = false := by
  by_cases hempty : trimChars cs = []
  · simp only [spelled?, hempty, List.isEmpty_nil, if_true] at h
    cases h
    decide
  by_cases hinfinity : ∃ sign, IsSign sign ∧ trimChars cs = sign ++ "Infinity".toList
  · obtain ⟨sign, hsign, heq⟩ := hinfinity
    simp only [spelled?, heq] at h
    rcases hsign with rfl | rfl | rfl <;> (cases h; decide)
  rw [spelled?_of_proper hempty fun sign hsign heq => hinfinity ⟨sign, hsign, heq⟩] at h
  cases hbased : based? (trimChars cs) with
  | some p =>
      rw [hbased] at h
      obtain ⟨n, -, rfl⟩ := Option.map_eq_some_iff.1 h
      exact Binary64.isNaN_ofInt n
  | none =>
      rw [hbased] at h
      obtain ⟨n, -, rfl⟩ := Option.map_eq_some_iff.1 h
      exact n.isNaN_nearest

theorem lt_of_wordIn {base n : Nat} {ds : List Char} (h : wordIn base ds = some n) : n < 2 ^ 64 := by
  have hfilter : ∀ ws : List Char,
      (if ws.isEmpty then none else (naturalIn base ws).filter (· < 2 ^ 64)) = some n → n < 2 ^ 64 := fun ws hws =>
    of_decide_eq_true (Option.filter_eq_some_iff.1 (Option.ite_none_left_eq_some.1 hws).2).2
  exact hfilter _ h

/-- A base mark with a sign behind it is read as a natural of 64 bits. -/
theorem spelled?_of_signsDigits (h : SignsDigits (trimChars cs)) :
    ∃ n : Nat, n < 2 ^ 64 ∧ spelled? cs = some (.ofInt n) := by
  have hspelled : (spelled? cs).isSome := spelled?_isSome_iff.2 (Or.inr h)
  generalize hcs : trimChars cs = ws at h
  cases h with
  | @plus letter base k ds hletter hds hk =>
      have hne : trimChars cs ≠ [] := hcs ▸ List.cons_ne_nil _ _
      have hinfinity : ∀ sign, IsSign sign → trimChars cs ≠ sign ++ "Infinity".toList := by
        rintro sign (rfl | rfl | rfl) heq <;> exact absurd (List.cons.inj (hcs.symm.trans heq)).1 (by decide)
      have hbased : based? (trimChars cs) = some (base, '+' :: ds) := by
        rw [hcs]
        exact based?_zero_eq_some_iff.2 ⟨hletter, rfl⟩
      rw [spelled?_of_proper hne hinfinity, hbased] at hspelled ⊢
      obtain ⟨x, hx⟩ := Option.isSome_iff_exists.1 hspelled
      obtain ⟨n, hn, rfl⟩ := Option.map_eq_some_iff.1 hx
      exact ⟨n, lt_of_wordIn hn, hx⟩

end Spelled

end TableQuery.Number
