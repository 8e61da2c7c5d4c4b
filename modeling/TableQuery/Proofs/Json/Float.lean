import TableQuery.Proofs.Number.Layout
import TableQuery.Proofs.Number.Shortest

/-! Floats in documents. The numeral of a finite float is read as a float, and never as an integer: its
digits are a number that is at most half a place above the float, and the two roundings on the way back
do not carry it beyond the finite numbers. -/

namespace TableQuery.Json

open Number

/-! ### Digits that fit -/

theorem takeFitting_spec {n : Nat} (hn : n < 2 ^ 64) (ds : List Char) : ∃ taken,
    ds = taken ++ (takeFitting n ds).2 ∧ (takeFitting n ds).1 = Nat.ofDigitChars 10 taken n ∧
      (takeFitting n ds).1 < 2 ^ 64 := by
  induction ds generalizing n with
  | nil => exact ⟨[], rfl, Nat.ofDigitChars_nil.symm, hn⟩
  | cons d ds ih =>
      rw [takeFitting]
      split
      next hfits =>
        obtain ⟨taken, hds, hvalue, hlt⟩ := ih hfits
        refine ⟨d :: taken, congrArg (List.cons d) hds, ?_, hlt⟩
        rw [hvalue, ← List.singleton_append (l := taken), Nat.ofDigitChars_append]
      · exact ⟨[], rfl, Nat.ofDigitChars_nil.symm, hn⟩

theorem le_ofDigitChars (n : Nat) (ds : List Char) :
    10 ^ ds.length * n ≤ Nat.ofDigitChars 10 ds n := by
  rw [Nat.ofDigitChars_eq_ofDigitChars_zero]
  exact Nat.le_add_right _ _

theorem takeFitting_all {n : Nat} {ds : List Char} (h : Nat.ofDigitChars 10 ds n < 2 ^ 64) :
    takeFitting n ds = (Nat.ofDigitChars 10 ds n, []) := by
  induction ds generalizing n with
  | nil => rw [takeFitting, Nat.ofDigitChars_nil]
  | cons d ds ih =>
      rw [← List.singleton_append, Nat.ofDigitChars_append] at h
      have hle : Nat.ofDigitChars 10 [d] n ≤ Nat.ofDigitChars 10 ds (Nat.ofDigitChars 10 [d] n) :=
        le_trans (Nat.le_mul_of_pos_left _ (by positivity)) (le_ofDigitChars _ _)
      rw [takeFitting, if_pos (hle.trans_lt h), ih h, ← Nat.ofDigitChars_append, List.singleton_append]

theorem ofDigitChars_lt {ds : List Char} (h : ∀ c ∈ ds, c.isDigit) :
    Nat.ofDigitChars 10 ds 0 < 10 ^ ds.length := by
  induction ds with
  | nil => decide
  | cons d ds ih =>
      have hd : d.toNat - '0'.toNat < 10 := by
        have hcode := (Text.isDigit_iff d).1 (h d List.mem_cons_self)
        have hzero : '0'.toNat = 48 := rfl
        omega
      have hds := ih fun c hc => h c (List.mem_cons_of_mem _ hc)
      rw [Nat.ofDigitChars_cons, Nat.ofDigitChars_eq_ofDigitChars_zero, List.length_cons, Nat.pow_succ]
      nlinarith

/-! ### Scaling -/

theorem scaleByTens?_isSome_of_neg {e : Int} (he : e < 0) (a : Nat) : (scaleByTens? a e).isSome := by
  fun_induction scaleByTens? a e with
  | case1 => rfl
  | case2 a e ha hsmall ih => exact ih (by omega)
  | case3 => rfl
  | case4 a e ha hsmall hneg => exact absurd he hneg
  | case5 a e ha hsmall hneg => exact absurd he hneg

theorem scaleByTens?_isSome {a : Nat} {e : Int} (h : a ≠ 0 → 0 ≤ e → e ≤ 308 ∧
    multiply a (nearestDecimal 1 e) < infinityMagnitude) : (scaleByTens? a e).isSome := by
  rcases lt_or_ge e 0 with he | he
  · exact scaleByTens?_isSome_of_neg he a
  · rw [scaleByTens?]
    split
    · rfl
    next ha =>
      obtain ⟨hgreatest, hfinite⟩ := h ha he
      rw [if_neg (by omega), if_neg (by omega), if_pos hgreatest]
      simp [hfinite]

theorem multiply_le {a b num den : Nat} (hden : 0 < den) (h : toRat a * toRat b ≤ num / den) :
    multiply a b ≤ nearestMagnitude num den := by
  obtain ⟨n, d, hd, hscaled, hratio⟩ := nearestScaled_eq ((unpack a).1 * (unpack b).1) Nat.one_pos
    ((unpack a).2 + (unpack b).2)
  rw [multiply, hscaled]
  refine nearestMagnitude_mono hd hden (le_of_eq_of_le ?_ h)
  rw [hratio, toRat, toRat, zpow_add₀ two_ne_zero, Nat.cast_one, div_one, Nat.cast_mul]
  ring

/-- The powers of ten that a number is scaled by are those that are finite. -/
theorem nearestDecimal_tens {e : Int} (hpos : 0 ≤ e) (hgreatest : e ≤ 308) :
    nearestDecimal 1 e = nearestMagnitude (10 ^ e.toNat) 1 ∧
      nearestMagnitude (10 ^ e.toNat) 1 < infinityMagnitude := by
  have hlog : ((1 : Nat).log2 : Int) = 0 := by decide
  constructor
  · rw [nearestDecimal, if_neg Nat.one_ne_zero, if_neg (by omega), hlog, if_neg (by omega), if_pos hpos,
      Nat.one_mul]
  · have hlargest : nearestMagnitude (10 ^ 308) 1 < infinityMagnitude := by decide +kernel
    have hpower : ∀ k, e.toNat ≤ k → 10 ^ e.toNat ≤ 10 ^ k := fun _ => Nat.pow_le_pow_right (by decide)
    exact (Binary64.nearestMagnitude_word_mono (hpower 308 (by omega))).trans_lt hlargest

/-- Three places and a half below the end of the finite numbers. -/
def scaleLimit : ℚ := (2 ^ 53 - 7 / 2) * 2 ^ 971

/-- **A number of 64 bits times a power of ten stays finite up to the limit**, which leaves room for the
rounding of both factors. -/
theorem multiply_tens {m : Nat} {e : Int} (hm : m < 2 ^ 64) (hpos : 0 ≤ e) (hgreatest : e ≤ 308)
    (h : (m : ℚ) * 10 ^ e ≤ scaleLimit) :
    multiply (nearestMagnitude m 1) (nearestDecimal 1 e) < infinityMagnitude := by
  obtain ⟨htens, hfinite⟩ := nearestDecimal_tens hpos hgreatest
  have hfactor := toRat_nearestMagnitude_le (Binary64.nearestMagnitude_word_lt hm.le)
  have hpower := toRat_nearestMagnitude_le hfinite
  have hlargest : nearestMagnitude ((2 ^ 53 - 1) * 2 ^ 971) 1 < infinityMagnitude := by decide +kernel
  have hplaces : ∀ k : Nat, (((2 ^ 53 - 1) * 2 ^ k : Nat) : ℚ) = (2 ^ 53 - 1) * 2 ^ k := by
    intro k
    have hpow : ((2 ^ k : Nat) : ℚ) = 2 ^ k := Nat.cast_pow 2 k
    rw [Nat.cast_mul, hpow]
    norm_num
  have hcast : ((10 ^ e.toNat : Nat) : ℚ) = 10 ^ e := natCast_pow_toNat 10 hpos
  rw [hcast] at hpower
  rw [scaleLimit] at h
  have hproduct : toRat (nearestMagnitude m 1) * toRat (nearestMagnitude (10 ^ e.toNat) 1) ≤
      (2 ^ 53 - 1) * 2 ^ 971 := by
    have hunit : (0 : ℚ) < 2 ^ 971 := by positivity
    generalize (2 : ℚ) ^ 971 = places at h hunit ⊢
    calc toRat (nearestMagnitude m 1) * toRat (nearestMagnitude (10 ^ e.toNat) 1)
      _ ≤ m * (1 + 2 ^ (-53 : Int)) * (10 ^ e * (1 + 2 ^ (-53 : Int))) :=
          mul_le_mul hfactor hpower (toRat_nonneg _) (by positivity)
      _ = m * 10 ^ e * (1 + 2 ^ (-53 : Int)) ^ 2 := by ring
      _ ≤ (2 ^ 53 - 7 / 2) * places * (1 + 2 ^ (-53 : Int)) ^ 2 :=
          mul_le_mul_of_nonneg_right h (by positivity)
      _ = (2 ^ 53 - 7 / 2) * (1 + 2 ^ (-53 : Int)) ^ 2 * places := by ring
      _ ≤ (2 ^ 53 - 1) * places := by
          refine mul_le_mul_of_nonneg_right ?_ hunit.le
          norm_num
  rw [htens]
  refine (multiply_le Nat.one_pos ?_).trans_lt hlargest
  rw [Nat.cast_one, div_one, hplaces 971]
  exact hproduct

/-- There is no power of ten above the largest finite one in a finite number. -/
theorem tens_le {m : Nat} {e : Int} (hm : m ≠ 0) (h : (m : ℚ) * 10 ^ e ≤ scaleLimit) : e ≤ 308 := by
  rw [scaleLimit] at h
  have hcast : ∀ a b : Nat, 2 ^ a < 10 ^ b → (2 : ℚ) ^ a < 10 ^ b := fun a b hab => by exact_mod_cast hab
  have hend : (2 : ℚ) ^ 53 * 2 ^ 971 < 10 ^ 309 := by
    rw [← pow_add]
    exact hcast 1024 309 (by decide +kernel)
  have hone : (1 : ℚ) ≤ m := by exact_mod_cast Nat.one_le_iff_ne_zero.2 hm
  by_contra hlarge
  have htens : (10 : ℚ) ^ (309 : Nat) ≤ 10 ^ e := by
    rw [← zpow_natCast]
    exact zpow_le_zpow_right₀ (by norm_num) (by omega)
  have hunit : (0 : ℚ) < 2 ^ 971 := by positivity
  generalize (2 : ℚ) ^ 971 = places at h hend hunit
  generalize (10 : ℚ) ^ (309 : Nat) = tens at hend htens
  nlinarith

/-- A numeral is read if its digits before the point fit and it spells no number above the limit. Digits
after the point that do not fit make it smaller. -/
theorem float?_isSome {n : Numeral} (hwhole : Nat.ofDigitChars 10 n.whole 0 < 2 ^ 64)
    (h : (n.coefficient : ℚ) * 10 ^ n.scale ≤ scaleLimit) : (float? n).isSome := by
  obtain ⟨taken, hfraction, hvalue, hlt⟩ := takeFitting_spec hwhole n.fractionDigits
  rw [float?, takeFitting_all hwhole]
  dsimp only
  generalize takeFitting (Nat.ofDigitChars 10 n.whole 0) n.fractionDigits = p at *
  obtain ⟨m, unread⟩ := p
  dsimp only at hfraction hvalue hlt ⊢
  rw [Option.isSome_map]
  have hexponent : n.exponentValue + (([] : List Char).length : Int) -
      (n.fractionDigits.length - unread.length : Nat) = n.scale + unread.length := by
    rw [Numeral.scale, hfraction, List.length_append, List.length_nil]
    push_cast
    omega
  rw [hexponent]
  have hcoefficient : 10 ^ unread.length * m ≤ n.coefficient := by
    rw [Numeral.coefficient, hfraction, Nat.ofDigitChars_append, Nat.ofDigitChars_append, ← hvalue]
    exact le_ofDigitChars m unread
  have hspelled : (m : ℚ) * 10 ^ (n.scale + unread.length) ≤ scaleLimit := by
    refine le_trans ?_ h
    have hcast : (10 : ℚ) ^ unread.length * m ≤ n.coefficient := by exact_mod_cast hcoefficient
    calc (m : ℚ) * 10 ^ (n.scale + unread.length) = 10 ^ unread.length * m * 10 ^ n.scale := by
          rw [zpow_add₀ (by norm_num), zpow_natCast]
          ring
      _ ≤ n.coefficient * 10 ^ n.scale := mul_le_mul_of_nonneg_right hcast (by positivity)
  refine scaleByTens?_isSome fun hm hpos => ?_
  have hgreatest : n.scale + unread.length ≤ 308 :=
    tens_le (fun hzero => hm (by rw [hzero, nearestMagnitude_zero])) hspelled
  exact ⟨hgreatest, multiply_tens hlt hpos hgreatest hspelled⟩

end TableQuery.Json

namespace TableQuery.Value

open Number Json

variable {negative : Bool} {d : Decimal} {c : Char} {cs : List Char} {n : Numeral}

/-! ### Floats of a document -/

/-- Before the point there are no more than sixteen digits. -/
theorem length_whole_le (h : documentLayout.SetsOut negative d c cs n) : n.whole.length ≤ 16 := by
  have hplain : ∀ e : Int, documentLayout.scientific e = false → e ≤ 15 := by
    intro e he
    simp [documentLayout] at he
    exact he.2
  cases h with
  | scientific => simp
  | whole hexponent hpos =>
      have hlast := hplain _ hexponent
      rw [List.length_append, List.length_replicate, List.length_cons]
      omega
  | mixed ds ds' hexponent hcs hlength hne =>
      have hlast := hplain _ hexponent
      rw [hcs, List.length_append, hlength] at hlast
      push_cast at hlast
      rw [List.length_cons]
      omega
  | small => simp

/-- A float has a point or an exponent, so that it is not taken for an integer. -/
theorem worth?_eq_float? (h : documentLayout.SetsOut negative d c cs n) :
    worth? n = (Json.float? n).map .float := by
  have hform : (n.fraction.isNone && n.exponent.isNone) = false := by
    cases h with
    | scientific => exact Bool.and_false _
    | _ => rfl
  rw [worth?, hform]
  rfl

/-- Half a place above a number that is not among the last three finite ones is below the limit. -/
theorem half_place_le {magnitude : Nat} (h : magnitude + 4 ≤ infinityMagnitude) :
    ((unpack magnitude).1 + 1 / 2 : ℚ) * 2 ^ (unpack magnitude).2 ≤ scaleLimit := by
  have hlimit : scaleLimit = (2 ^ 53 - 7 / 2) * 2 ^ (971 : Int) := rfl
  rw [infinityMagnitude] at h
  rw [hlimit]
  have hplaces : (unpack magnitude).2 ≤ 970 ∧ (unpack magnitude).1 + 1 ≤ 2 ^ 53 ∨
      (unpack magnitude).2 = 971 ∧ (unpack magnitude).1 + 4 ≤ 2 ^ 53 := by
    unfold unpack
    split <;> dsimp only <;> omega
  generalize unpack magnitude = p at *
  obtain ⟨m, e⟩ := p
  rcases hplaces with ⟨he, hm⟩ | ⟨rfl, hm⟩
  · have hm : (m : ℚ) + 1 ≤ 2 ^ 53 := by exact_mod_cast hm
    have hunit : (2 : ℚ) ^ e ≤ 2 ^ (970 : Int) := two_zpow_le he
    have hnext : (2 : ℚ) ^ (971 : Int) = 2 * 2 ^ (970 : Int) := by
      rw [← zpow_one_add₀ two_ne_zero]
      rfl
    have hpos : (0 : ℚ) < 2 ^ (970 : Int) := by positivity
    rw [hnext]
    generalize (2 : ℚ) ^ (970 : Int) = unit at *
    calc ((m : ℚ) + 1 / 2) * 2 ^ e ≤ 2 ^ 53 * unit := by
          refine mul_le_mul ?_ hunit (by positivity) (by positivity)
          linarith
      _ ≤ (2 ^ 53 - 7 / 2) * 2 * unit := mul_le_mul_of_nonneg_right (by norm_num) hpos.le
      _ = (2 ^ 53 - 7 / 2) * (2 * unit) := mul_assoc _ _ _
  · have hm : (m : ℚ) + 4 ≤ 2 ^ 53 := by exact_mod_cast hm
    refine mul_le_mul_of_nonneg_right ?_ (by positivity)
    linarith

theorem exponent_shortest {magnitude : Nat} (h : magnitude < infinityMagnitude) (tie : Tie)
    (hdigits : (shortest tie magnitude).digits = 0) : (shortest tie magnitude).exponent = 0 := by
  by_cases hzero : magnitude = 0
  · rw [shortest, if_pos hzero]
  · exact absurd hdigits (shortest_spec tie hzero h).1

theorem isJson_numeral (layout : Number.Layout) {magnitude : Nat} (h : magnitude < infinityMagnitude) (tie : Tie)
    (negative : Bool) : (layout.numeral negative (shortest tie magnitude)).IsJson := by
  obtain ⟨c, cs, hdigits, hform⟩ := layout.exists_setsOut negative (shortest tie magnitude)
  exact hform.isJson hdigits (exponent_shortest h tie)

theorem isJson_numeralOf (layout : Number.Layout) {x : Binary64} (h : x.isFinite) : (layout.numeralOf x).IsJson := by
  have hmagnitude : x.magnitude < infinityMagnitude := by simpa [Binary64.isFinite] using h
  exact isJson_numeral layout hmagnitude layout.tie x.isNegative

/-- **The numeral of a finite number is read.** The last three finite numbers are too near to the end
for the bound on the roundings, and are read one by one. -/
theorem float?_numeral {magnitude : Nat} (h : magnitude < infinityMagnitude) (negative : Bool) :
    (Json.float? (documentLayout.numeral negative (shortest .even magnitude))).isSome := by
  by_cases hend : magnitude + 4 ≤ infinityMagnitude
  · obtain ⟨c, cs, hdigits, hform⟩ := documentLayout.exists_setsOut negative (shortest .even magnitude)
    have hwhole : Nat.ofDigitChars 10 (documentLayout.numeral negative (shortest .even magnitude)).whole 0 <
        2 ^ 64 := by
      refine (ofDigitChars_lt (isJson_numeral documentLayout h .even negative).digits).trans_le ?_
      exact (Nat.pow_le_pow_right (by decide) (length_whole_le hform)).trans (by decide)
    refine float?_isSome hwhole ?_
    rw [hform.value_eq hdigits (by decide)]
    by_cases hzero : magnitude = 0
    · rw [shortest, if_pos hzero, Nat.cast_zero, zero_mul, scaleLimit]
      positivity
    · exact (shortest_spec .even hzero h).2.trans (half_place_le hend)
  · have hlast : ∀ i : Fin 3, (Json.float? (documentLayout.numeral negative
        (shortest .even (infinityMagnitude - 1 - i)))).isSome := by
      cases negative <;> decide +kernel
    have heq : infinityMagnitude - 1 - (infinityMagnitude - 1 - magnitude) = magnitude := by omega
    exact heq ▸ hlast ⟨infinityMagnitude - 1 - magnitude, by omega⟩

/-- A finite float comes back as a float. -/
theorem readsAs_float {x : Binary64} (h : x.isFinite) : ∃ y, ReadsAs toJson ofJson? (.float x) (.float y) := by
  have hmagnitude : x.magnitude < infinityMagnitude := by simpa [Binary64.isFinite] using h
  obtain ⟨c, cs, -, hform⟩ := documentLayout.exists_setsOut x.isNegative
    (shortest documentLayout.tie x.magnitude)
  obtain ⟨y, hy⟩ := Option.isSome_iff_exists.1 (float?_numeral hmagnitude x.isNegative)
  have hjson : toJson (.float x) = .number (documentLayout.numeralOf x) := by rw [toJson, if_pos h]
  refine ⟨y, ?_, ?_⟩
  · rw [hjson]
    exact .number (isJson_numeralOf documentLayout h)
  · rw [hjson, ofJson?, Layout.numeralOf, worth?_eq_float? hform, show documentLayout.tie = .even from rfl, hy]
    rfl

end TableQuery.Value
