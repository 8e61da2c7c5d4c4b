import TableQuery.Value.Document
import TableQuery.Proofs.Json.Integer
import TableQuery.Proofs.Number.Rounding

/-! Layouts keep the decimal. However its digits are set out, the numeral has the form of a document's
and spells the number of the decimal. -/

namespace TableQuery.Number

variable {layout : Layout} {negative : Bool} {d : Decimal} {c : Char} {cs : List Char} {n : Numeral}

theorem isJson_exponentOf (layout : Layout) (e : Int) : (exponentOf layout e).IsJson :=
  ⟨Nat.toDigits_ne_nil, Text.isDigit_toDigits _⟩

theorem value_exponentOf (h : layout.positiveSign ≠ .minus) (e : Int) : (exponentOf layout e).value = e := by
  have hdigits : Nat.ofDigitChars 10 (Nat.toDigits 10 e.natAbs) 0 = e.natAbs := Nat.ofDigitChars_ten_toDigits
  rw [Exponent.value, exponentOf]
  simp only [hdigits]
  by_cases he : e < 0
  · rw [if_pos he, if_pos rfl]
    omega
  · rw [if_neg he, if_neg h]
    omega

/-- The ways in which the digits `c :: cs` of a decimal are set out. -/
inductive Layout.SetsOut (layout : Layout) (negative : Bool) (d : Decimal) (c : Char) (cs : List Char) :
    Numeral → Prop
  | scientific : SetsOut layout negative d c cs
      ⟨negative, [c], if cs = [] then none else some cs, some (exponentOf layout (d.exponent + cs.length))⟩
  | whole (hplain : layout.scientific (d.exponent + cs.length) = false) (hexponent : 0 ≤ d.exponent) :
      SetsOut layout negative d c cs
        ⟨negative, c :: cs ++ List.replicate d.exponent.toNat '0', if layout.point then some ['0'] else none,
          none⟩
  | mixed (ds ds' : List Char) (hplain : layout.scientific (d.exponent + cs.length) = false)
      (hcs : cs = ds ++ ds') (hexponent : d.exponent = -ds'.length) (hne : ds' ≠ []) :
      SetsOut layout negative d c cs ⟨negative, c :: ds, some ds', none⟩
  | small (zeros : Nat) (hexponent : d.exponent = -(zeros + (c :: cs).length : Nat)) :
      SetsOut layout negative d c cs ⟨negative, ['0'], some (List.replicate zeros '0' ++ c :: cs), none⟩

/-- A decimal has a digit, and its digits are set out in one of the ways. -/
theorem Layout.exists_setsOut (layout : Layout) (negative : Bool) (d : Decimal) : ∃ c cs,
    Nat.toDigits 10 d.digits = c :: cs ∧ layout.SetsOut negative d c cs (layout.numeral negative d) := by
  obtain ⟨c, cs, hdigits⟩ := List.exists_cons_of_ne_nil
    (Nat.toDigits_ne_nil : Nat.toDigits 10 d.digits ≠ [])
  refine ⟨c, cs, hdigits, ?_⟩
  unfold Layout.numeral
  extract_lets digits e
  have he : e = d.exponent + cs.length := by
    simp only [e, digits, hdigits, List.length_cons]
    push_cast
    ring
  simp only [digits, hdigits, he]
  split
  · have hlength : (c :: cs).length = 1 ↔ cs = [] := by simp
    simp only [hlength]
    exact .scientific
  next hplain =>
    rw [Bool.not_eq_true] at hplain
    split
    next hexponent => exact .whole hplain hexponent
    split
    next hexponent hfirst =>
      have htake : (d.exponent + cs.length).toNat < cs.length := by omega
      refine .mixed _ _ hplain (List.take_append_drop (d.exponent + cs.length).toNat cs).symm ?_ ?_
      · rw [List.length_drop, List.length_cons]
        omega
      · rw [← List.length_pos_iff, List.length_drop, List.length_cons]
        omega
    next hexponent hfirst =>
      refine .small _ ?_
      rw [List.length_cons]
      omega

/-- Zero is set out without further zeros. -/
theorem Layout.SetsOut.isJson (h : layout.SetsOut negative d c cs n)
    (hdigits : Nat.toDigits 10 d.digits = c :: cs) (hzero : d.digits = 0 → d.exponent = 0) : n.IsJson := by
  have hall : ∀ x ∈ c :: cs, x.isDigit := hdigits ▸ Text.isDigit_toDigits _
  have hzeros : ∀ (m : Nat), ∀ x ∈ List.replicate m '0', x.isDigit := fun m x hx => by
    rw [List.eq_of_mem_replicate hx]
    rfl
  have hfirst : c = '0' → d.exponent = 0 ∧ cs = [] := by
    rintro rfl
    have hnum : d.digits = 0 := eq_zero_of_head?_toDigits (by rw [hdigits]; rfl)
    rw [hnum] at hdigits
    exact ⟨hzero hnum, (List.cons.inj hdigits).2.symm⟩
  cases h with
  | scientific =>
      refine ⟨List.cons_ne_nil _ _, fun x hx => ?_, fun hhead => ?_, fun ds hds => ?_, ?_⟩
      · exact hall x (List.mem_cons.2 (Or.inl (List.mem_singleton.1 hx)))
      · rw [Option.some.inj hhead]
      · split at hds
        · cases hds
        next hne =>
          cases hds
          exact ⟨hne, fun x hx => hall x (List.mem_cons_of_mem _ hx)⟩
      · rintro x ⟨⟩
        exact isJson_exponentOf layout _
  | whole hplain hexponent =>
      refine ⟨List.cons_ne_nil _ _, List.forall_mem_append.2 ⟨hall, hzeros _⟩, fun hhead => ?_,
        fun ds hds => ?_, ?_⟩
      · obtain ⟨hnone, rfl⟩ := hfirst (Option.some.inj hhead)
        rw [Option.some.inj hhead, hnone]
        rfl
      · split at hds
        · cases hds
          exact ⟨List.cons_ne_nil _ _, hzeros 1⟩
        · cases hds
      · rintro x ⟨⟩
  | mixed ds ds' hplain hcs hexponent hne =>
      subst hcs
      refine ⟨List.cons_ne_nil _ _, fun x hx => ?_, fun hhead => ?_, ?_, ?_⟩
      · exact hall x (List.mem_append_left ds' hx)
      · exact absurd (hfirst (Option.some.inj hhead)).2 (by simp [hne])
      · rintro x ⟨⟩
        exact ⟨hne, fun x hx => hall x (List.mem_append_right (c :: ds) hx)⟩
      · rintro x ⟨⟩
  | small zeros hexponent =>
      refine ⟨List.cons_ne_nil _ _, hzeros 1, fun _ => rfl, ?_, ?_⟩
      · rintro x ⟨⟩
        exact ⟨by simp, List.forall_mem_append.2 ⟨hzeros zeros, hall⟩⟩
      · rintro x ⟨⟩

/-- The numeral spells the number of the decimal. -/
theorem Layout.SetsOut.value_eq (h : layout.SetsOut negative d c cs n)
    (hdigits : Nat.toDigits 10 d.digits = c :: cs) (hsign : layout.positiveSign ≠ .minus) :
    (n.coefficient : ℚ) * 10 ^ n.scale = d.digits * 10 ^ d.exponent := by
  have hnum : Nat.ofDigitChars 10 (c :: cs) 0 = d.digits := hdigits ▸ Nat.ofDigitChars_ten_toDigits
  cases h with
  | scientific =>
      have hfraction : (if cs = [] then none else some cs).getD [] = cs := by
        split
        next hnil => exact hnil.symm
        · rfl
      have hscale : (exponentOf layout (d.exponent + cs.length)).value - cs.length = d.exponent := by
        rw [value_exponentOf hsign, add_sub_cancel_right]
      simp [Numeral.coefficient, Numeral.scale, Numeral.exponentValue, Numeral.fractionDigits, hfraction, hscale,
        hnum]
  | whole hplain hexponent =>
      have hpadded : Nat.ofDigitChars 10 (c :: cs ++ List.replicate d.exponent.toNat '0') 0 =
          10 ^ d.exponent.toNat * d.digits := by
        rw [Nat.ofDigitChars_append, Nat.ofDigitChars_replicate_zero, hnum]
      have hpower : ((10 ^ d.exponent.toNat : Nat) : ℚ) = 10 ^ d.exponent := natCast_pow_toNat 10 hexponent
      cases layout.point with
      | true =>
          have htenth : Nat.ofDigitChars 10 (c :: cs ++ List.replicate d.exponent.toNat '0' ++ ['0']) 0 =
              10 * (10 ^ d.exponent.toNat * d.digits) := by
            rw [Nat.ofDigitChars_append, hpadded, Nat.ofDigitChars_cons, Nat.ofDigitChars_nil]
            rfl
          simp only [Numeral.coefficient, Numeral.scale, Numeral.exponentValue, Numeral.fractionDigits,
            if_true, Option.getD_some, Option.map_none, Option.getD_none, htenth, Nat.cast_mul, hpower]
          norm_num
          ring
      | false =>
          simp only [Numeral.coefficient, Numeral.scale, Numeral.exponentValue, Numeral.fractionDigits,
            Bool.false_eq_true, if_false, Option.map_none, Option.getD_none, List.append_nil, hpadded,
            Nat.cast_mul, hpower]
          norm_num
          ring
  | mixed ds ds' hplain hcs hexponent hne =>
      subst hcs
      simp [Numeral.coefficient, Numeral.scale, Numeral.exponentValue, Numeral.fractionDigits, hnum, hexponent]
  | small zeros hexponent =>
      have hpadded : Nat.ofDigitChars 10 ('0' :: (List.replicate zeros '0' ++ c :: cs)) 0 = d.digits := by
        rw [← List.cons_append, ← List.replicate_succ, Nat.ofDigitChars_append, Nat.ofDigitChars_replicate_zero,
          Nat.mul_zero, hnum]
      simp [Numeral.coefficient, Numeral.scale, Numeral.exponentValue, Numeral.fractionDigits, hpadded,
        hexponent]

end TableQuery.Number
