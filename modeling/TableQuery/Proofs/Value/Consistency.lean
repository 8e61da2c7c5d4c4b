import TableQuery.Proofs.Number.Exact
import TableQuery.Proofs.Table.Sorting

/-! When values are in a consistent order. The kinds are ranked, and within every kind but the numbers the
order is linear. An integer is compared with a float through the number nearest to it. Two integers can
have one nearest number, and then they are in no consistent order with that number. -/

namespace TableQuery

namespace Binary64

open Number

variable {m n : Int}

theorem totalKey_inj {x y : Binary64} : x.totalKey = y.totalKey ↔ x = y := by
  refine ⟨fun h => ?_, congrArg totalKey⟩
  have hx := x.bits.toNat_lt
  have hy := y.bits.toNat_lt
  have hbits : x.bits.toNat = y.bits.toNat := by
    simp only [totalKey, isNegative, magnitude, decide_eq_true_eq] at h
    split at h <;> split at h <;> omega
  exact congrArg mk (UInt64.toNat_inj.1 hbits)

/-- Rounding keeps the order of the integers. -/
theorem totalKey_ofInt_mono (hm : m.natAbs ≤ 2 ^ 64) (hn : n.natAbs ≤ 2 ^ 64) (h : m ≤ n) :
    (ofInt m).totalKey ≤ (ofInt n).totalKey := by
  have hkey : ∀ i : Int, i.natAbs ≤ 2 ^ 64 → (ofInt i).totalKey =
      if i < 0 then -(nearestMagnitude i.natAbs 1 : Int) - 1 else nearestMagnitude i.natAbs 1 := by
    intro i hi
    have hlt : nearestMagnitude i.natAbs 1 < 2 ^ 63 := (nearestMagnitude_word_lt hi).trans (by decide)
    simp only [totalKey, ofInt, isNegative_ofMagnitude hlt, magnitude_ofMagnitude hlt, decide_eq_true_eq]
  rw [hkey m hm, hkey n hn]
  split
  · split
    · have hmono := nearestMagnitude_word_mono (show n.natAbs ≤ m.natAbs by omega)
      omega
    · omega
  · rw [if_neg (by omega)]
    have hmono := nearestMagnitude_word_mono (show m.natAbs ≤ n.natAbs by omega)
    omega

end Binary64

/-- A linear order is transitive, and whatever stands between two ties ties with both. -/
theorem isLE_compare_trans {α : Type} [Ord α] [Std.TransOrd α] {a b c : α} (hab : (compare a b).isLE)
    (hbc : (compare b c).isLE) :
    (compare a c).isLE ∧ (compare a c = .eq → compare a b = .eq ∧ compare b c = .eq) := by
  refine ⟨Std.TransCmp.isLE_trans hab hbc, fun hac => ?_⟩
  have hca : (compare c a).isLE := by
    rw [Std.OrientedOrd.eq_swap (a := c), hac]
    rfl
  have hba : (compare b a).isLE := Std.TransCmp.isLE_trans hbc hca
  have hcb : (compare c b).isLE := Std.TransCmp.isLE_trans hca hab
  exact ⟨Std.OrientedCmp.isLE_antisymm hab hba, Std.OrientedCmp.isLE_antisymm hbc hcb⟩

namespace Value

/-- What a linear order with ties asks of three values: it leads from the first to the last over the one
between them, and if those two tie, all three do. -/
def Transits (u v w : Value) : Prop :=
  (u.sortCompare v).isLE → (v.sortCompare w).isLE →
    (u.sortCompare w).isLE ∧ (u.sortCompare w = .eq → u.sortCompare v = .eq ∧ v.sortCompare w = .eq)

/-- Among the values are two different integers with one nearest number, and that number. -/
def Clash (values : Set Value) : Prop :=
  ∃ m n : Int64, m ≠ n ∧ .int m ∈ values ∧ .int n ∈ values ∧
    Binary64.ofInt m.toInt = .ofInt n.toInt ∧ .float (.ofInt m.toInt) ∈ values

theorem sortCompare_of_rank_ne {v w : Value} (h : v.rank ≠ w.rank) :
    v.sortCompare w = compare v.rank w.rank := by
  cases v <;> cases w <;> first | rfl | exact absurd rfl h

theorem rank_le_of_isLE {v w : Value} (h : (v.sortCompare w).isLE) : v.rank ≤ w.rank := by
  by_contra hlt
  rw [sortCompare_of_rank_ne (by omega), Nat.isLE_compare] at h
  exact hlt h

/-! ### Numbers -/

/-- The place of a number among the floats. -/
def place (v : Value) : Int := v.toNumber.totalKey

inductive IsNumber : Value → Prop
  | int (n : Int64) : IsNumber (.int n)
  | float (x : Binary64) : IsNumber (.float x)

theorem isNumber_of_rank {v : Value} (h : v.rank = 2) : v.IsNumber := by
  cases v with
  | int n => exact .int n
  | float x => exact .float x
  | null | bool _ | text _ => cases h

section Numbers

variable {u v w : Value}

theorem place_le_of_isLE (hv : v.IsNumber) (hw : w.IsNumber) (h : (v.sortCompare w).isLE) :
    v.place ≤ w.place := by
  have hplaces : ∀ {i j : Int}, (compare i j).isLE → i ≤ j := Int.isLE_compare.1
  cases hv with
  | int m =>
      cases hw with
      | int n => exact Binary64.totalKey_ofInt_mono (natAbs_toInt_le m) (natAbs_toInt_le n) (hplaces h)
      | float y => exact hplaces h
  | float x => cases hw <;> exact hplaces h

theorem sortCompare_of_place_lt (hv : v.IsNumber) (hw : w.IsNumber) (h : v.place < w.place) :
    v.sortCompare w = .lt := by
  rw [← swap_sortCompare, Ordering.swap_eq_lt]
  by_contra hgt
  have hle : (w.sortCompare v).isLE := Ordering.isLE_iff_ne_gt.2 hgt
  exact absurd (place_le_of_isLE hw hv hle) (not_le.2 h)

/-- Numbers tie if they have one place, two different integers apart. -/
theorem sortCompare_of_place_eq (hv : v.IsNumber) (hw : w.IsNumber) (h : v.place = w.place)
    (hints : ∀ m n, v = .int m → w = .int n → m = n) : v.sortCompare w = .eq := by
  have hplaces : ∀ {i j : Int}, i = j → compare i j = .eq := Std.LawfulEqCmp.compare_eq_iff_eq.2
  cases hv with
  | int m =>
      cases hw with
      | int n => exact hplaces (congrArg Int64.toInt (hints m n rfl rfl))
      | float y => exact hplaces h
  | float x => cases hw <;> exact hplaces h

/-- Numbers without a clash are in a linear order. -/
theorem transits_of_isNumber (hu : u.IsNumber) (hv : v.IsNumber) (hw : w.IsNumber)
    (hclash : ¬ Clash {u, v, w}) : Transits u v w := by
  intro huv hvw
  have hfirst := place_le_of_isLE hu hv huv
  have hsecond := place_le_of_isLE hv hw hvw
  rcases (hfirst.trans hsecond).lt_or_eq with hlt | heq
  · rw [sortCompare_of_place_lt hu hw hlt]
    exact ⟨rfl, fun h => by cases h⟩
  by_cases hints : ∃ k m n, u = .int k ∧ v = .int m ∧ w = .int n
  · obtain ⟨k, m, n, rfl, rfl, rfl⟩ := hints
    exact isLE_compare_trans (a := k.toInt) huv hvw
  · -- One of them is a float, and so every integer among them is the same.
    have hplace : ∀ a ∈ ({u, v, w} : Set Value), a.place = u.place := by
      rintro a (rfl | rfl | rfl) <;> omega
    have hnumber : ∀ a ∈ ({u, v, w} : Set Value), a.IsNumber := by
      rintro a (rfl | rfl | rfl) <;> assumption
    obtain ⟨x, hx⟩ : ∃ x, Value.float x ∈ ({u, v, w} : Set Value) := by
      cases hu with
      | float x => exact ⟨x, Or.inl rfl⟩
      | int k =>
          cases hv with
          | float x => exact ⟨x, Or.inr (Or.inl rfl)⟩
          | int m =>
              cases hw with
              | float x => exact ⟨x, Or.inr (Or.inr rfl)⟩
              | int n => exact absurd ⟨k, m, n, rfl, rfl, rfl⟩ hints
    have hnearest : ∀ n, Value.int n ∈ ({u, v, w} : Set Value) → Binary64.ofInt n.toInt = x := fun n hn =>
      Binary64.totalKey_inj.1 ((hplace _ hn).trans (hplace _ hx).symm)
    have hone : ∀ m n, Value.int m ∈ ({u, v, w} : Set Value) → Value.int n ∈ ({u, v, w} : Set Value) →
        m = n := by
      intro m n hm hn
      by_contra hne
      refine hclash ⟨m, n, hne, hm, hn, (hnearest m hm).trans (hnearest n hn).symm, ?_⟩
      rwa [hnearest m hm]
    have htie : ∀ a ∈ ({u, v, w} : Set Value), ∀ b ∈ ({u, v, w} : Set Value), a.sortCompare b = .eq := by
      intro a ha b hb
      refine sortCompare_of_place_eq (hnumber a ha) (hnumber b hb) ((hplace a ha).trans (hplace b hb).symm) ?_
      rintro m n rfl rfl
      exact hone m n ha hb
    rw [htie u (by simp) v (by simp), htie v (by simp) w (by simp), htie u (by simp) w (by simp)]
    exact ⟨rfl, fun _ => ⟨rfl, rfl⟩⟩

end Numbers

/-! ### All kinds -/

theorem sortCompare_self (v : Value) : v.sortCompare v = .eq := by
  have hswap := swap_sortCompare v v
  cases h : v.sortCompare v with
  | eq => rfl
  | lt | gt =>
      rw [h] at hswap
      cases hswap

theorem transits_of_not_clash {u v w : Value} (hclash : ¬ Clash {u, v, w}) : Transits u v w := by
  intro huv hvw
  have hfirst := rank_le_of_isLE huv
  have hsecond := rank_le_of_isLE hvw
  rcases (hfirst.trans hsecond).lt_or_eq with hlt | heq
  · have hcompare : u.sortCompare w = .lt :=
      (sortCompare_of_rank_ne hlt.ne).trans (Nat.compare_eq_lt.2 hlt)
    rw [hcompare]
    exact ⟨rfl, fun h => by cases h⟩
  · have hv : v.rank = u.rank := by omega
    have hw : w.rank = u.rank := heq.symm
    cases u with
    | null =>
        cases v <;> cases hv
        cases w <;> cases hw
        exact ⟨rfl, fun _ => ⟨rfl, rfl⟩⟩
    | bool a =>
        cases v <;> cases hv
        cases w <;> cases hw
        exact isLE_compare_trans (a := a) huv hvw
    | int n =>
        exact transits_of_isNumber (.int n) (isNumber_of_rank hv) (isNumber_of_rank hw) hclash huv hvw
    | float x =>
        exact transits_of_isNumber (.float x) (isNumber_of_rank hv) (isNumber_of_rank hw) hclash huv hvw
    | text a =>
        cases v <;> cases hv
        cases w <;> cases hw
        exact isLE_compare_trans (a := a) huv hvw

/-- Two integers with one nearest number tie with it, and one of them is above the other. -/
theorem Clash.exists_not_isLE {values : Set Value} (h : Clash values) :
    ∃ u ∈ values, ∃ v ∈ values, ∃ w ∈ values,
      (u.sortCompare v).isLE ∧ (v.sortCompare w).isLE ∧ ¬ (u.sortCompare w).isLE := by
  obtain ⟨m, n, hne, hm, hn, hnearest, hfloat⟩ := h
  have hties : ∀ k : Int64, Binary64.ofInt k.toInt = .ofInt m.toInt →
      (Value.int k).sortCompare (.float (.ofInt m.toInt)) = .eq := fun k hk =>
    sortCompare_of_place_eq (.int k) (.float _) (congrArg Binary64.totalKey hk) fun _ _ _ h => by cases h
  have hback : ∀ k : Int64, Binary64.ofInt k.toInt = .ofInt m.toInt →
      (Value.float (.ofInt m.toInt)).sortCompare (.int k) = .eq := fun k hk => by
    rw [← swap_sortCompare, hties k hk]
    rfl
  have hgt : ∀ {i j : Int64}, j.toInt < i.toInt → ¬ ((Value.int i).sortCompare (.int j)).isLE :=
    fun hlt hle => absurd (Int.isLE_compare.1 hle) (not_le.2 hlt)
  rcases lt_or_gt_of_ne (fun heq => hne (Int64.toInt_inj.1 heq)) with hlt | hlt
  · refine ⟨_, hn, _, hfloat, _, hm, ?_, ?_, hgt hlt⟩
    · rw [hties n hnearest.symm]
      rfl
    · rw [hback m rfl]
      rfl
  · refine ⟨_, hm, _, hfloat, _, hn, ?_, ?_, hgt hlt⟩
    · rw [hties m rfl]
      rfl
    · rw [hback n hnearest.symm]
      rfl

theorem Clash.mono {values values' : Set Value} (h : Clash values) (hsub : values ⊆ values') :
    Clash values' := by
  obtain ⟨m, n, hne, hm, hn, hnearest, hfloat⟩ := h
  exact ⟨m, n, hne, hsub hm, hsub hn, hnearest, hsub hfloat⟩

/-- Integers that are numbers as they are never clash. -/
theorem Clash.exists_large {values : Set Value} (h : Clash values) :
    ∃ n : Int64, .int n ∈ values ∧ 2 ^ 53 ≤ n.toInt.natAbs := by
  obtain ⟨m, n, hne, hm, -, hnearest, -⟩ := h
  refine ⟨m, hm, ?_⟩
  by_contra hlt
  exact hne ((ofInt_eq_iff_of_lt (Or.inl (not_le.1 hlt))).1 hnearest)

/-- The values in a column can be sorted exactly if there is no clash among them. -/
theorem consistent_iff {vs : List Value} : Consistent vs ↔ ¬ Clash {v | v ∈ vs} := by
  constructor
  · intro hconsistent hclash
    obtain ⟨u, hu, v, hv, w, hw, huv, hvw, huw⟩ := hclash.exists_not_isLE
    exact huw (hconsistent u hu v hv w hw huv hvw)
  · intro hclash u hu v hv w hw huv hvw
    refine (transits_of_not_clash (fun h => hclash (h.mono ?_)) huv hvw).1
    rintro a (rfl | rfl | rfl) <;> assumption

/-- **The order of sorting is linear, with ties, on the values among which no two different integers meet
the one number that is nearest to both.** Every value ties with itself and the order of two values is the
reverse of the other way round. -/
theorem sorts_linearly_iff (values : Set Value) :
    (∀ v : Value, v.sortCompare v = .eq) ∧
    (∀ v w : Value, w.sortCompare v = (v.sortCompare w).swap) ∧
    ((∀ u ∈ values, ∀ v ∈ values, ∀ w ∈ values, Transits u v w) ↔ ¬ Clash values) ∧
    (Clash values → ∃ n : Int64, .int n ∈ values ∧ 2 ^ 53 ≤ n.toInt.natAbs) := by
  refine ⟨sortCompare_self, fun v w => (swap_sortCompare v w).symm,
    ⟨fun htransits hclash => ?_, fun hclash u hu v hv w hw => ?_⟩, Clash.exists_large⟩
  · obtain ⟨u, hu, v, hv, w, hw, huv, hvw, huw⟩ := hclash.exists_not_isLE
    exact huw (htransits u hu v hv w hw huv hvw).1
  · refine transits_of_not_clash fun h => hclash (h.mono ?_)
    rintro a (rfl | rfl | rfl) <;> assumption

/-- Two integers that tie with the float between them, though one is above the other. -/
theorem integers_tie_with_neighbour :
    let above : Value := .int 9007199254740993
    let below : Value := .int 9007199254740992
    let between : Value := .float ⟨0x4340000000000000⟩
    above.sortCompare between = .eq ∧ between.sortCompare below = .eq ∧ above.sortCompare below = .gt ∧
      ¬ Transits above between below := by
  intro above below between
  have hfirst : above.sortCompare between = .eq := by decide +kernel
  have hsecond : between.sortCompare below = .eq := by decide +kernel
  have hthird : above.sortCompare below = .gt := by decide +kernel
  refine ⟨hfirst, hsecond, hthird, fun h => ?_⟩
  have hle := (h (by rw [hfirst]; rfl) (by rw [hsecond]; rfl)).1
  rw [hthird] at hle
  cases hle

end Value
end TableQuery
