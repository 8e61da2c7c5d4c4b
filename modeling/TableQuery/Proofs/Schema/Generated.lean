import TableQuery.Proofs.Schema.Completion

/-! The fields that a table fills itself. A number or a timestamp is greater than every one given out
before, as long as the counters stay below the greatest integer, and the last such behavior of a field
decides what a completed row holds there. -/

namespace TableQuery

/-- What the new value of a field is taken from. -/
inductive Generator
  | counter | clock
  deriving DecidableEq

/-- The last value that has been given out. -/
def Counters.last (c : Counters) : Generator → Int
  | .counter => c.autoInc.toNat
  | .clock => c.lastTimestamp.toInt

/-- The next value that is given out fits into a field. -/
def Counters.Fits (c : Counters) (g : Generator) : Prop := c.last g < Int64.maxValue.toInt

instance (c : Counters) (g : Generator) : Decidable (c.Fits g) :=
  inferInstanceAs (Decidable (c.last g < Int64.maxValue.toInt))

def Behavior.generator? : Behavior → Option Generator
  | .autoIncrement => some .counter
  | .timestamp => some .clock
  | .default _ => none

/-- The last of the behaviors to overwrite the field, if there is one. -/
def FieldDef.generator? (f : FieldDef) : Option Generator :=
  (f.behaviors.filterMap Behavior.generator?).getLast?

theorem toInt_number {n : UInt64} (h : (n.toNat : Int) < Int64.maxValue.toInt) :
    (n + 1).toInt64.toInt = (n + 1).toNat ∧ (n.toNat : Int) < (n + 1).toNat := by
  have hmax : Int64.maxValue.toInt = 2 ^ 63 - 1 := rfl
  have hnat : (n + 1).toNat = n.toNat + 1 := by
    rw [UInt64.toNat_add, UInt64.toNat_one]
    omega
  refine ⟨?_, by omega⟩
  rw [Int64.toInt, UInt64.toBitVec_toInt64, BitVec.toInt_eq_toNat_of_lt]
  · rw [UInt64.toNat_toBitVec]
  · rw [UInt64.toNat_toBitVec, hnat]
    omega

theorem lt_toInt_max (now : Int64) {t : Int64} (h : t.toInt < Int64.maxValue.toInt) :
    t.toInt < (max now (t + 1)).toInt := by
  have hmax : Int64.maxValue.toInt = 2 ^ 63 - 1 := rfl
  have hmin := Int64.le_toInt t
  have hsucc : (t + 1).toInt = t.toInt + 1 := by
    rw [Int64.toInt_add, Int64.toInt_one, Int.bmod_eq_of_le]
    · omega
    · omega
  show _ < (if now ≤ t + 1 then t + 1 else now).toInt
  split
  next => omega
  next hle =>
    rw [Int64.le_iff_toInt_le] at hle
    omega

namespace Draft

variable {d : Draft} {a : String × Behavior} {g : Generator} {k : String}

/-- A behavior that generates puts a new value into its field. -/
theorem exists_act_of_generator (ha : a.2.generator? = some g) (hfits : d.counters.Fits g) :
    ∃ n : Int64, (d.act a).row.get? a.1 = some (.int n) ∧ d.counters.last g < n.toInt ∧
      n.toInt = (d.act a).counters.last g := by
  obtain ⟨field, b⟩ := a
  cases b with
  | autoIncrement =>
      cases ha
      obtain ⟨hn, hlt⟩ := toInt_number hfits
      exact ⟨_, Dict.get?_insert_self _ _ _, hn ▸ hlt, hn⟩
  | timestamp =>
      cases ha
      exact ⟨_, Dict.get?_insert_self _ _ _, lt_toInt_max _ hfits, rfl⟩
  | default v => cases ha

theorem last_act_of_ne (ha : a.2.generator? ≠ some g) : (d.act a).counters.last g = d.counters.last g := by
  obtain ⟨field, b⟩ := a
  cases b with
  | autoIncrement =>
      cases g with
      | counter => exact absurd rfl ha
      | clock => rfl
  | timestamp =>
      cases g with
      | counter => rfl
      | clock => exact absurd rfl ha
  | default v => rfl

theorem last_le_act (hfits : d.counters.Fits g) : d.counters.last g ≤ (d.act a).counters.last g := by
  by_cases ha : a.2.generator? = some g
  · obtain ⟨n, -, hlt, heq⟩ := exists_act_of_generator ha hfits
    omega
  · exact (last_act_of_ne ha).ge

theorem get?_act_of_ne (h : k ≠ a.1) : (d.act a).row.get? k = d.row.get? k := by
  obtain ⟨field, b⟩ := a
  cases b with
  | autoIncrement => exact Dict.get?_insert_of_ne h _ _
  | timestamp => exact Dict.get?_insert_of_ne h _ _
  | default v => exact Dict.get?_insertNew_of_ne h _ _

/-- A default leaves a value that is there. -/
theorem get?_act_of_some {v : Value} (hk : d.row.get? k = some v)
    (ha : a.1 = k → a.2.generator? = none) : (d.act a).row.get? k = some v := by
  by_cases h : k = a.1
  · obtain ⟨field, b⟩ := a
    cases b with
    | autoIncrement => cases ha h.symm
    | timestamp => cases ha h.symm
    | default w =>
        have hcontains : d.row.contains field := by
          rw [Dict.contains, ← show k = field from h, hk]
          rfl
        show (d.row.insertNew field w).get? k = some v
        rw [Dict.insertNew_of_contains hcontains, hk]
  · rw [get?_act_of_ne h, hk]

/-- The counters before and after every one of the behaviors. -/
def countersAlong (d : Draft) (acts : List (String × Behavior)) : List Counters :=
  (acts.scanl act d).map Draft.counters

variable {acts later : List (String × Behavior)}

theorem fits_cons (h : ∀ c ∈ d.countersAlong (a :: acts), c.Fits g) :
    d.counters.Fits g ∧ ∀ c ∈ (d.act a).countersAlong acts, c.Fits g := by
  rw [countersAlong, List.scanl_cons, List.map_cons] at h
  exact List.forall_mem_cons.1 h

theorem last_le_foldl_act (h : ∀ c ∈ d.countersAlong acts, c.Fits g) :
    d.counters.last g ≤ (acts.foldl act d).counters.last g := by
  induction acts generalizing d with
  | nil => exact le_rfl
  | cons a acts ih =>
      obtain ⟨hd, hacts⟩ := fits_cons h
      exact (last_le_act hd).trans (ih hacts)

theorem get?_foldl_act_of_some {v : Value} (hk : d.row.get? k = some v)
    (hacts : ∀ a ∈ acts, a.1 = k → a.2.generator? = none) :
    (acts.foldl act d).row.get? k = some v := by
  induction acts generalizing d with
  | nil => exact hk
  | cons a acts ih =>
      obtain ⟨ha, hacts⟩ := List.forall_mem_cons.1 hacts
      exact ih (get?_act_of_some hk ha) hacts

/-- The last behavior to overwrite a field decides what it holds: a new value. -/
theorem exists_foldl_act_of_generator (ha : a.2.generator? = some g)
    (hlater : ∀ b ∈ later, b.1 = a.1 → b.2.generator? = none)
    (hfits : ∀ c ∈ d.countersAlong (acts ++ a :: later), c.Fits g) :
    ∃ n : Int64, ((acts ++ a :: later).foldl act d).row.get? a.1 = some (.int n) ∧
      d.counters.last g < n.toInt ∧
      n.toInt ≤ ((acts ++ a :: later).foldl act d).counters.last g := by
  induction acts generalizing d with
  | nil =>
      obtain ⟨hd, hrest⟩ := fits_cons hfits
      obtain ⟨n, hn, hlt, heq⟩ := exists_act_of_generator ha hd
      exact ⟨n, get?_foldl_act_of_some (d := d.act a) hn hlater, hlt,
        heq.trans_le (last_le_foldl_act hrest)⟩
  | cons b acts ih =>
      obtain ⟨hd, hrest⟩ := fits_cons hfits
      obtain ⟨n, hn, hlt, hle⟩ := ih hrest
      exact ⟨n, hn, (last_le_act hd).trans_lt hlt, hle⟩

end Draft

/-- Where the last element with an image stands. -/
theorem exists_of_getLast?_filterMap {α β : Type} {f : α → Option β} {b : β} {as : List α}
    (h : (as.filterMap f).getLast? = some b) :
    ∃ before a after, as = before ++ a :: after ∧ f a = some b ∧ ∀ a' ∈ after, f a' = none := by
  induction as using List.reverseRecOn with
  | nil => cases h
  | append_singleton as a ih =>
      rw [List.filterMap_append] at h
      cases ha : f a with
      | some b' =>
          rw [List.filterMap_cons_some ha, List.filterMap_nil, List.getLast?_concat] at h
          exact ⟨as, a, [], rfl, ha.trans h, List.forall_mem_nil _⟩
      | none =>
          rw [List.filterMap_cons_none ha, List.filterMap_nil, List.append_nil] at h
          obtain ⟨before, a', after, rfl, ha', hafter⟩ := ih h
          refine ⟨before, a', after ++ [a], by rw [List.append_assoc, List.cons_append], ha', ?_⟩
          exact List.forall_mem_append.2 ⟨hafter, List.forall_mem_singleton.2 ha⟩

namespace Schema

variable {s : Schema} {f : FieldDef} {g : Generator}

/-- What acts on a row before a field and after it leaves the field alone. -/
theorem name_ne_of_mem_acts {earlier later : List FieldDef} (hs : (s.fields.map FieldDef.name).Nodup)
    (hfields : s.fields = earlier ++ f :: later) :
    (∀ a ∈ earlier.flatMap FieldDef.acts, f.name ≠ a.1) ∧ ∀ a ∈ later.flatMap FieldDef.acts, f.name ≠ a.1 := by
  have hnames : ∀ {fields : List FieldDef}, (∀ f' ∈ fields, f'.name ≠ f.name) →
      ∀ a ∈ fields.flatMap FieldDef.acts, f.name ≠ a.1 := by
    intro fields hfields a ha
    obtain ⟨f', hf', ha⟩ := List.mem_flatMap.1 ha
    obtain ⟨b, -, rfl⟩ := List.mem_map.1 ha
    exact (hfields f' hf').symm
  rw [hfields, List.map_append, List.map_cons] at hs
  obtain ⟨-, hrest, hdisjoint⟩ := List.nodup_append.1 hs
  refine ⟨hnames fun f' hf' => ?_, hnames fun f' hf' heq => ?_⟩
  · exact hdisjoint _ (List.mem_map_of_mem hf') _ List.mem_cons_self
  · exact (List.nodup_cons.1 hrest).1 (heq ▸ List.mem_map_of_mem hf')

/-- What is done to a row, at one behavior of one field. -/
theorem acts_eq {earlier later : List FieldDef} {before after : List Behavior} {b : Behavior}
    (hfields : s.fields = earlier ++ f :: later) (hbehaviors : f.behaviors = before ++ b :: after) :
    s.acts = (earlier.flatMap FieldDef.acts ++ before.map (Prod.mk f.name)) ++
      (f.name, b) :: (after.map (Prod.mk f.name) ++ later.flatMap FieldDef.acts) := by
  have hacting : f.acting = before ++ b :: after := by
    rw [← hbehaviors]
    refine FieldDef.acting_of_ne_nil ?_
    rw [hbehaviors]
    exact List.append_ne_nil_of_right_ne_nil _ (List.cons_ne_nil _ _)
  rw [acts, hfields, List.flatMap_append, List.flatMap_cons, FieldDef.acts, hacting, List.map_append,
    List.map_cons, List.append_assoc, List.append_assoc, List.cons_append]

/-- The last behavior to overwrite a field is the last of all to do so. -/
theorem generator?_of_mem_acts_after {earlier later : List FieldDef} {after : List Behavior}
    (hs : (s.fields.map FieldDef.name).Nodup) (hfields : s.fields = earlier ++ f :: later)
    (hafter : ∀ b ∈ after, b.generator? = none) {a : String × Behavior}
    (ha : a ∈ after.map (Prod.mk f.name) ++ later.flatMap FieldDef.acts) (hname : a.1 = f.name) :
    a.2.generator? = none := by
  rcases List.mem_append.1 ha with ha | ha
  · obtain ⟨b, hb, rfl⟩ := List.mem_map.1 ha
    exact hafter b hb
  · exact absurd hname.symm ((name_ne_of_mem_acts hs hfields).2 a ha)

/-- What acts on a row has a last behavior that overwrites the field. -/
theorem exists_acts_of_generator (hs : (s.fields.map FieldDef.name).Nodup) (hf : f ∈ s.fields)
    (hg : f.generator? = some g) :
    ∃ acts b later, s.acts = acts ++ (f.name, b) :: later ∧ b.generator? = some g ∧
      ∀ a ∈ later, a.1 = f.name → a.2.generator? = none := by
  obtain ⟨before, b, after, hbehaviors, hb, hafter⟩ := exists_of_getLast?_filterMap hg
  obtain ⟨earlier, later, hfields⟩ := List.append_of_mem hf
  exact ⟨_, b, _, acts_eq hfields hbehaviors, hb, fun a => generator?_of_mem_acts_after hs hfields hafter⟩

theorem isEmpty_eq_false_of_mem (hf : f ∈ s.fields) : s.isEmpty = false := by
  rw [isEmpty, List.isEmpty_eq_false_iff]
  exact List.ne_nil_of_mem hf

theorem contains_of_mem (hf : f ∈ s.fields) : s.contains f.name :=
  List.any_eq_true.2 ⟨f, hf, beq_self_eq_true _⟩

/-- **A completed row holds a new value in a field that the table fills itself.** -/
theorem exists_complete_of_generator (hs : (s.fields.map FieldDef.name).Nodup) (hf : f ∈ s.fields)
    (hg : f.generator? = some g) {d : Draft} (hfits : ∀ c ∈ d.countersAlong s.acts, c.Fits g) :
    ∃ n : Int64, (s.complete d).row.get? f.name = some (.int n) ∧ d.counters.last g < n.toInt ∧
      n.toInt ≤ (s.complete d).counters.last g := by
  obtain ⟨acts, b, later, hacts, hb, hlater⟩ := exists_acts_of_generator hs hf hg
  rw [hacts] at hfits
  rw [complete_eq (isEmpty_eq_false_of_mem hf), Dict.get?_filterKeys, if_pos (contains_of_mem hf), hacts]
  exact Draft.exists_foldl_act_of_generator (a := (f.name, b)) hb hlater hfits

end Schema
end TableQuery
