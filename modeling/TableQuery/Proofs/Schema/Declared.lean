import TableQuery.Table
import TableQuery.Proofs.Schema.Generated

/-! The completed row in closed form. A field that the table fills itself holds the value which its last
such behavior drew, and every other field what it was given, its first default or null. The values are
drawn one after the other in the order of declaration, over all fields. -/

namespace TableQuery

/-- How often the behaviors draw from a generator. -/
def Generator.draws (g : Generator) (bs : List Behavior) : Nat := bs.countP fun b => b.generator? = some g

theorem Generator.draws_append (g : Generator) (bs bs' : List Behavior) :
    g.draws (bs ++ bs') = g.draws bs + g.draws bs' := List.countP_append

theorem Generator.draws_cons (g : Generator) (b : Behavior) (bs : List Behavior) :
    g.draws (b :: bs) = g.draws bs + if b.generator? = some g then 1 else 0 := by
  rw [draws, List.countP_cons]
  simp only [decide_eq_true_eq]
  rfl

def Behavior.default? : Behavior → Option Value
  | .default v => some v
  | _ => none

/-- The timestamps that are given out after the last one: a reading of the clock each, unless that is not
later than the timestamp before. -/
def Clock.stamps (clock : Clock) (last : Int64) : Nat → Int64
  | 0 => last
  | n + 1 => max (clock.reading n) (clock.stamps last n + 1)

/-- The values that a generator gives out from here on, by their number; the one before the first is the
last that has been given out. -/
def Counters.drawn (c : Counters) (clock : Clock) : Generator → Nat → Int64
  | .counter, n => (c.autoInc + UInt64.ofNat n).toInt64
  | .clock, n => clock.stamps c.lastTimestamp n

namespace Counters

variable (c : Counters) (clock : Clock)

/-- The next number is larger by one, in the words of a field. -/
theorem drawn_counter_succ (n : Nat) :
    c.drawn clock .counter (n + 1) = c.drawn clock .counter n + 1 := by
  rw [drawn, drawn, UInt64.ofNat_add, ← UInt64.add_assoc, UInt64.toInt64_add]
  rfl

/-- A number that fits into a field is the count it stands for. -/
theorem toInt_drawn_counter {n : Nat} (h : c.autoInc.toNat + n < 2 ^ 63) :
    (c.drawn clock .counter n).toInt = c.autoInc.toNat + n := by
  have hword : c.autoInc + UInt64.ofNat n = UInt64.ofNat (c.autoInc.toNat + n) := by
    rw [UInt64.ofNat_add, UInt64.ofNat_toNat]
  rw [drawn, hword, UInt64.toInt64_ofNat', Int64.toInt_ofNat_of_lt h, Nat.cast_add]

/-- A timestamp is later than the one before, as long as there is a later one. -/
theorem drawn_clock_lt (n : Nat) (h : c.drawn clock .clock n ≠ Int64.maxValue) :
    c.drawn clock .clock n < c.drawn clock .clock (n + 1) := by
  rw [Int64.lt_iff_toInt_lt, drawn, drawn, Clock.stamps]
  refine lt_toInt_max _ (lt_of_le_of_ne (Int64.toInt_le _) fun heq => h (Int64.toInt_inj.1 heq))

end Counters

/-! ### Behaviors one after the other -/

namespace Draft

variable {d : Draft} {a : String × Behavior} {g : Generator} {k : String} {acts : List (String × Behavior)}

/-- What the row is given next. -/
def drawn (d : Draft) (g : Generator) (n : Nat) : Int64 := d.counters.drawn d.clock g n

theorem drawn_act_of_ne (ha : a.2.generator? ≠ some g) (n : Nat) : (d.act a).drawn g n = d.drawn g n := by
  obtain ⟨field, b⟩ := a
  cases b with
  | autoIncrement =>
      cases g with
      | counter => exact absurd rfl ha
      | clock => rfl
  | timestamp =>
      cases g with
      | counter => rfl
      | clock => exact absurd rfl ha
  | default v => rfl

/-- A value that has been drawn moves those behind it up by one. -/
theorem drawn_act (ha : a.2.generator? = some g) (n : Nat) : (d.act a).drawn g n = d.drawn g (n + 1) := by
  obtain ⟨field, b⟩ := a
  cases b with
  | autoIncrement =>
      cases ha
      show (d.counters.autoInc + 1 + UInt64.ofNat n).toInt64 =
        (d.counters.autoInc + UInt64.ofNat (n + 1)).toInt64
      rw [Nat.add_comm, UInt64.ofNat_add, ← UInt64.add_assoc]
      rfl
  | timestamp =>
      cases ha
      -- The readings have moved on by the one that was taken.
      induction n with
      | zero => rfl
      | succ n ih =>
          show max (d.clock.reading (n + 1)) ((d.act (field, .timestamp)).drawn .clock n + 1) =
            max (d.clock.reading (n + 1)) (d.drawn .clock (n + 1) + 1)
          rw [ih]
  | default v => cases ha

theorem drawn_foldl_act (d : Draft) (acts : List (String × Behavior)) (g : Generator) (n : Nat) :
    (acts.foldl act d).drawn g n = d.drawn g (n + g.draws (acts.map Prod.snd)) := by
  induction acts generalizing d with
  | nil => rfl
  | cons a acts ih =>
      rw [List.foldl_cons, ih, List.map_cons, g.draws_cons]
      by_cases ha : a.2.generator? = some g
      · rw [drawn_act ha, if_pos ha, Nat.add_assoc]
      · rw [drawn_act_of_ne ha, if_neg ha, Nat.add_zero]

/-- The number before the first one that is drawn is the counter. -/
theorem toUInt64_drawn_zero (d : Draft) : (d.drawn .counter 0).toUInt64 = d.counters.autoInc := by
  rw [drawn, Counters.drawn, UInt64.toUInt64_toInt64]
  exact UInt64.add_zero _

/-- A behavior that generates puts the first value that is drawn into its field. -/
theorem get?_act_of_generator (ha : a.2.generator? = some g) :
    (d.act a).row.get? a.1 = some (.int (d.drawn g 1)) := by
  obtain ⟨field, b⟩ := a
  cases b with
  | autoIncrement | timestamp =>
      cases ha
      exact Dict.get?_insert_self _ _ _
  | default v => cases ha

theorem get?_foldl_act_of_ne (h : ∀ a ∈ acts, k ≠ a.1) : (acts.foldl act d).row.get? k = d.row.get? k := by
  induction acts generalizing d with
  | nil => rfl
  | cons a acts ih =>
      obtain ⟨ha, hacts⟩ := List.forall_mem_cons.1 h
      rw [List.foldl_cons, ih hacts, get?_act_of_ne ha]

/-- The last behavior to overwrite a field decides what it holds: the value which that behavior drew. -/
theorem get?_foldl_act_of_generator {later : List (String × Behavior)} (ha : a.2.generator? = some g)
    (hlater : ∀ b ∈ later, b.1 = a.1 → b.2.generator? = none) :
    ((acts ++ a :: later).foldl act d).row.get? a.1 =
      some (.int (d.drawn g (g.draws (acts.map Prod.snd) + 1))) := by
  rw [List.foldl_append, List.foldl_cons]
  refine get?_foldl_act_of_some ?_ hlater
  rw [get?_act_of_generator ha, drawn_foldl_act, Nat.add_comm]

/-- Defaults leave a value, and otherwise the first of them stays. -/
theorem get?_foldl_act_of_defaults {bs : List Behavior} (h : ∀ b ∈ bs, b.generator? = none) :
    ((bs.map (Prod.mk k)).foldl act d).row.get? k = (d.row.get? k).or (bs.findSome? Behavior.default?) := by
  induction bs generalizing d with
  | nil => exact Option.or_none.symm
  | cons b bs ih =>
      obtain ⟨hb, hbs⟩ := List.forall_mem_cons.1 h
      rw [List.map_cons, List.foldl_cons, ih hbs]
      cases b with
      | autoIncrement | timestamp => cases hb
      | default v =>
          have hsupply : (d.act (k, .default v)).row.get? k = (d.row.get? k).or (some v) := by
            show (d.row.insertNew k v).get? k = _
            rw [Dict.insertNew]
            split
            next hcontains =>
              rw [Option.or_of_isSome hcontains]
            next hcontains =>
              rw [Option.not_isSome_iff_eq_none.1 hcontains]
              exact Dict.get?_insert_self _ _ _
          rw [hsupply, Option.or_assoc]
          rfl

end Draft

/-! ### Fields one after the other -/

theorem Generator.draws_map_mk (g : Generator) (field : String) (bs : List Behavior) :
    g.draws ((bs.map (Prod.mk field)).map Prod.snd) = g.draws bs := by
  rw [List.map_map, show Prod.snd ∘ Prod.mk field = id from rfl, List.map_id]

/-- A field without behaviors draws nothing. -/
theorem Generator.draws_acts (g : Generator) (fields : List FieldDef) :
    g.draws ((fields.flatMap FieldDef.acts).map Prod.snd) = g.draws (fields.flatMap FieldDef.behaviors) := by
  have hfield : ∀ f : FieldDef, g.draws (f.acts.map Prod.snd) = g.draws f.behaviors := by
    intro f
    rw [FieldDef.acts, g.draws_map_mk]
    by_cases hf : f.behaviors = []
    · rw [FieldDef.acting, hf]
      rfl
    · rw [FieldDef.acting_of_ne_nil hf]
  induction fields with
  | nil => rfl
  | cons f fields ih =>
      rw [List.flatMap_cons, List.map_append, draws_append, hfield, ih, List.flatMap_cons, draws_append]

theorem FieldDef.findSome?_acting {f : FieldDef} (h : ∀ b ∈ f.behaviors, b.generator? = none) :
    f.acting.findSome? Behavior.default? = some ((f.behaviors.findSome? Behavior.default?).getD .null) := by
  cases hbs : f.behaviors with
  | nil =>
      rw [acting, hbs]
      rfl
  | cons b bs =>
      rw [acting, hbs]
      rw [hbs] at h
      cases b with
      | autoIncrement | timestamp => cases h _ List.mem_cons_self
      | default v => rfl

namespace Schema

variable {s : Schema} {f : FieldDef} {earlier later : List FieldDef}

/-- All that the behaviors of the table draw, in the order of declaration. -/
def behaviors (s : Schema) : List Behavior := s.fields.flatMap FieldDef.behaviors

/-- A field that is overwritten holds what the last behavior to do so drew, after all that was drawn before
it. -/
theorem get?_complete_of_generator (hs : (s.fields.map FieldDef.name).Nodup)
    (hfields : s.fields = earlier ++ f :: later) {before after : List Behavior} {b : Behavior} {g : Generator}
    (hbehaviors : f.behaviors = before ++ b :: after) (hb : b.generator? = some g)
    (hafter : ∀ b' ∈ after, b'.generator? = none) (d : Draft) :
    (s.complete d).row.get? f.name =
      some (.int (d.drawn g (g.draws (earlier.flatMap FieldDef.behaviors ++ before) + 1))) := by
  have hf : f ∈ s.fields := hfields ▸ List.mem_append_right _ List.mem_cons_self
  have hbefore : g.draws ((earlier.flatMap FieldDef.acts ++ before.map (Prod.mk f.name)).map Prod.snd) =
      g.draws (earlier.flatMap FieldDef.behaviors ++ before) := by
    rw [List.map_append, g.draws_append, g.draws_acts, g.draws_map_mk, g.draws_append]
  rw [complete_eq (isEmpty_eq_false_of_mem hf), Dict.get?_filterKeys, if_pos (contains_of_mem hf),
    acts_eq hfields hbehaviors, ← hbefore]
  exact Draft.get?_foldl_act_of_generator (a := (f.name, b)) hb fun a =>
    generator?_of_mem_acts_after hs hfields hafter

/-- Any other field holds what it held, and otherwise its first default or null. -/
theorem get?_complete_of_defaults (hs : (s.fields.map FieldDef.name).Nodup) (hf : f ∈ s.fields)
    (h : ∀ b ∈ f.behaviors, b.generator? = none) (d : Draft) :
    (s.complete d).row.get? f.name =
      some (((d.row.get? f.name).or (f.behaviors.findSome? Behavior.default?)).getD .null) := by
  obtain ⟨earlier, later, hfields⟩ := List.append_of_mem hf
  obtain ⟨hearlier, hlater⟩ := name_ne_of_mem_acts hs hfields
  have hacting : ∀ b ∈ f.acting, b.generator? = none := by
    intro b hb
    by_cases hnil : f.behaviors = []
    · rw [FieldDef.acting, hnil, List.mem_singleton] at hb
      rw [hb]
      rfl
    · exact h b (FieldDef.acting_of_ne_nil hnil ▸ hb)
  rw [complete_eq (isEmpty_eq_false_of_mem hf), Dict.get?_filterKeys, if_pos (contains_of_mem hf), acts, hfields,
    List.flatMap_append, List.flatMap_cons, List.foldl_append, List.foldl_append,
    Draft.get?_foldl_act_of_ne hlater, FieldDef.acts, Draft.get?_foldl_act_of_defaults hacting,
    Draft.get?_foldl_act_of_ne hearlier, FieldDef.findSome?_acting h]
  cases d.row.get? f.name with
  | none => rw [Option.none_or, Option.none_or]
  | some v => rfl

/-- Every generator moves on by what is drawn from it. -/
theorem drawn_complete (s : Schema) (d : Draft) (g : Generator) (n : Nat) :
    (s.complete d).drawn g n = d.drawn g (n + g.draws s.behaviors) := by
  by_cases hempty : s.isEmpty
  · rw [behaviors, List.isEmpty_iff.1 hempty, complete, if_pos hempty]
    rfl
  · rw [behaviors, ← g.draws_acts, ← acts, ← Draft.drawn_foldl_act,
      complete_eq (Bool.eq_false_of_not_eq_true hempty)]
    rfl

theorem autoInc_complete (s : Schema) (d : Draft) :
    (s.complete d).counters.autoInc =
      d.counters.autoInc + UInt64.ofNat (Generator.counter.draws s.behaviors) := by
  rw [← (s.complete d).toUInt64_drawn_zero, drawn_complete, Draft.drawn, Counters.drawn,
    UInt64.toUInt64_toInt64, Nat.zero_add]

end Schema

namespace Table

/-- A row as the table declares it, and the table afterwards. -/
structure Completes (t : Table) (clock : Clock) (row row' : Row) (t' : Table) : Prop where
  contains (k : String) : row'.contains k = t.schema.contains k
  /-- The last behavior to overwrite a field puts there what it draws, behind all that the behaviors
  before it draw. -/
  generated {earlier later : List FieldDef} {f : FieldDef} {before after : List Behavior} {b : Behavior}
    {g : Generator} : t.schema.fields = earlier ++ f :: later → f.behaviors = before ++ b :: after →
    b.generator? = some g → (∀ b' ∈ after, b'.generator? = none) → row'.get? f.name =
      some (.int (t.counters.drawn clock g (g.draws (earlier.flatMap FieldDef.behaviors ++ before) + 1)))
  kept {f : FieldDef} : f ∈ t.schema.fields → (∀ b ∈ f.behaviors, b.generator? = none) → row'.get? f.name =
    some (((row.get? f.name).or (f.behaviors.findSome? Behavior.default?)).getD .null)
  rows : t'.rows = t.rows
  schema : t'.schema = t.schema
  autoInc : t'.counters.autoInc =
    t.counters.autoInc + UInt64.ofNat (Generator.counter.draws t.schema.behaviors)
  lastTimestamp : t'.counters.lastTimestamp =
    t.counters.drawn clock .clock (Generator.clock.draws t.schema.behaviors)

/-- **A completed row is the declared one.** The numbers follow one another, in the words of a field, and
they are the counts themselves as long as these fit; every timestamp is later than the one before. -/
theorem complete_declared (t : Table) (clock : Clock) (row : Row)
    (hs : (t.schema.fields.map FieldDef.name).Nodup) :
    (t.schema.isEmpty → t.complete clock row = (row, t, clock)) ∧
    (t.schema.isEmpty = false →
      t.Completes clock row (t.complete clock row).1 (t.complete clock row).2.1) ∧
    (∀ n, t.counters.drawn clock .counter (n + 1) = t.counters.drawn clock .counter n + 1) ∧
    (∀ n, t.counters.autoInc.toNat + n < 2 ^ 63 →
      (t.counters.drawn clock .counter n).toInt = t.counters.autoInc.toNat + n) ∧
    t.counters.drawn clock .clock 0 = t.counters.lastTimestamp ∧
    (∀ n, t.counters.drawn clock .clock n ≠ Int64.maxValue →
      t.counters.drawn clock .clock n < t.counters.drawn clock .clock (n + 1)) := by
  refine ⟨fun hempty => ?_, fun hempty => ?_, t.counters.drawn_counter_succ clock,
    fun n => t.counters.toInt_drawn_counter clock, rfl, t.counters.drawn_clock_lt clock⟩
  · rw [complete, Schema.complete, if_pos hempty]
  · exact {
      contains := Schema.contains_complete hempty _
      generated := fun hfields hbehaviors hb hafter =>
        Schema.get?_complete_of_generator hs hfields hbehaviors hb hafter _
      kept := fun hf h => Schema.get?_complete_of_defaults hs hf h _
      rows := rfl
      schema := rfl
      autoInc := Schema.autoInc_complete _ _
      lastTimestamp := by
        rw [← Nat.zero_add (Generator.draws _ _)]
        exact Schema.drawn_complete _ ⟨row, t.counters, clock⟩ .clock 0 }

/-- A default before a number, a number between two timestamps, a null that was supplied and a clock that
stands still. -/
theorem complete_declared_overwritten :
    let t : Table := ⟨[], ⟨[⟨"seq", [.default (.int 5), .autoIncrement]⟩,
      ⟨"at", [.timestamp, .autoIncrement, .timestamp]⟩, ⟨"role", [.default (.text "guest")]⟩, ⟨"name", []⟩]⟩,
      ⟨6, 40⟩⟩
    let clock : Clock := ⟨fun _ => 40⟩
    let row : Row := .ofList [("seq", .int 99), ("role", .null), ("bogus", .int 1)]
    (t.complete clock row).1 = .ofList [("seq", .int 7), ("at", .int 42), ("role", .null), ("name", .null)] ∧
      (t.complete clock row).2.1.counters = ⟨8, 42⟩ ∧
      t.Completes clock row (t.complete clock row).1 (t.complete clock row).2.1 := by
  intro t clock row
  have hs : (t.schema.fields.map FieldDef.name).Nodup := by decide
  obtain ⟨-, hcompletes, -⟩ := complete_declared t clock row hs
  exact ⟨by decide +kernel, by decide +kernel, hcompletes rfl⟩

/-- The number behind the greatest integer is not the next integer, and no timestamp is later than that. -/
theorem numbers_wrap :
    let t : Table := ⟨[], ⟨[⟨"x", [.autoIncrement]⟩, ⟨"y", [.autoIncrement]⟩, ⟨"at", [.timestamp]⟩]⟩,
      ⟨9223372036854775806, Int64.maxValue⟩⟩
    let row := (t.complete ⟨fun _ => 40⟩ (.ofList [])).1
    row.get? "x" = some (.int 9223372036854775807) ∧ row.get? "y" = some (.int (-9223372036854775808)) ∧
      (-9223372036854775808 : Int64).toInt ≠ (9223372036854775807 : Int64).toInt + 1 ∧
      row.get? "at" = some (.int 40) ∧ (40 : Int64) ≤ t.counters.lastTimestamp := by
  decide +kernel

end Table
end TableQuery
