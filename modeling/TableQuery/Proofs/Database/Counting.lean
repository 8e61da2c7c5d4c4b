import TableQuery.Proofs.Database.Numbering
import TableQuery.Proofs.Schema.Declared

/-! What the counter of a table counts. A row takes as many numbers as the schema has behaviors that number
a field, and nothing else takes any: the counter is that many times the number of rows that have been
inserted since the table was created, and every row got the numbers that were next in turn. -/

namespace TableQuery

/-! ### The numbers of one row -/

namespace Schema

variable {s : Schema} {f : FieldDef} {field : String} {j : Nat}

/-- How many numbers a row takes on its way into a table. -/
def numbersPerRow (s : Schema) : Nat := Generator.counter.draws s.behaviors

/-- The last behavior to overwrite the field takes the `j`-th number of the row. -/
def TakesNumber (s : Schema) (field : String) (j : Nat) : Prop :=
  ∃ earlier f later before after, s.fields = earlier ++ f :: later ∧ f.name = field ∧
    f.behaviors = before ++ .autoIncrement :: after ∧ (∀ b ∈ after, b.generator? = none) ∧
    j = Generator.counter.draws (earlier.flatMap FieldDef.behaviors ++ before) + 1

theorem exists_takesNumber (hf : f ∈ s.fields) (hg : f.generator? = some .counter) :
    ∃ j, s.TakesNumber f.name j := by
  obtain ⟨before, b, after, hbehaviors, hb, hafter⟩ := exists_of_getLast?_filterMap hg
  obtain ⟨earlier, later, hfields⟩ := List.append_of_mem hf
  cases b with
  | autoIncrement => exact ⟨_, earlier, f, later, before, after, hfields, rfl, hbehaviors, hafter, rfl⟩
  | timestamp | default v => cases hb

theorem TakesNumber.le (h : s.TakesNumber field j) : 1 ≤ j ∧ j ≤ s.numbersPerRow := by
  obtain ⟨earlier, f, later, before, after, hfields, -, hbehaviors, -, rfl⟩ := h
  have hnumber : Generator.counter.draws (.autoIncrement :: after) = Generator.counter.draws after + 1 :=
    Generator.draws_cons _ _ _
  refine ⟨Nat.le_add_left _ _, ?_⟩
  rw [numbersPerRow, behaviors, hfields, List.flatMap_append, List.flatMap_cons, hbehaviors]
  simp only [Generator.draws_append, hnumber]
  omega

/-- Every field that is numbered holds its number of the row, counted from the last one given out. -/
def Numbered (s : Schema) (last : UInt64) (row : Row) : Prop :=
  ∀ field j, s.TakesNumber field j → row.get? field = some (.int (last + UInt64.ofNat j).toInt64)

theorem numbered_complete (hs : (s.fields.map FieldDef.name).Nodup) (d : Draft) :
    s.Numbered d.counters.autoInc (s.complete d).row := by
  rintro field j ⟨earlier, f, later, before, after, hfields, rfl, hbehaviors, hafter, rfl⟩
  exact get?_complete_of_generator hs hfields hbehaviors rfl hafter d

end Schema

/-! ### The numbers of several rows -/

namespace Table

/-- On the way from one state of a table to a later one these rows have been inserted, and each has got the
numbers that were next. -/
structure Counts (t : Table) (log : List Row) (t' : Table) : Prop where
  schema : t'.schema = t.schema
  autoInc : t'.counters.autoInc =
    t.counters.autoInc + UInt64.ofNat (t.schema.numbersPerRow * log.length)
  numbered (k : Nat) (row : Row) : log[k]? = some row →
    t.schema.Numbered (t.counters.autoInc + UInt64.ofNat (t.schema.numbersPerRow * k)) row

variable {t t' t'' : Table} {log log' : List Row} {clock : Clock}

theorem Counts.of_counters (hschema : t'.schema = t.schema) (hcounters : t'.counters = t.counters) :
    t.Counts [] t' where
  schema := hschema
  autoInc := by
    rw [hcounters, List.length_nil, Nat.mul_zero]
    exact (UInt64.add_zero _).symm
  numbered k row hrow := by cases hrow

theorem Counts.trans (h : t.Counts log t') (h' : t'.Counts log' t'') : t.Counts (log ++ log') t'' where
  schema := h'.schema.trans h.schema
  autoInc := calc
    t''.counters.autoInc = t'.counters.autoInc + UInt64.ofNat (t.schema.numbersPerRow * log'.length) := by
      rw [h'.autoInc, h.schema]
    _ = t.counters.autoInc + (UInt64.ofNat (t.schema.numbersPerRow * log.length) +
        UInt64.ofNat (t.schema.numbersPerRow * log'.length)) := by
      rw [h.autoInc, UInt64.add_assoc]
    _ = t.counters.autoInc + UInt64.ofNat (t.schema.numbersPerRow * (log ++ log').length) := by
      rw [← UInt64.ofNat_add, ← Nat.mul_add, List.length_append]
  numbered k row hrow := by
    rcases Nat.lt_or_ge k log.length with hk | hk
    · rw [List.getElem?_append_left hk] at hrow
      exact h.numbered k row hrow
    · rw [List.getElem?_append_right hk] at hrow
      have hrest := h'.numbered _ row hrow
      rwa [h.schema, h.autoInc, UInt64.add_assoc, ← UInt64.ofNat_add, ← Nat.mul_add,
        Nat.add_sub_of_le hk] at hrest

theorem counts_insert (hs : (t.schema.fields.map FieldDef.name).Nodup) (clock : Clock) (row : Row) :
    t.Counts [(t.schema.complete ⟨row, t.counters, clock⟩).row] (t.insert clock row).1 where
  schema := rfl
  autoInc := by
    rw [insert_counters, Schema.autoInc_complete, List.length_singleton, Nat.mul_one, Schema.numbersPerRow]
  numbered k row' hrow := by
    cases k with
    | zero =>
        cases hrow
        rw [Nat.mul_zero, show t.counters.autoInc + UInt64.ofNat 0 = t.counters.autoInc from UInt64.add_zero _]
        exact Schema.numbered_complete hs ⟨row, t.counters, clock⟩
    | succ k => cases hrow

theorem exists_counts_insertAll (hs : (t.schema.fields.map FieldDef.name).Nodup) (clock : Clock)
    (rows : List Row) :
    ∃ log, (t.insertAll clock rows).1.rows = t.rows ++ log ∧ log.length = rows.length ∧
      t.Counts log (t.insertAll clock rows).1 := by
  induction rows generalizing t clock with
  | nil => exact ⟨[], (List.append_nil _).symm, rfl, .of_counters rfl rfl⟩
  | cons row rows ih =>
      have hfirst := counts_insert hs clock row
      obtain ⟨log, hrows, hlength, hcounts⟩ := ih (t := (t.insert clock row).1) hs (t.insert clock row).2
      refine ⟨_ :: log, ?_, congrArg Nat.succ hlength, hfirst.trans hcounts⟩
      rw [insertAll_cons, hrows, insert_rows, List.append_assoc]
      rfl

end Table

/-! ### Runs -/

/-- How many rows a visit inserts. -/
def Visit.insertions : Visit → Nat
  | .run (.insert _) => 1
  | .append rows => rows.length
  | _ => 0

/-- The rows that a visit inserts, as the table then holds them behind those that it held before. -/
def Visit.inserted (t t' : Table) : Visit → List Row
  | .run (.insert _) | .append _ => t'.rows.drop t.rows.length
  | _ => []

theorem Visit.counts_apply {t t' : Table} {clock : Clock} {mode : ChainMode} {v : Visit}
    (h : v.apply clock mode (some t) = some t') (hs : (t.schema.fields.map FieldDef.name).Nodup) :
    t.Counts (v.inserted t t') t' ∧ (v.inserted t t').length = v.insertions := by
  have hinsert : ∀ rows, let t' := (t.insertAll clock rows).1
      t.Counts (t'.rows.drop t.rows.length) t' ∧ (t'.rows.drop t.rows.length).length = rows.length := by
    intro rows t'
    obtain ⟨log, hrows, hlength, hcounts⟩ := Table.exists_counts_insertAll hs clock rows
    rw [hrows, List.drop_left]
    exact ⟨hcounts, hlength⟩
  cases v with
  | pass | define schema =>
      cases h
      exact ⟨.of_counters rfl rfl, rfl⟩
  | run s =>
      cases h
      cases s with
      | insert s => exact hinsert [.ofList (s.columns.zip s.values)]
      | select s | update s | delete s => exact ⟨.of_counters rfl rfl, rfl⟩
  | append rows =>
      cases h
      exact hinsert rows
  | drop => cases h

namespace Database

variable {σ : Type} [Persistence σ] {ds : Datastore} {name : String}

/-- The rows that a run inserts into one table, as they were stored, deleted ones included. -/
def inserted (db : Database σ) (ds : Datastore) (name : String) : List (Clock × Operation) → List Row
  | [] => []
  | o :: ops => (o.2.visit db.config ds name).inserted (db.store.tableOrNew ds name)
      ((db.after o).store.tableOrNew ds name) ++ (db.after o).inserted ds name ops

theorem counts_runAll {db : Database σ} {t t' : Table} (ht : db.store.table? ds name = some t)
    (hs : (t.schema.fields.map FieldDef.name).Nodup) {ops : List (Clock × Operation)}
    (hops : ∀ o ∈ ops, o.2.visit db.config ds name ≠ .drop)
    (ht' : (db.runAll ops).store.table? ds name = some t') :
    t.Counts (db.inserted ds name ops) t' ∧ (db.inserted ds name ops).length =
      (ops.map fun o => (o.2.visit db.config ds name).insertions).sum := by
  induction ops generalizing db t with
  | nil =>
      rw [show db.runAll [] = db from rfl, ht] at ht'
      cases ht'
      exact ⟨.of_counters rfl rfl, rfl⟩
  | cons o ops ih =>
      obtain ⟨hdrop, hops⟩ := List.forall_mem_cons.1 hops
      obtain ⟨t₁, ht₁, hschema⟩ := Visit.exists_apply_some o.1 db.config.mode t hdrop
      obtain ⟨hcounts, hlength⟩ := Visit.counts_apply ht₁ hs
      rw [← ht, ← table?_after] at ht₁
      rw [← hschema] at hs
      obtain ⟨hrest, hlengths⟩ := ih ht₁ hs (by rwa [config_after]) ht'
      rw [inserted, Store.tableOrNew_of_table? ht, Store.tableOrNew_of_table? ht₁, List.length_append, hlength,
        hlengths, config_after, List.map_cons, List.sum_cons]
      exact ⟨hcounts.trans hrest, rfl⟩

/-- **The counter of a table is the number of rows inserted since its creation, times the numbers that one
row takes.** The row that is inserted after `k` others holds in every field that the table numbers the number
that is next in turn there: with one such field, `k + 1`. -/
theorem insertions_counted {db : Database σ} {clock : Clock} {path : String} {fields : List String}
    {schema : Schema} {ops : List (Clock × Operation)}
    (hplace : db.resolve path = .ok (ds, name)) (hnew : db.store.table? ds name = none)
    (hschema : Schema.ofTexts fields = .ok schema)
    (hops : ∀ o ∈ ops, o.2.visit db.config ds name ≠ .drop) :
    let created := db.after (clock, .define path fields)
    let log := created.inserted ds name ops
    log.length = (ops.map fun o => (o.2.visit db.config ds name).insertions).sum ∧
    ∃ t, (created.runAll ops).store.table? ds name = some t ∧
      t.counters.autoInc.toNat = schema.numbersPerRow * log.length % 2 ^ 64 ∧
      ∀ f ∈ schema.fields, f.generator? = some .counter →
        ∃ j, schema.TakesNumber f.name j ∧ 1 ≤ j ∧ j ≤ schema.numbersPerRow ∧
          ∀ k row, log[k]? = some row → ∃ n : Int64, row.get? f.name = some (.int n) ∧
            n = Int64.ofNat (schema.numbersPerRow * k + j) ∧
            (schema.numbersPerRow * k + j < 2 ^ 63 → n.toInt = schema.numbersPerRow * k + j) := by
  intro created log
  have ht₀ := table?_after_define hplace hnew hschema clock
  have hgiven : (Operation.define path fields).givenSchema = .ok schema := hschema
  have hs := Operation.nodup_of_givenSchema hgiven
  have hconfig : created.config = db.config := config_after _ _
  rw [← hconfig] at hops
  obtain ⟨t, ht, -⟩ := exists_table_runAll ht₀ hops
  obtain ⟨hcounts, hlength⟩ := counts_runAll ht₀ hs hops ht
  have hzero : (Table.ofSchema schema).counters.autoInc = 0 := rfl
  refine ⟨by rw [← hconfig]; exact hlength, t, ht, ?_, fun f hf hg => ?_⟩
  · rw [hcounts.autoInc, hzero, UInt64.zero_add, UInt64.toNat_ofNat']
    rfl
  · obtain ⟨j, hj⟩ := Schema.exists_takesNumber hf hg
    refine ⟨j, hj, hj.le.1, hj.le.2, fun k row hrow => ⟨_, hcounts.numbered k row hrow f.name j hj, ?_⟩⟩
    have hn : (0 + UInt64.ofNat (schema.numbersPerRow * k) + UInt64.ofNat j).toInt64 =
        Int64.ofNat (schema.numbersPerRow * k + j) := by
      rw [UInt64.zero_add, ← UInt64.ofNat_add, UInt64.toInt64_ofNat']
    refine ⟨hn, fun hlt => ?_⟩
    rw [hzero, show (Table.ofSchema schema).schema = schema from rfl, hn, Int64.toInt_ofNat_of_lt hlt,
      Nat.cast_add, Nat.cast_mul]

/-- Three numbers for a row, the last one overwritten; the rows are inserted in both ways, deleted and
changed, and a statement fails in between. -/
theorem insertions_counted_three_each :
    let clock : Clock := ⟨fun _ => 5⟩
    let db : Database Unit := start .standard
    let created := db.after (clock,
      .define "t" ["a auto_inc", "b timestamp auto_inc default 7", "c auto_inc timestamp"])
    let ops := [(clock, Operation.insert "t" [.ofList [("b", .int 70)], .ofList [("x", .null)]]),
      (clock, .query "DELETE FROM t" none), (clock, .query "INSERT INTO t (a) VALUES (1, 2)" none),
      (clock, .query "INSERT INTO LOCAL.t (a) VALUES (9)" none), (clock, .query "UPDATE t SET b = 1" none)]
    (created.inserted .localStore "t" ops).map (fun row => (row.get? "a", row.get? "b")) =
        [(some (.int 1), some (.int 2)), (some (.int 4), some (.int 5)), (some (.int 7), some (.int 8))] ∧
      ∃ t, (created.runAll ops).store.table? .localStore "t" = some t ∧ t.counters.autoInc.toNat = 9 := by
  intro clock db created ops
  have hschema : Schema.ofTexts ["a auto_inc", "b timestamp auto_inc default 7", "c auto_inc timestamp"] =
      .ok ⟨[⟨"a", [.autoIncrement]⟩, ⟨"b", [.timestamp, .autoIncrement, .default (.int 7)]⟩,
        ⟨"c", [.autoIncrement, .timestamp]⟩]⟩ := by
    decide +kernel
  have hops : ∀ o ∈ ops, o.2.visit db.config .localStore "t" ≠ .drop := by decide +kernel
  have hsum : (ops.map fun o => (o.2.visit db.config .localStore "t").insertions).sum = 3 := by
    decide +kernel
  have hplace : db.resolve "t" = .ok (.localStore, "t") := rfl
  obtain ⟨hlength, t, ht, hcounter, -⟩ :=
    @insertions_counted Unit _ .localStore "t" db clock "t" _ _ ops hplace rfl hschema hops
  refine ⟨by decide +kernel, t, ht, hcounter.trans ?_⟩
  rw [hlength, hsum]
  rfl

/-- Two numbers for one row: the counter is not the number of rows, and the first row holds the second
number in a field. -/
theorem row_takes_two_numbers :
    let clock : Clock := ⟨fun _ => 5⟩
    let db : Database Unit := start .standard
    let created := db.after (clock, .define "t" ["a auto_inc", "b auto_inc"])
    let ops := [(clock, Operation.insert "t" [.ofList []])]
    let t := (created.runAll ops).store.tableOrNew .localStore "t"
    created.inserted .localStore "t" ops = [.ofList [("a", .int 1), ("b", .int 2)]] ∧
      t.rows = created.inserted .localStore "t" ops ∧ t.counters.autoInc = 2 := by
  decide +kernel

end Database
end TableQuery
