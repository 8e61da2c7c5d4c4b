import TableQuery.Proofs.Database.Fields
import TableQuery.Proofs.Schema.Generated

/-! The values that a table gives to a field of its own. Down the table they increase, whatever callers
supply and whatever the clock shows, and a value that has been given out is not given out again: what is
stored later is above everything given out before. -/

namespace TableQuery

namespace Table

/-- The values of a field down the table; a row without the field is passed over. -/
def column (t : Table) (k : String) : List Value := t.rows.filterMap fun row => row.get? k

/-- What a column holds later: some of its values, in their order, and behind them new ones, which
increase and are above all that had been given out. -/
def Extends (g : Generator) (k : String) (t t' : Table) : Prop :=
  ∃ (kept : List Value) (fresh : List Int64), t'.column k = kept ++ fresh.map Value.int ∧
    kept.Sublist (t.column k) ∧ fresh.Pairwise (· < ·) ∧
    (∀ n ∈ fresh, t.counters.last g < n.toInt ∧ n.toInt ≤ t'.counters.last g) ∧
    t.counters.last g ≤ t'.counters.last g

variable {g : Generator} {k : String} {t t' t'' : Table} {clock : Clock} {mode : ChainMode}

theorem Extends.of_sublist (h : (t'.column k).Sublist (t.column k)) (hc : t'.counters = t.counters) :
    t.Extends g k t' := by
  refine ⟨t'.column k, [], (List.append_nil _).symm, h, .nil, List.forall_mem_nil _, ?_⟩
  rw [hc]

theorem Extends.refl : t.Extends g k t := .of_sublist (List.Sublist.refl _) rfl

theorem Extends.trans (h : t.Extends g k t') (h' : t'.Extends g k t'') : t.Extends g k t'' := by
  obtain ⟨kept, fresh, hcolumn, hkept, hfresh, hrange, hle⟩ := h
  obtain ⟨kept', fresh', hcolumn', hkept', hfresh', hrange', hle'⟩ := h'
  -- Of the values that are still there, the first were there from the beginning and the others were new.
  rw [hcolumn, List.sublist_append_iff] at hkept'
  obtain ⟨old, new, rfl, hold, hnew⟩ := hkept'
  obtain ⟨still, hstill, rfl⟩ := List.sublist_map_iff.1 hnew
  refine ⟨old, still ++ fresh', ?_, hold.trans hkept, ?_, ?_, hle.trans hle'⟩
  · rw [hcolumn', List.map_append, List.append_assoc]
  · refine List.pairwise_append.2 ⟨hfresh.sublist hstill, hfresh', fun n hn m hm => ?_⟩
    rw [Int64.lt_iff_toInt_lt]
    exact (hrange n (hstill.subset hn)).2.trans_lt (hrange' m hm).1
  · intro n hn
    rcases List.mem_append.1 hn with hn | hn
    · obtain ⟨hlt, hn⟩ := hrange n (hstill.subset hn)
      exact ⟨hlt, hn.trans hle'⟩
    · obtain ⟨hlt, hn⟩ := hrange' n hn
      exact ⟨hle.trans_lt hlt, hn⟩

/-! ### Commands on a table -/

theorem filterMap_map_sublist {α β γ : Type} {f : α → β} {p : β → Option γ} {q : α → Option γ}
    (h : ∀ a, p (f a) = none ∨ p (f a) = q a) (as : List α) :
    ((as.map f).filterMap p).Sublist (as.filterMap q) := by
  induction as with
  | nil => exact .slnil
  | cons a as ih =>
      rw [List.map_cons]
      rcases h a with hp | hp
      · rw [List.filterMap_cons_none hp]
        cases hq : q a with
        | none => rwa [List.filterMap_cons_none hq]
        | some c =>
            rw [List.filterMap_cons_some hq]
            exact ih.cons c
      · cases hq : q a with
        | none => rwa [List.filterMap_cons_none (hp.trans hq), List.filterMap_cons_none hq]
        | some c =>
            rw [List.filterMap_cons_some (hp.trans hq), List.filterMap_cons_some hq]
            exact ih.cons_cons c

theorem get?_keep (columns : Columns) (positions : List Nat) (r : Row × Nat) :
    (keep columns positions r).get? k = none ∨ (keep columns positions r).get? k = r.1.get? k := by
  rw [keep]
  split
  · cases columns with
    | all => exact Or.inr rfl
    | names names =>
        rw [project, Dict.get?_filterKeys]
        split
        · exact Or.inr rfl
        · exact Or.inl rfl
  · exact Or.inr rfl

theorem extends_select (t : Table) (s : Select) : t.Extends g k (t.select s mode).2 := by
  refine .of_sublist ?_ rfl
  have hcolumn : t.column k = t.rows.zipIdx.filterMap fun r => r.1.get? k := by
    have h := congrArg (List.filterMap fun row : Row => row.get? k) (List.zipIdx_map_fst 0 t.rows)
    rw [List.filterMap_map] at h
    exact h.symm
  rw [hcolumn, column, select_rows]
  exact filterMap_map_sublist (f := keep s.columns _) (p := fun row => row.get? k)
    (q := fun r => r.1.get? k) (get?_keep s.columns _) _

theorem extends_delete (t : Table) (s : Delete) : t.Extends g k (t.delete s mode) :=
  .of_sublist (List.filter_sublist.filterMap _) rfl

theorem extends_update (t : Table) {s : Update} (hk : k ∉ s.assignments.map Prod.fst) :
    t.Extends g k (t.update s mode) := by
  have hcolumn : (t.update s mode).column k = t.column k := by
    rw [column, column, update, List.filterMap_map]
    congr 1
    funext row
    rw [Function.comp_apply]
    split
    · refine Dict.get?_insertAll_of_not_mem row fun hmem => hk ?_
      exact (List.filter_sublist.map Prod.fst).subset hmem
    · rfl
  exact .of_sublist (hcolumn ▸ List.Sublist.refl _) rfl

/-- The counters at every moment while rows are appended. -/
def countersDuring (t : Table) (clock : Clock) : List Row → List Counters
  | [] => [t.counters]
  | row :: rows => Draft.countersAlong ⟨row, t.counters, clock⟩ t.schema.acts ++
      (t.insert clock row).1.countersDuring (t.insert clock row).2 rows

section Insert

variable {f : FieldDef} (hs : (t.schema.fields.map FieldDef.name).Nodup) (hf : f ∈ t.schema.fields)
  (hg : f.generator? = some g)

include hs hf hg

theorem extends_insert {row : Row}
    (hfits : ∀ c ∈ Draft.countersAlong ⟨row, t.counters, clock⟩ t.schema.acts, c.Fits g) :
    t.Extends g f.name (t.insert clock row).1 := by
  obtain ⟨n, hn, hlt, hle⟩ := Schema.exists_complete_of_generator hs hf hg hfits
  refine ⟨t.column f.name, [n], ?_, List.Sublist.refl _, List.pairwise_singleton _ _, ?_, ?_⟩
  · have hlast : [(t.schema.complete ⟨row, t.counters, clock⟩).row].filterMap (fun row => row.get? f.name) =
        [Value.int n] := List.filterMap_cons_some hn
    rw [column, insert_rows, List.filterMap_append, hlast]
    rfl
  · rw [List.forall_mem_singleton]
    exact ⟨hlt, hle⟩
  · exact hlt.le.trans hle

theorem extends_insertAll {rows : List Row} (hfits : ∀ c ∈ t.countersDuring clock rows, c.Fits g) :
    t.Extends g f.name (t.insertAll clock rows).1 := by
  induction rows generalizing t clock with
  | nil => exact .refl
  | cons row rows ih =>
      rw [countersDuring, List.forall_mem_append] at hfits
      rw [insertAll_cons]
      exact (extends_insert hs hf hg hfits.1).trans (ih hs hf hfits.2)

end Insert
end Table

/-! ### Runs -/

/-- The counters of a table at every moment of a visit. -/
def Visit.counters (clock : Clock) (t : Table) : Visit → List Counters
  | .run (.insert s) => t.countersDuring clock [.ofList (s.columns.zip s.values)]
  | .append rows => t.countersDuring clock rows
  | _ => [t.counters]

/-- The visit assigns the field. -/
def Visit.Assigns (k : String) : Visit → Prop
  | .run (.update s) => k ∈ s.assignments.map Prod.fst
  | _ => False

instance (k : String) (v : Visit) : Decidable (v.Assigns k) := by
  unfold Visit.Assigns
  split <;> infer_instance

section Visit

variable {g : Generator} {f : FieldDef} {t t' : Table} {clock : Clock} {mode : ChainMode} {v : Visit}

theorem Visit.extends_apply (h : v.apply clock mode (some t) = some t')
    (hs : (t.schema.fields.map FieldDef.name).Nodup) (hf : f ∈ t.schema.fields)
    (hg : f.generator? = some g) (hassigns : ¬ v.Assigns f.name)
    (hfits : ∀ c ∈ v.counters clock t, c.Fits g) : t.Extends g f.name t' := by
  cases v with
  | pass | define schema =>
      cases h
      exact .refl
  | run s =>
      cases h
      cases s with
      | select s => exact t.extends_select s
      | insert s => exact Table.extends_insertAll hs hf hg hfits
      | update s => exact t.extends_update hassigns
      | delete s => exact t.extends_delete s
  | append rows =>
      cases h
      exact Table.extends_insertAll hs hf hg hfits
  | drop => cases h

end Visit

variable {σ : Type} [Persistence σ]

namespace Database

/-- The counters of one table at every moment of a run. -/
def countersDuring (db : Database σ) (ds : Datastore) (name : String) :
    List (Clock × Operation) → List Counters
  | [] => [(db.store.tableOrNew ds name).counters]
  | o :: ops => (o.2.visit db.config ds name).counters o.1 (db.store.tableOrNew ds name) ++
      (db.after o).countersDuring ds name ops

variable {g : Generator} {f : FieldDef} {t t' : Table} {ds : Datastore} {name : String}

theorem extends_runAll {db : Database σ} (ht : db.store.table? ds name = some t)
    (hs : (t.schema.fields.map FieldDef.name).Nodup) (hf : f ∈ t.schema.fields)
    (hg : f.generator? = some g) {ops : List (Clock × Operation)}
    (hops : ∀ o ∈ ops, o.2.visit db.config ds name ≠ .drop ∧
      ¬ (o.2.visit db.config ds name).Assigns f.name)
    (hfits : ∀ c ∈ db.countersDuring ds name ops, c.Fits g) (ht' : (db.runAll ops).store.table? ds name = some t') :
    t.Extends g f.name t' := by
  induction ops generalizing db t with
  | nil =>
      rw [show db.runAll [] = db from rfl, ht] at ht'
      cases ht'
      exact .refl
  | cons o ops ih =>
      obtain ⟨⟨hdrop, hassigns⟩, hops⟩ := List.forall_mem_cons.1 hops
      rw [countersDuring, List.forall_mem_append, Store.tableOrNew_of_table? ht] at hfits
      obtain ⟨t₁, ht₁, hschema⟩ := Visit.exists_apply_some o.1 db.config.mode t hdrop
      have hextends := Visit.extends_apply ht₁ hs hf hg hassigns hfits.1
      rw [← ht, ← table?_after] at ht₁
      rw [← hschema] at hs hf
      exact hextends.trans (ih ht₁ hs hf (by rwa [config_after]) hfits.2 ht')

/-- The moments of a later part are moments of the whole run. -/
theorem mem_countersDuring_append (db : Database σ) (ops later : List (Clock × Operation)) :
    ∀ c ∈ (db.runAll ops).countersDuring ds name later, c ∈ db.countersDuring ds name (ops ++ later) := by
  induction ops generalizing db with
  | nil => exact fun c hc => hc
  | cons o ops ih => exact fun c hc => List.mem_append_right _ (ih (db.after o) c hc)

/-- A definition creates its table if there is none. -/
theorem table?_after_define {db : Database σ} {path : String} {fields : List String} {schema : Schema}
    (hplace : db.resolve path = .ok (ds, name)) (hnew : db.store.table? ds name = none)
    (hschema : Schema.ofTexts fields = .ok schema) (clock : Clock) :
    (db.after (clock, .define path fields)).store.table? ds name = some (.ofSchema schema) := by
  have htarget : (Operation.define path fields).target db.config = .ok ((ds, name), .define schema) := by
    rw [Operation.target, ← resolve_eq, hplace, hschema]
    rfl
  rw [table?_after, Operation.visit_of_target htarget, hnew]
  rfl

/-- **Down a table the values of a field that it generates increase up to its counter, and between any
two times only values above the counter are new; they are missing only where a selection left them out.** -/
theorem generated_values_increase {db : Database σ} {clock : Clock} {path : String} {fields : List String}
    {schema : Schema} {ops : List (Clock × Operation)}
    (hplace : db.resolve path = .ok (ds, name)) (hnew : db.store.table? ds name = none)
    (hschema : Schema.ofTexts fields = .ok schema) (hf : f ∈ schema.fields) (hg : f.generator? = some g)
    (hops : ∀ o ∈ ops, o.2.visit db.config ds name ≠ .drop ∧
      ¬ (o.2.visit db.config ds name).Assigns f.name)
    (hfits : ∀ c ∈ (db.after (clock, .define path fields)).countersDuring ds name ops, c.Fits g) :
    let created := db.after (clock, .define path fields)
    ∃ t, (created.runAll ops).store.table? ds name = some t ∧
      (∃ ns : List Int64, t.column f.name = ns.map Value.int ∧ ns.Pairwise (· < ·) ∧
        ∀ n ∈ ns, n.toInt ≤ t.counters.last g) ∧
      (∀ earlier later, ops = earlier ++ later →
        ∃ t₁, (created.runAll earlier).store.table? ds name = some t₁ ∧ t₁.Extends g f.name t) ∧
      List.Forall₂ (fun row history => row.get? f.name = none →
          ∃ columns, Event.returned columns ∈ history ∧ f.name ∉ columns)
        t.rows (created.histories ds name [] ops) := by
  intro created
  have ht₀ := table?_after_define hplace hnew hschema clock
  have hgiven : (Operation.define path fields).givenSchema = .ok schema := hschema
  have hs := Operation.nodup_of_givenSchema hgiven
  have hconfig : created.config = db.config := config_after _ _
  rw [← hconfig] at hops
  obtain ⟨t, ht, htschema⟩ := exists_table_runAll ht₀ fun o ho => (hops o ho).1
  refine ⟨t, ht, ?_, ?_, ?_⟩
  · obtain ⟨kept, fresh, hcolumn, hkept, hfresh, hrange, -⟩ := extends_runAll ht₀ hs hf hg hops hfits ht
    rw [List.sublist_nil.1 hkept] at hcolumn
    exact ⟨fresh, hcolumn, hfresh, fun n hn => (hrange n hn).2⟩
  · rintro earlier later rfl
    obtain ⟨hearlier, hlater⟩ := List.forall_mem_append.1 hops
    obtain ⟨t₁, ht₁, hschema₁⟩ := exists_table_runAll ht₀ fun o ho => (hearlier o ho).1
    refine ⟨t₁, ht₁, ?_⟩
    rw [runAll_append] at ht
    rw [← config_runAll created earlier] at hlater
    refine extends_runAll ht₁ (hschema₁ ▸ hs) (hschema₁ ▸ hf) hg hlater (fun c hc => ?_) ht
    exact hfits c (mem_countersDuring_append created earlier later c hc)
  · have hfollows : (created.store.tableOrNew ds name).Follows [] := by
      rw [Store.tableOrNew_of_table? ht₀]
      exact .nil
    have hrows := follows_runAll hfollows ops
    rw [Store.tableOrNew_of_table? ht] at hrows
    refine hrows.imp fun row history hrow hnone => History.exists_returned_of_loses ?_
    have hfollowed := hrow (htschema ▸ Schema.isEmpty_eq_false_of_mem hf) f.name
    rw [Dict.contains, hnone, htschema, show (Table.ofSchema schema).schema = schema from rfl,
      Schema.contains_of_mem hf, Bool.true_and, Option.isSome_none, eq_comm, Bool.not_eq_false'] at hfollowed
    exact hfollowed

/-- Two rows that got the same reading of the clock, a selection that takes the number of the first one
and a clock that goes back. -/
theorem generated_values_increase_clock_back :
    let clock (t : Int64) : Clock := ⟨fun _ => t⟩
    let db : Database Unit := start .standard
    let created := db.after (clock 9, .define "t" ["at auto_inc timestamp default 0", "name"])
    let ops := [(clock 9, Operation.insert "t" [.ofList [("at", .int 70)], .ofList [("at", .null)]]),
      (clock 4, .query "SELECT name FROM t LIMIT 1" none),
      (clock 4, .query "UPDATE LOCAL.t SET name = 1" none),
      (clock 4, .query "INSERT INTO t (name) VALUES (2)" none)]
    ∃ t, (created.runAll ops).store.table? .localStore "t" = some t ∧
      t.column "at" = [.int 10, .int 11] ∧ ∃ ns : List Int64, t.column "at" = ns.map Value.int ∧
        ns.Pairwise (· < ·) ∧ ∀ n ∈ ns, n.toInt ≤ t.counters.last .clock := by
  intro clock db created ops
  have hschema : Schema.ofTexts ["at auto_inc timestamp default 0", "name"] =
      .ok ⟨[⟨"at", [.autoIncrement, .timestamp, .default (.int 0)]⟩, ⟨"name", []⟩]⟩ := by
    decide +kernel
  have hops : ∀ o ∈ ops, o.2.visit db.config .localStore "t" ≠ .drop ∧
      ¬ (o.2.visit db.config .localStore "t").Assigns "at" := by
    decide +kernel
  have hfits : ∀ c ∈ created.countersDuring .localStore "t" ops, c.Fits .clock := by
    decide +kernel
  have hplace : db.resolve "t" = .ok (.localStore, "t") := rfl
  obtain ⟨t, ht, hincrease, -⟩ :=
    generated_values_increase hplace rfl hschema List.mem_cons_self rfl hops hfits
  refine ⟨t, ht, ?_, hincrease⟩
  have hcolumn : ((created.runAll ops).store.tableOrNew .localStore "t").column "at" =
      [.int 10, .int 11] := by decide +kernel
  rwa [Store.tableOrNew_of_table? ht] at hcolumn

end Database
end TableQuery
