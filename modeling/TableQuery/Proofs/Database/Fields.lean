import TableQuery.Proofs.Database.History

/-! The fields of stored rows over whole runs. The schema of a table is the one that it was created
with, and no row has a field that is not declared. A declared field is missing from a row exactly if a
selection returned the row without it and no update has assigned it since, also right after a write. -/

namespace TableQuery

variable {σ : Type} [Persistence σ]

/-! ### Where a schema comes from -/

/-- The schema of the table that an operation creates. -/
def Operation.givenSchema : Operation → Except QueryError Schema
  | .define _ fields => Schema.ofTexts fields
  | _ => .ok .empty

/-- The schema of the table that a visit creates. -/
def Visit.schema? : Visit → Option Schema
  | .pass => none
  | .run _ => some .empty
  | .append _ => some .empty
  | .define schema => some schema
  | .drop => none

theorem Operation.givenSchema_of_target {config : Configuration} {op : Operation}
    {place : Datastore × String} {v : Visit} {s : Schema} (h : op.target config = .ok (place, v))
    (hv : v.schema? = some s) : op.givenSchema = .ok s := by
  cases op with
  | query text subs =>
      obtain ⟨s', -, h⟩ := bind_eq_ok_iff.1 h
      obtain ⟨place', -, h⟩ := bind_eq_ok_iff.1 h
      cases h
      exact congrArg Except.ok (Option.some.inj hv)
  | insert path rows =>
      obtain ⟨place', -, h⟩ := bind_eq_ok_iff.1 h
      cases h
      exact congrArg Except.ok (Option.some.inj hv)
  | define path fields =>
      obtain ⟨place', -, h⟩ := bind_eq_ok_iff.1 h
      obtain ⟨schema, hschema, h⟩ := bind_eq_ok_iff.1 h
      cases h
      rw [givenSchema, hschema, Option.some.inj hv]
  | drop path =>
      obtain ⟨place', -, h⟩ := bind_eq_ok_iff.1 h
      cases h
      cases hv

theorem Operation.givenSchema_of_visit {config : Configuration} {ds : Datastore} {name : String}
    {op : Operation} {s : Schema} (h : (op.visit config ds name).schema? = some s) :
    op.givenSchema = .ok s := by
  refine givenSchema_of_target (target_of_visit fun hpass => ?_) h
  rw [hpass] at h
  cases h

theorem Operation.nodup_of_givenSchema {op : Operation} {s : Schema} (h : op.givenSchema = .ok s) :
    (s.fields.map FieldDef.name).Nodup := by
  cases op with
  | define path fields =>
      obtain ⟨defs, -, hs⟩ := bind_eq_ok_iff.1 h
      exact Schema.nodup_of_ofFields hs
  | query text subs | insert path rows | drop path =>
      cases h
      exact List.nodup_nil

theorem Table.insertAll_schema (t : Table) (clock : Clock) (rows : List Row) :
    (t.insertAll clock rows).1.schema = t.schema := by
  induction rows generalizing t clock with
  | nil => rfl
  | cons row rows ih => rw [insertAll_cons, ih, insert_schema]

section Visit

variable {clock : Clock} {mode : ChainMode} {v : Visit} {t t' : Table}

theorem Table.run_schema (t : Table) (s : Statement) : (t.run clock mode s).2.schema = t.schema := by
  cases s <;> rfl

/-- A table stays, with its schema, until it is dropped. -/
theorem Visit.exists_apply_some (clock : Clock) (mode : ChainMode) (t : Table) (h : v ≠ .drop) :
    ∃ t', v.apply clock mode (some t) = some t' ∧ t'.schema = t.schema := by
  cases v with
  | pass | define schema => exact ⟨t, rfl, rfl⟩
  | run s => exact ⟨_, rfl, Table.run_schema t s⟩
  | append rows => exact ⟨_, rfl, Table.insertAll_schema t clock rows⟩
  | drop => exact absurd rfl h

theorem Visit.schema_apply_some (h : v.apply clock mode (some t) = some t') : t'.schema = t.schema := by
  have hdrop : v ≠ .drop := by
    rintro rfl
    cases h
  obtain ⟨t'', ht'', hschema⟩ := v.exists_apply_some clock mode t hdrop
  rw [h] at ht''
  cases ht''
  exact hschema

theorem Visit.schema_apply_none (h : v.apply clock mode none = some t) : v.schema? = some t.schema := by
  cases v with
  | pass | drop => cases h
  | define schema =>
      cases h
      rfl
  | run s =>
      cases h
      exact congrArg some (Table.run_schema .empty s).symm
  | append rows =>
      cases h
      exact congrArg some (Table.insertAll_schema .empty clock rows).symm

end Visit

namespace Database

theorem exists_table_runAll {db : Database σ} {ds : Datastore} {name : String} {t : Table}
    (ht : db.store.table? ds name = some t) {ops : List (Clock × Operation)}
    (hops : ∀ o ∈ ops, o.2.visit db.config ds name ≠ .drop) :
    ∃ t', (db.runAll ops).store.table? ds name = some t' ∧ t'.schema = t.schema := by
  induction ops generalizing db t with
  | nil => exact ⟨t, ht, rfl⟩
  | cons o ops ih =>
      obtain ⟨hdrop, hops⟩ := List.forall_mem_cons.1 hops
      obtain ⟨t', ht', hschema⟩ := Visit.exists_apply_some o.1 db.config.mode t hdrop
      rw [← ht, ← table?_after] at ht'
      obtain ⟨t'', ht'', hschema'⟩ := ih ht' (by rwa [config_after])
      exact ⟨t'', ht'', hschema'.trans hschema⟩

/-- A table has the schema of the operation that created it, at every time since. -/
theorem exists_creation {db : Database σ} {ds : Datastore} {name : String}
    (hdb : db.store.table? ds name = none) {ops : List (Clock × Operation)} {t : Table}
    (ht : (db.runAll ops).store.table? ds name = some t) :
    ∃ earlier o later, ops = earlier ++ o :: later ∧
      (db.runAll earlier).store.table? ds name = none ∧ o.2.givenSchema = .ok t.schema ∧
      ∀ part, part <+: later → ∃ t', (db.runAll (earlier ++ o :: part)).store.table? ds name = some t' ∧
        t'.schema = t.schema := by
  induction ops using List.reverseRecOn generalizing t with
  | nil =>
      rw [show db.runAll [] = db from rfl, hdb] at ht
      cases ht
  | append_singleton ops o ih =>
      have hstep := ht
      rw [runAll_concat, table?_after] at hstep
      cases hbefore : (db.runAll ops).store.table? ds name with
      | none =>
          rw [hbefore] at hstep
          refine ⟨ops, o, [], rfl, hbefore,
            Operation.givenSchema_of_visit (Visit.schema_apply_none hstep), ?_⟩
          intro part hpart
          rw [List.prefix_nil.1 hpart]
          exact ⟨t, ht, rfl⟩
      | some t₀ =>
          rw [hbefore] at hstep
          have hschema := Visit.schema_apply_some hstep
          obtain ⟨earlier, c, later, rfl, hnone, hgiven, hlater⟩ := ih hbefore
          refine ⟨earlier, c, later ++ [o], by rw [List.append_assoc, List.cons_append], hnone,
            hschema ▸ hgiven, ?_⟩
          intro part hpart
          rcases List.prefix_concat_iff.1 hpart with rfl | hpart
          · refine ⟨t, ?_, rfl⟩
            rw [← ht, List.append_assoc, List.cons_append]
          · obtain ⟨t', ht', heq⟩ := hlater part hpart
            exact ⟨t', ht', heq.trans hschema.symm⟩

theorem table?_start (config : Configuration) (ds : Datastore) (name : String) :
    (start config : Database σ).store.table? ds name = none := by
  cases ds <;> rfl

theorem follows_start (config : Configuration) (ds : Datastore) (name : String) :
    ((start config : Database σ).store.tableOrNew ds name).Follows [] := by
  rw [Store.tableOrNew, table?_start]
  exact .nil

end Database

/-- No selection of columns has returned the row. -/
def History.Whole (h : History) : Prop := ∀ columns, Event.returned columns ∉ h

theorem History.Whole.loses_eq_false {h : History} (hwhole : History.Whole h) (k : String) :
    History.loses k h = false := by
  rw [Bool.eq_false_iff]
  intro hloses
  obtain ⟨columns, hmem, -⟩ := exists_returned_of_loses hloses
  exact hwhole columns hmem

theorem Row.Follows.contains_of_whole {s : Schema} {row : Row} {h : History} (hrow : Row.Follows s row h)
    (hs : s.isEmpty = false) (hwhole : History.Whole h) (k : String) : row.contains k = s.contains k := by
  rw [hrow hs, hwhole.loses_eq_false, Bool.not_false, Bool.and_true]

/-- The visit stores a row or assigns fields. -/
def Visit.Writes : Visit → Prop
  | .run (.insert _) => True
  | .run (.update _) => True
  | .append _ => True
  | _ => False

namespace Database

variable {config : Configuration} {ds : Datastore} {name : String} {t : Table}
  {ops : List (Clock × Operation)}

theorem follows_histories (ht : ((start config : Database σ).runAll ops).store.table? ds name = some t) :
    t.Follows ((start config : Database σ).histories ds name [] ops) := by
  have hfollows := follows_runAll (follows_start (σ := σ) config ds name) ops
  rwa [Store.tableOrNew_of_table? ht] at hfollows

/-- **A table keeps the schema that it was created with, whose names differ; if it declares fields, no
row has another one, and a row that no selection of columns has returned has all of them.** -/
theorem closed_schema (ht : ((start config : Database σ).runAll ops).store.table? ds name = some t) :
    (t.schema.fields.map FieldDef.name).Nodup ∧
    (∃ earlier o later, ops = earlier ++ o :: later ∧
      ((start config : Database σ).runAll earlier).store.table? ds name = none ∧
      o.2.givenSchema = .ok t.schema ∧ ∀ part, part <+: later →
        ∃ t', ((start config : Database σ).runAll (earlier ++ o :: part)).store.table? ds name = some t' ∧
          t'.schema = t.schema) ∧
    List.Forall₂ (fun row history => t.schema.isEmpty = false →
        (∀ k, row.contains k → t.schema.contains k) ∧
        (History.Whole history → ∀ k, row.contains k = t.schema.contains k))
      t.rows ((start config : Database σ).histories ds name [] ops) := by
  have hcreation := exists_creation (table?_start config ds name) ht
  refine ⟨?_, hcreation, (follows_histories ht).imp fun row history hrow hschema => ⟨fun k hk => ?_, ?_⟩⟩
  · obtain ⟨-, o, -, -, -, hgiven, -⟩ := hcreation
    exact Operation.nodup_of_givenSchema hgiven
  · rw [hrow hschema, Bool.and_eq_true] at hk
    exact hk.1
  · exact hrow.contains_of_whole hschema

/-- A selection has taken a field from the first row, and the second row has all of them. -/
theorem closed_schema_projected :
    let clock : Clock := ⟨fun _ => 0⟩
    let ops := [(clock, Operation.define "t" ["a auto_inc", "b"]),
      (clock, .insert "t" [.ofList [("b", .int 2), ("c", .int 3)], .ofList []]),
      (clock, .query "SELECT a FROM t LIMIT 1" none),
      (clock, .query "SELECT a FROM disk.t" none)]
    let t : Table := ⟨[.ofList [("a", .int 1)], .ofList [("a", .int 2), ("b", .null)]],
      ⟨[⟨"a", [.autoIncrement]⟩, ⟨"b", []⟩]⟩, ⟨2, 0⟩⟩
    ((start .standard : Database Unit).runAll ops).store.table? .localStore "t" = some t ∧
      (start .standard : Database Unit).histories .localStore "t" [] ops = [[.returned ["a"]], []] ∧
      (t.schema.fields.map FieldDef.name).Nodup ∧
      List.Forall₂ (fun row history => t.schema.isEmpty = false →
          (∀ k, row.contains k → t.schema.contains k) ∧
          (History.Whole history → ∀ k, row.contains k = t.schema.contains k))
        t.rows [[.returned ["a"]], []] := by
  intro clock ops t
  have ht : ((start .standard : Database Unit).runAll ops).store.table? .localStore "t" = some t := by
    decide +kernel
  have hhistories : (start .standard : Database Unit).histories .localStore "t" [] ops =
      [[.returned ["a"]], []] := by
    decide +kernel
  obtain ⟨hnodup, -, hrows⟩ := closed_schema ht
  rw [hhistories] at hrows
  exact ⟨ht, hhistories, hnodup, hrows⟩

/-- **A write on a table succeeds, and right after it every row has the declared fields but those that a
selection returned it without and that no update has assigned since; a row that no selection of columns
has returned has exactly the declared fields.** -/
theorem fields_after_write (before : List (Clock × Operation)) {o : Clock × Operation}
    (hwrites : (o.2.visit config ds name).Writes) :
    (o.2.run ((start config : Database σ).runAll before) o.1).isOk ∧
    ∃ t, ((start config : Database σ).runAll (before ++ [o])).store.table? ds name = some t ∧
      List.Forall₂ (fun row history => t.schema.isEmpty = false →
          (∀ k, row.contains k = (t.schema.contains k && !History.loses k history)) ∧
          (History.Whole history → ∀ k, row.contains k = t.schema.contains k))
        t.rows ((start config : Database σ).histories ds name [] (before ++ [o])) := by
  have hconfig : ((start config : Database σ).runAll before).config = config := config_runAll _ before
  have hpass : o.2.visit config ds name ≠ .pass := by
    intro hpass
    rw [hpass] at hwrites
    exact hwrites
  have htarget := Operation.target_of_visit hpass
  rw [← hconfig] at htarget
  obtain ⟨rows, p, hrun⟩ := run_of_target htarget o.1
  obtain ⟨t, ht⟩ : ∃ t, ((start config : Database σ).runAll (before ++ [o])).store.table? ds name = some t := by
    rw [runAll_concat, table?_after, hconfig]
    cases hv : o.2.visit config ds name with
    | run s => exact ⟨_, rfl⟩
    | append rows => exact ⟨_, rfl⟩
    | pass | define schema | drop =>
        rw [hv] at hwrites
        exact hwrites.elim
  refine ⟨by rw [hrun]; rfl, t, ht, (follows_histories ht).imp fun row history hrow hschema => ?_⟩
  exact ⟨hrow hschema, hrow.contains_of_whole hschema⟩

/-- An update gives the first of two rows back the field that a selection took from it. -/
theorem fields_after_update_of_pruned :
    let clock : Clock := ⟨fun _ => 0⟩
    let before := [(clock, Operation.define "t" ["a", "b", "c"]),
      (clock, .insert "t" [.ofList [("a", .int 1)], .ofList [("a", .int 2)]]),
      (clock, .query "SELECT a FROM t LIMIT 1" none)]
    let o := (clock, Operation.query "UPDATE t SET b = 5, d = 6" none)
    let run := (start .standard : Database Unit).runAll
    let t : Table := ⟨[.ofList [("a", .int 1), ("b", .int 5)],
        .ofList [("a", .int 2), ("b", .int 5), ("c", .null)]],
      ⟨[⟨"a", []⟩, ⟨"b", []⟩, ⟨"c", []⟩]⟩, .start⟩
    let histories := [[.assigned ["b", "d"], .returned ["a"]], [.assigned ["b", "d"]]]
    (o.2.visit .standard .localStore "t").Writes ∧ (o.2.run (run before) o.1).isOk ∧
      (run (before ++ [o])).store.table? .localStore "t" = some t ∧
      (start .standard : Database Unit).histories .localStore "t" [] (before ++ [o]) = histories ∧
      List.Forall₂ (fun row history => t.schema.isEmpty = false →
          (∀ k, row.contains k = (t.schema.contains k && !History.loses k history)) ∧
          (History.Whole history → ∀ k, row.contains k = t.schema.contains k))
        t.rows histories := by
  intro clock before o run t histories
  have hvisit : o.2.visit .standard .localStore "t" =
      .run (.update ⟨⟨none, "t"⟩, [("b", .int 5), ("d", .int 6)], none⟩) := by
    decide +kernel
  have hwrites : (o.2.visit .standard .localStore "t").Writes := by
    rw [hvisit]
    trivial
  have ht : (run (before ++ [o])).store.table? .localStore "t" = some t := by
    decide +kernel
  have hhistories : (start .standard : Database Unit).histories .localStore "t" [] (before ++ [o]) =
      histories := by
    decide +kernel
  obtain ⟨hok, t', ht', hrows⟩ := fields_after_write (σ := Unit) before hwrites
  cases ht.symm.trans ht'
  rw [hhistories] at hrows
  exact ⟨hwrites, hok, ht, hhistories, hrows⟩

/-- A row that a selection took a field from still lacks it after the next row is inserted. -/
theorem pruned_row_after_write :
    let clock : Clock := ⟨fun _ => 0⟩
    let before := [(clock, Operation.define "t" ["a", "b"]),
      (clock, .insert "t" [.ofList [("a", .int 1), ("b", .int 2)]]),
      (clock, .query "SELECT a FROM t" none)]
    let o := (clock, Operation.insert "t" [.ofList [("a", .int 3), ("b", .int 4)]])
    (o.2.visit .standard .localStore "t").Writes ∧
      (o.2.run ((start .standard : Database Unit).runAll before) o.1).isOk ∧
      ∃ t, ((start .standard : Database Unit).runAll (before ++ [o])).store.table? .localStore "t" = some t ∧
        t.schema.isEmpty = false ∧ ∃ row ∈ t.rows, t.schema.contains "b" ∧ row.contains "b" = false := by
  intro clock before o
  have hvisit : o.2.visit .standard .localStore "t" =
      .append [.ofList [("a", .int 3), ("b", .int 4)]] := by
    decide +kernel
  have hok : (o.2.run ((start .standard : Database Unit).runAll before) o.1).isOk := by
    decide +kernel
  have ht : ((start .standard : Database Unit).runAll (before ++ [o])).store.table? .localStore "t" =
      some ⟨[.ofList [("a", .int 1)], .ofList [("a", .int 3), ("b", .int 4)]],
        ⟨[⟨"a", []⟩, ⟨"b", []⟩]⟩, .start⟩ := by
    decide +kernel
  refine ⟨?_, hok, _, ht, rfl, _, List.mem_cons_self, rfl, rfl⟩
  rw [hvisit]
  trivial

end Database
end TableQuery
