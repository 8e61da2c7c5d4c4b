import TableQuery.Proofs.Database.Run
import TableQuery.Proofs.Statement.RoundTrip
import TableQuery.Proofs.Store.Selection

/-! Which changes of a store are committed: those of every operation but a selection, which creates its
table and takes the fields that it does not list from the rows that it returns. The last commit shows
the store as it is exactly if no selection has changed it since. -/

namespace TableQuery

open Text

variable {σ : Type} [Persistence σ]

/-- The statement changes the store and does not commit it: it is a selection that creates its table or
returns a row of which it keeps only a part. -/
def Statement.Silent (db : Database σ) : Statement → Prop
  | .select s => ∃ ds, db.datastore s.table = .ok ds ∧
    ∀ t, db.store.table? ds s.table.table = some t → t.Prunes s db.config.mode
  | _ => False

def Operation.Silent (db : Database σ) : Operation → Prop
  | .query text subs => ∃ s, Statement.ofText text subs = .ok s ∧ s.Silent db
  | _ => False

namespace Database

/-! ### One operation -/

/-- What an operation can do to a database. -/
inductive Effect (db : Database σ) (silent : Prop) : Database σ → Prop
  | none (h : ¬ silent) : Effect db silent db
  | commit (store : Store) (h : ¬ silent) : Effect db silent (commit { db with store })
  | silent {store : Store} (h : silent) (hages : db.store.Ages store) : Effect db silent { db with store }

theorem effect_select (db : Database σ) (s : Select) {ds : Datastore}
    (hds : db.datastore s.table = .ok ds) :
    let table := ((db.store.tableOrNew ds s.table.table).select s db.config.mode).2
    Effect db (Statement.Silent db (.select s)) { db with store := db.store.put ds s.table.table table } := by
  intro table
  by_cases hprunes : ∀ t, db.store.table? ds s.table.table = some t → t.Prunes s db.config.mode
  · exact .silent ⟨ds, hds, hprunes⟩ (Store.ages_put_select hprunes)
  · have hstore : db.store.put ds s.table.table table = db.store :=
      not_not.1 fun hne => hprunes ((Store.put_select_ne_iff _ _ _ s _).1 hne)
    rw [hstore]
    refine .none ?_
    rintro ⟨ds', hds', hprunes'⟩
    rw [hds] at hds'
    cases hds'
    exact hprunes hprunes'

theorem effect_execute {db db' : Database σ} {clock : Clock} {s : Statement} {rows : List Row}
    (h : db.execute clock s = .ok (rows, db')) : Effect db (s.Silent db) db' := by
  cases hds : db.datastore s.table with
  | error err =>
      rw [execute, hds] at h
      cases h
  | ok ds =>
      rw [execute_eq hds] at h
      cases s with
      | select s =>
          cases h
          exact effect_select db s hds
      | insert s | update s | delete s =>
          cases h
          exact .commit _ id

/-- **Every operation that succeeds has one of the effects.** -/
theorem effect_run {db db' : Database σ} {clock : Clock} {op : Operation} {rows : List Row}
    (h : op.run db clock = .ok (rows, db')) : Effect db (op.Silent db) db' := by
  cases op with
  | query text subs =>
      obtain ⟨s, hs, h⟩ := bind_eq_ok_iff.1 h
      have hsilent : (Operation.query text subs).Silent db ↔ s.Silent db := by
        constructor
        · rintro ⟨s', hs', hsilent⟩
          rw [hs] at hs'
          cases hs'
          exact hsilent
        · exact fun hsilent => ⟨s, hs, hsilent⟩
      rw [hsilent]
      exact effect_execute h
  | insert path rows =>
      obtain ⟨⟨ds, name⟩, -, h⟩ := bind_eq_ok_iff.1 h
      cases h
      exact .commit _ id
  | define path fields =>
      obtain ⟨after, h, heq⟩ := map_eq_ok_iff.1 h
      cases heq
      obtain ⟨⟨ds, name⟩, -, h⟩ := bind_eq_ok_iff.1 h
      cases htable : db.store.table? ds name with
      | some t =>
          simp only [htable] at h
          cases h
          exact .none id
      | none =>
          simp only [htable] at h
          obtain ⟨defs, -, h⟩ := bind_eq_ok_iff.1 h
          obtain ⟨schema, -, h⟩ := bind_eq_ok_iff.1 h
          cases h
          exact .commit _ id
  | drop path =>
      obtain ⟨after, h, heq⟩ := map_eq_ok_iff.1 h
      cases heq
      obtain ⟨⟨ds, name⟩, -, h⟩ := bind_eq_ok_iff.1 h
      cases h
      exact .commit _ id

/-- A silent operation succeeds. -/
theorem exists_run_of_silent {db : Database σ} {op : Operation} (clock : Clock) (h : op.Silent db) :
    ∃ r, op.run db clock = .ok r := by
  cases op with
  | query text subs =>
      obtain ⟨s, hs, h⟩ := h
      cases s with
      | select s =>
          obtain ⟨ds, hds, -⟩ := h
          exact ⟨_, bind_eq_ok_iff.2 ⟨_, hs, execute_eq (s := .select s) hds clock⟩⟩
      | insert s | update s | delete s => cases h
  | insert path rows => cases h
  | define path fields => cases h
  | drop path => cases h

theorem effect_after (db : Database σ) (o : Clock × Operation) :
    Effect db (o.2.Silent db) (db.after o) := by
  cases h : o.2.run db o.1 with
  | error err =>
      rw [after, h]
      refine .none fun hsilent => ?_
      obtain ⟨r, hr⟩ := exists_run_of_silent o.1 hsilent
      rw [h] at hr
      cases hr
  | ok r =>
      rw [after, h]
      exact effect_run h

/-- None of the operations is silent. -/
def Heard (db : Database σ) : List (Clock × Operation) → Prop
  | [] => True
  | o :: ops => ¬ o.2.Silent db ∧ (db.after o).Heard ops

theorem heard_concat {db : Database σ} {ops : List (Clock × Operation)} {o : Clock × Operation} :
    db.Heard (ops ++ [o]) ↔ db.Heard ops ∧ ¬ o.2.Silent (db.runAll ops) := by
  induction ops generalizing db with
  | nil => exact and_comm
  | cons o' ops ih => exact (and_congr_right fun _ => ih).trans and_assoc.symm

/-! ### The journal -/

section Journal

variable {db db' : Database Journal} {silent : Prop}

/-- The store was committed as it stands afterwards. -/
def Committed (db db' : Database Journal) : Prop :=
  db'.persistence.stores = db'.store :: db.persistence.stores

theorem not_committed (h : db'.persistence = db.persistence) : ¬ Committed db db' := by
  intro hcommitted
  rw [Committed, h] at hcommitted
  exact List.cons_ne_self _ _ hcommitted.symm

/-- A change is committed unless the operation is silent. -/
theorem Effect.committed_iff (h : Effect db silent db') :
    (db'.store ≠ db.store → Committed db db') ↔ ¬ silent := by
  cases h with
  | none h => exact iff_of_true (fun hne => absurd rfl hne) h
  | commit store h => exact iff_of_true (fun _ => rfl) h
  | silent h hages =>
      exact iff_of_false (fun hcommitted => not_committed rfl (hcommitted hages.ne.symm)) (not_not_intro h)

/-- The last commit shows the store as it is. -/
def UpToDate (db : Database Journal) : Prop := db.persistence.stores.head? = some db.store

theorem Committed.upToDate (h : Committed db db') : UpToDate db' := by
  rw [UpToDate, h]
  rfl

theorem Effect.committed_or_eq (h : Effect db silent db') (hsilent : ¬ silent) :
    Committed db db' ∨ db' = db := by
  cases h with
  | none => exact Or.inr rfl
  | commit => exact Or.inl rfl
  | silent h => exact absurd h hsilent

theorem UpToDate.runAll {ops : List (Clock × Operation)} (h : UpToDate db) (hops : db.Heard ops) :
    UpToDate (db.runAll ops) := by
  induction ops generalizing db with
  | nil => exact h
  | cons o ops ih =>
      refine ih ?_ hops.2
      rcases (effect_after db o).committed_or_eq hops.1 with hcommitted | heq
      · exact hcommitted.upToDate
      · rw [heq]
        exact h

/-- The last commit shows the store as it is, or as it was before selections changed it. -/
def Trails (db : Database Journal) : Prop :=
  ∀ store, db.persistence.stores.head? = some store → store = db.store ∨ store.Ages db.store

theorem Effect.trails (h : Effect db silent db') (hdb : Trails db) : Trails db' := by
  cases h with
  | none => exact hdb
  | commit =>
      intro store hstore
      cases hstore
      exact Or.inl rfl
  | silent h hages =>
      intro store hstore
      rcases hdb store hstore with rfl | hold
      · exact Or.inr hages
      · exact Or.inr (hold.trans hages)

theorem trails_runAll (config : Configuration) (ops : List (Clock × Operation)) :
    Trails ((start config).runAll ops) := by
  induction ops using List.reverseRecOn with
  | nil =>
      intro store hstore
      cases hstore
  | append_singleton ops o ih =>
      rw [runAll_concat]
      exact (effect_after _ o).trails ih

theorem Effect.not_upToDate (h : Effect db silent db') (hsilent : silent) (hdb : Trails db) :
    ¬ UpToDate db' := by
  cases h with
  | none h => exact absurd hsilent h
  | commit store h => exact absurd hsilent h
  | silent h hages =>
      -- The store is older than the last commit, and a store is not older than itself.
      intro hdate
      rcases hdb _ hdate with hstore | hold
      · exact hages.ne hstore.symm
      · exact (hold.trans hages).ne rfl

/-- The last commit shows the store as it is exactly if no operation after it was silent. -/
theorem upToDate_runAll_iff (config : Configuration) (ops : List (Clock × Operation)) :
    UpToDate ((start config).runAll ops) ↔ ∃ earlier o later, ops = earlier ++ o :: later ∧
      Committed ((start config).runAll earlier) ((start config).runAll (earlier ++ [o])) ∧
        ((start config : Database Journal).runAll (earlier ++ [o])).Heard later := by
  constructor
  · intro h
    induction ops using List.reverseRecOn with
    | nil => cases h
    | append_singleton ops o ih =>
        rw [runAll_concat] at h
        have heffect := effect_after ((start config : Database Journal).runAll ops) o
        by_cases hsilent : o.2.Silent ((start config : Database Journal).runAll ops)
        · exact absurd h (heffect.not_upToDate hsilent (trails_runAll config ops))
        · rcases heffect.committed_or_eq hsilent with hcommitted | heq
          · rw [← runAll_concat] at hcommitted
            exact ⟨ops, o, [], rfl, hcommitted, trivial⟩
          · rw [heq] at h
            obtain ⟨earlier, c, later, hops, hcommitted, hlater⟩ := ih h
            refine ⟨earlier, c, later ++ [o], ?_, hcommitted, heard_concat.2 ⟨hlater, ?_⟩⟩
            · rw [hops, List.append_assoc, List.cons_append]
            · rw [← runAll_append, ← List.append_cons, ← hops]
              exact hsilent
  · rintro ⟨earlier, o, later, rfl, hcommitted, hlater⟩
    rw [List.append_cons, runAll_append]
    exact hcommitted.upToDate.runAll hlater

end Journal

theorem latest_replay (j : Journal) :
    (j.replay : Snapshot).latest = j.stores.head?.map Store.render := by
  obtain ⟨stores⟩ := j
  cases stores <;> rfl

/-- **A change goes uncommitted exactly if the operation is silent, and the last commit shows the store
as it is exactly if no operation after it was silent.** -/
theorem change_committed_iff (config : Configuration) (before : List (Clock × Operation))
    (o : Clock × Operation) :
    let run := (start config : Database Journal).runAll
    let snapshot := (start config : Database Snapshot).runAll (before ++ [o])
    (((run (before ++ [o])).store ≠ (run before).store → Committed (run before) (run (before ++ [o]))) ↔
      ¬ o.2.Silent (run before)) ∧
    (UpToDate (run (before ++ [o])) ↔ ∃ earlier c later, before ++ [o] = earlier ++ c :: later ∧
      Committed (run earlier) (run (earlier ++ [c])) ∧ (run (earlier ++ [c])).Heard later) ∧
    (UpToDate (run (before ++ [o])) → snapshot.persistence.latest = some snapshot.store.render) := by
  intro run snapshot
  refine ⟨?_, upToDate_runAll_iff config (before ++ [o]), fun h => ?_⟩
  · rw [show run (before ++ [o]) = (run before).after o from runAll_concat _ before o]
    exact (effect_after (run before) o).committed_iff
  · have hsnapshot : snapshot = (run (before ++ [o])).mapPersistence Journal.replay :=
      runAll_replay config (before ++ [o])
    rw [hsnapshot]
    have hlatest := latest_replay (run (before ++ [o])).persistence
    rw [h] at hlatest
    exact hlatest

theorem ofText_select_one : Statement.ofText "SELECT a FROM t" none =
    .ok (.select ⟨.names ["a"], ⟨none, "t"⟩, none, none, none⟩) := by
  have hnames : NamesIn (Form.select (ν := Supplied) (some ⟨"a", []⟩) ⟨none, "t"⟩ none none none).symbols := by
    intro name hname
    have hmem : Symbol.sign (.ident name) ∈ [.sign (.keyword .select), .sign (.ident "a"),
        .sign (.keyword .fromTable), .sign (.ident "t")] := hname
    have hor : name = "a" ∨ name = "t" := by simpa using hmem
    rcases hor with rfl | rfl
    all_goals exact .of_isAlpha (by decide) (List.all_eq_true.1 rfl) rfl rfl
  refine Statement.ofText_of_layout hnames ⟨rfl, fun _ _ h => by cases h⟩ ?_
  show Layout Written _ ([] ++ ("SELECT".toList ++ ([' '] ++ ("a".toList ++ ([' '] ++ ("FROM".toList ++
    ([' '] ++ ("t".toList ++ []))))))))
  have hblank := isBlank_of_mem_space
  refine .sign (List.forall_mem_nil _) (.keyword (.single rfl rfl)) (parted_space _) ?_
  refine .sign hblank (.ident "a") (parted_space _) ?_
  refine .sign hblank (.keyword (.single rfl rfl)) (parted_space _) ?_
  exact .sign hblank (.ident "t") parted_nil (.nil (List.forall_mem_nil _))

/-- A selection of one of two columns takes the other one from the stored row, and nothing is committed. -/
theorem pruned_row_not_committed :
    let clock : Clock := ⟨fun _ => 0⟩
    let before := [(clock, Operation.insert "t" [.ofList [("a", .int 1), ("b", .int 2)]])]
    let o := (clock, Operation.query "SELECT a FROM t" none)
    let run := (start .standard : Database Journal).runAll
    (run (before ++ [o])).store ≠ (run before).store ∧
      ¬ Committed (run before) (run (before ++ [o])) := by
  intro clock before o run
  have hstore : (run before).store.table? .localStore "t" =
      some { Table.empty with rows := [.ofList [("a", .int 1), ("b", .int 2)]] } := by
    decide
  have hsilent : o.2.Silent (run before) := by
    refine ⟨_, ofText_select_one, .localStore, rfl, fun t ht => ?_⟩
    rw [hstore] at ht
    cases ht
    exact ⟨(.ofList [("a", .int 1), ("b", .int 2)], 0), by decide, by decide⟩
  have heffect := effect_after (run before) o
  rw [← runAll_concat] at heffect
  exact Classical.not_imp.1 (mt heffect.committed_iff.1 (not_not_intro hsilent))

end Database
end TableQuery
