import TableQuery.Proofs.Database.Place
import TableQuery.Proofs.Store.Entries

/-! Operations on different tables. What an operation answers, does to its table and commits depends on
the table at its place alone, so that two operations on different tables leave each other's table as it
is and can change places. -/

namespace TableQuery

namespace Operation

/-- The place that an operation is about. -/
def place (config : Configuration) : Operation → Except QueryError (Datastore × String)
  | .query text subs => do config.place (← Statement.ofText text subs).table
  | .insert path _ => config.placeOfText path
  | .define path _ => config.placeOfText path
  | .drop path => config.placeOfText path

end Operation

/-- What an operation comes to at its place: its answer, the table that it leaves there, if any, and
whether it commits. -/
structure Outcome where
  rows : List Row
  table : Option Table
  commits : Bool

/-- The outcome of an operation, given the table at its place. -/
def Operation.outcome (config : Configuration) (clock : Clock) (t : Option Table) :
    Operation → Except QueryError Outcome
  | .query text subs => do
    let s ← Statement.ofText text subs
    let r := (t.getD .empty).run clock config.mode s
    pure ⟨r.1, some r.2, Database.commits s⟩
  | .insert _ rows =>
    let t := ((t.getD .empty).insertAll clock rows).1
    .ok ⟨t.rows, some t, true⟩
  | .define _ fields =>
    match t with
    | some t => .ok ⟨[], some t, false⟩
    | none => (Schema.ofTexts fields).map fun schema => ⟨[], some (.ofSchema schema), true⟩
  | .drop _ => .ok ⟨[], none, true⟩

namespace Store

theorem ext_table? {s s' : Store} (h : ∀ ds name, s.table? ds name = s'.table? ds name) : s = s' := by
  obtain ⟨localTables, sessionTables⟩ := s
  obtain ⟨localTables', sessionTables'⟩ := s'
  have hlocal : localTables = localTables' := Dict.ext_get? (h .localStore)
  have hsession : sessionTables = sessionTables' := Dict.ext_get? (h .sessionStore)
  rw [hlocal, hsession]

/-- The order in which two places are set does not show. -/
theorem set_comm {ds ds' : Datastore} {name name' : String} (h : (ds, name) ≠ (ds', name')) (s : Store)
    (t t' : Option Table) :
    (s.set ds name t).set ds' name' t' = (s.set ds' name' t').set ds name t := by
  refine ext_table? fun ds'' name'' => ?_
  simp only [table?_set]
  by_cases hleft : (ds, name) = (ds'', name'')
  · rw [if_pos hleft, if_pos hleft, if_neg fun hright => h (hleft.trans hright.symm)]
  · rw [if_neg hleft, if_neg hleft]

end Store

variable {σ : Type} [Persistence σ]

namespace Database

/-- The database after an operation with this outcome at a place. -/
def withOutcome (db : Database σ) (place : Datastore × String) (o : Outcome) : Database σ :=
  let after := { db with store := db.store.set place.1 place.2 o.table }
  if o.commits then after.commit else after

theorem withOutcome_store (db : Database σ) (place : Datastore × String) (o : Outcome) :
    (db.withOutcome place o).store = db.store.set place.1 place.2 o.table := by
  rw [withOutcome]
  cases o.commits <;> rfl

theorem withOutcome_config (db : Database σ) (place : Datastore × String) (o : Outcome) :
    (db.withOutcome place o).config = db.config := by
  rw [withOutcome]
  cases o.commits <;> rfl

theorem count_withOutcome {count : σ → Nat} (hcount : ∀ store p, count (Persistence.commit store p) = count p + 1)
    (db : Database σ) (place : Datastore × String) (o : Outcome) :
    count (db.withOutcome place o).persistence = count db.persistence + o.commits.toNat := by
  rw [withOutcome]
  cases o.commits with
  | false => rfl
  | true => exact hcount _ _

/-- **An operation comes to what its outcome at its place says.** -/
theorem run_eq (db : Database σ) (clock : Clock) (op : Operation) :
    op.run db clock = op.place db.config >>= fun place =>
      (op.outcome db.config clock (db.store.table? place.1 place.2)).map fun o =>
        (o.rows, db.withOutcome place o) := by
  cases op with
  | query text subs =>
      rw [Operation.run, query, Operation.place]
      cases hs : Statement.ofText text subs with
      | error err => rfl
      | ok s =>
          simp only [ok_bind, place_eq, Operation.outcome, hs]
          cases hds : db.datastore s.table with
          | error err =>
              rw [execute, hds]
              rfl
          | ok ds =>
              rw [execute_eq hds]
              rfl
  | insert path rows =>
      rw [Operation.run, insert, resolve_eq, Operation.place]
      cases db.config.placeOfText path <;> rfl
  | define path fields =>
      rw [Operation.run, Operation.place]
      cases hplace : db.config.placeOfText path with
      | error err =>
          rw [define, resolve_eq, hplace]
          rfl
      | ok place =>
          rw [define_eq ((resolve_eq db path).trans hplace), ok_bind]
          cases htable : db.store.table? place.1 place.2 with
          | some t =>
              have hstore : db.store.set place.1 place.2 (some t) = db.store := Store.put_of_table? htable
              have hafter : db.withOutcome place ⟨[], some t, false⟩ = db :=
                congrArg (Database.mk · db.config db.persistence) hstore
              exact congrArg (fun after => Except.ok ([], after)) hafter.symm
          | none =>
              rw [Operation.outcome]
              cases Schema.ofTexts fields <;> rfl
  | drop path =>
      rw [Operation.run, drop, resolve_eq, Operation.place]
      cases db.config.placeOfText path <;> rfl

/-- An operation that succeeds has an outcome at its place. -/
theorem exists_outcome {db : Database σ} {clock : Clock} {op : Operation} {place : Datastore × String}
    {r : List Row × Database σ} (hplace : op.place db.config = .ok place) (h : op.run db clock = .ok r) :
    ∃ o, op.outcome db.config clock (db.store.table? place.1 place.2) = .ok o ∧
      r = (o.rows, db.withOutcome place o) := by
  rw [run_eq, hplace, ok_bind] at h
  obtain ⟨o, ho, rfl⟩ := map_eq_ok_iff.1 h
  exact ⟨o, ho, rfl⟩

/-- The tables at other places stay. -/
theorem table?_withOutcome_of_ne (db : Database σ) {place : Datastore × String} (o : Outcome) {ds : Datastore}
    {name : String} (h : place ≠ (ds, name)) :
    (db.withOutcome place o).store.table? ds name = db.store.table? ds name := by
  rw [withOutcome_store, Store.table?_set]
  exact if_neg h

/-- What happens at another place changes nothing for an operation. -/
theorem run_withOutcome {db : Database σ} {clock : Clock} {op : Operation} {place other : Datastore × String}
    {o : Outcome} (hplace : op.place db.config = .ok place) (hne : other ≠ place)
    (ho : op.outcome db.config clock (db.store.table? place.1 place.2) = .ok o) (o' : Outcome) :
    op.run (db.withOutcome other o') clock = .ok (o.rows, (db.withOutcome other o').withOutcome place o) := by
  rw [run_eq, withOutcome_config, hplace, ok_bind, table?_withOutcome_of_ne db o' hne, ho]
  rfl

/-- **Two operations that succeed on different tables are independent.** Each leaves every table but its
own as it was, and in either order both succeed with the same answers, leave the same store and commit
as often. -/
theorem independent_of_ne {db : Database σ} {a b : Operation} {placeA placeB : Datastore × String}
    (clockA clockB : Clock) {ra rb : List Row × Database σ} (hplaceA : a.place db.config = .ok placeA)
    (hplaceB : b.place db.config = .ok placeB) (hne : placeA ≠ placeB) (ha : a.run db clockA = .ok ra)
    (hb : b.run db clockB = .ok rb) :
    (∀ ds name, (ds, name) ≠ placeA → ra.2.store.table? ds name = db.store.table? ds name) ∧
    (∀ ds name, (ds, name) ≠ placeB → rb.2.store.table? ds name = db.store.table? ds name) ∧
    ∃ ab ba : Database σ, b.run ra.2 clockB = .ok (rb.1, ab) ∧ a.run rb.2 clockA = .ok (ra.1, ba) ∧
      ab.store = ba.store ∧ ∀ count : σ → Nat,
        (∀ store p, count (Persistence.commit store p) = count p + 1) →
          count ab.persistence = count ba.persistence := by
  obtain ⟨oa, hoa, rfl⟩ := exists_outcome hplaceA ha
  obtain ⟨ob, hob, rfl⟩ := exists_outcome hplaceB hb
  refine ⟨fun ds name h => table?_withOutcome_of_ne db oa h.symm,
    fun ds name h => table?_withOutcome_of_ne db ob h.symm, (db.withOutcome placeA oa).withOutcome placeB ob,
    (db.withOutcome placeB ob).withOutcome placeA oa, run_withOutcome hplaceB hne hob oa,
    run_withOutcome hplaceA hne.symm hoa ob, ?_, fun count hcount => ?_⟩
  · simp only [withOutcome_store]
    exact Store.set_comm hne _ _ _
  · simp only [count_withOutcome hcount]
    omega

/-- Tables of one name in the two datastores: a selection takes a field from the one while the other is
dropped. -/
theorem independent_selection_and_drop :
    let clock : Clock := ⟨fun _ => 0⟩
    let row : Row := .ofList [("a", .int 1), ("b", .int 2)]
    let db := (start .standard : Database Snapshot).runAll
      [(clock, .insert "t" [row]), (clock, .insert "session.t" [row, row])]
    let a := Operation.query "SELECT a FROM SESSION.t LIMIT 1" none
    let b := Operation.drop " t "
    a.place db.config = .ok (.sessionStore, "t") ∧ b.place db.config = .ok (.localStore, "t") ∧
      ∃ ra rb, a.run db clock = .ok ra ∧ b.run db clock = .ok rb ∧
        ∃ ab ba : Database Snapshot, b.run ra.2 clock = .ok (rb.1, ab) ∧
          a.run rb.2 clock = .ok (ra.1, ba) ∧ ab.store = ba.store ∧
          ab.persistence.commits = ba.persistence.commits := by
  intro clock row db a b
  have hplaceA : a.place db.config = .ok (.sessionStore, "t") := by
    decide +kernel
  have hplaceB : b.place db.config = .ok (.localStore, "t") := by
    decide +kernel
  have hsucceeds : (a.run db clock).isOk ∧ (b.run db clock).isOk := by
    decide +kernel
  cases ha : a.run db clock with
  | error err =>
      rw [ha] at hsucceeds
      cases hsucceeds.1
  | ok ra =>
      cases hb : b.run db clock with
      | error err =>
          rw [hb] at hsucceeds
          cases hsucceeds.2
      | ok rb =>
          obtain ⟨-, -, ab, ba, hab, hba, hstore, hcount⟩ :=
            independent_of_ne clock clock hplaceA hplaceB (by decide) ha hb
          exact ⟨hplaceA, hplaceB, ra, rb, rfl, rfl, ab, ba, hab, hba, hstore,
            hcount Snapshot.commits fun _ _ => rfl⟩

end Database
end TableQuery
