import TableQuery.Proofs.Database.Run
import TableQuery.Proofs.Schema.Completion
import TableQuery.Proofs.Statement.Insertion
import TableQuery.Proofs.Store.Entries

/-! The two ways to insert a row. The command with placeholders and the insertion of the row itself
find the same table, by two readers of paths, and append the same row, so that they answer alike and
leave the same database; and rows inserted together are rows inserted one after the other. -/

namespace TableQuery

open Text

/-! ### Paths -/

theorem IsIdentifier.isBlank {name : String} (h : IsIdentifier name) :
    ∀ c ∈ name.toList, isBlank c = false := fun c hc => isBlank_of_isWordChar (h.word.all c hc)

theorem IsIdentifier.ne_point {name : String} (h : IsIdentifier name) :
    ∀ c ∈ name.toList, (c != '.') = true := by
  intro c hc
  rw [bne_iff_ne]
  rintro rfl
  exact absurd (h.word.all _ hc) (by decide)

theorem IsIdentifier.toList_ne_nil {name : String} (h : IsIdentifier name) : name.toList ≠ [] := by
  obtain ⟨c, cs, hcs, -⟩ := h.word.start
  rw [hcs]
  exact List.cons_ne_nil c cs

/-- The text of a path of identifiers is read as the path. -/
theorem TablePath.ofText_display {p : TablePath} (hp : p.IsIdentifiers) : ofText p.display = .ok p := by
  obtain ⟨datastore, table⟩ := p
  have htable := hp.table
  cases datastore with
  | none =>
      have htrim := trimChars_eq_self htable.isBlank
      have hdrop : table.toList.dropWhile (· != '.') = [] :=
        List.dropWhile_eq_nil_iff.2 htable.ne_point
      have hne : table.toList.isEmpty = false := List.isEmpty_eq_false_iff.2 htable.toList_ne_nil
      simp only [ofText, display, htrim, hdrop, hne, String.ofList_toList]
      rfl
  | some datastore =>
      have hdatastore := hp.datastore datastore rfl
      have hpoint : ".".toList = ['.'] := String.toList_ofList
      have hdisplay : (display ⟨some datastore, table⟩).toList = datastore.toList ++ '.' :: table.toList := by
        rw [display, String.toList_append, String.toList_append, hpoint, List.append_assoc]
        rfl
      have hblank : ∀ c ∈ datastore.toList ++ '.' :: table.toList, isBlank c = false := by
        rw [List.forall_mem_append, List.forall_mem_cons]
        exact ⟨hdatastore.isBlank, by decide, htable.isBlank⟩
      have htrim := trimChars_eq_self hblank
      have hdrop : (datastore.toList ++ '.' :: table.toList).dropWhile (· != '.') = '.' :: table.toList := by
        rw [List.dropWhile_append_of_pos hdatastore.ne_point, List.dropWhile_cons_of_neg (by decide)]
      have htake : (datastore.toList ++ '.' :: table.toList).takeWhile (· != '.') = datastore.toList := by
        rw [List.takeWhile_append_of_pos hdatastore.ne_point, List.takeWhile_cons_of_neg (by decide),
          List.append_nil]
      have hne : table.toList.isEmpty = false := List.isEmpty_eq_false_iff.2 htable.toList_ne_nil
      have hne' : datastore.toList.isEmpty = false :=
        List.isEmpty_eq_false_iff.2 hdatastore.toList_ne_nil
      simp only [ofText, hdisplay, htrim, hdrop, htake, hne, hne', String.ofList_toList]
      rfl

/-! ### Readings of the clock -/

/-- The readings after the first `n`. -/
def Clock.skip (n : Nat) (c : Clock) : Clock := ⟨fun k => c.reading (k + n)⟩

theorem Clock.skip_skip (m n : Nat) (c : Clock) : (c.skip m).skip n = c.skip (m + n) := by
  have hreading : ∀ k, c.reading (k + n + m) = c.reading (k + (m + n)) := by
    intro k
    rw [Nat.add_assoc, Nat.add_comm n m]
  exact congrArg Clock.mk (funext hreading)

/-- How many timestamps a row is given. -/
def Schema.stamps (s : Schema) : Nat := s.acts.countP fun a => a.2 = .timestamp

theorem Draft.clock_foldl_act (acts : List (String × Behavior)) (d : Draft) :
    (acts.foldl Draft.act d).clock = d.clock.skip (acts.countP fun a => a.2 = .timestamp) := by
  induction acts generalizing d with
  | nil => rfl
  | cons a acts ih =>
      have hact : (d.act a).clock = d.clock.skip (if a.2 = .timestamp then 1 else 0) := by
        obtain ⟨field, behavior⟩ := a
        cases behavior <;> rfl
      rw [List.foldl_cons, ih, hact, Clock.skip_skip, List.countP_cons, Nat.add_comm]
      simp only [decide_eq_true_eq]

/-- An insertion takes a reading for each timestamp. -/
theorem Table.clock_insert (t : Table) (clock : Clock) (row : Row) :
    (t.insert clock row).2 = clock.skip t.schema.stamps := by
  show (t.schema.complete ⟨row, t.counters, clock⟩).clock = _
  cases hempty : t.schema.isEmpty with
  | true =>
      have hstamps : t.schema.stamps = 0 := by
        rw [Schema.stamps, Schema.acts, List.isEmpty_iff.1 hempty]
        rfl
      rw [Schema.complete, if_pos hempty, hstamps]
      rfl
  | false => rw [Schema.complete_eq hempty, Draft.clock_foldl_act]; rfl

/-! ### One row -/

namespace Insertion

/-- The row of an insertion has the last value given for each column. -/
theorem row_eq {i : Insertion} {row : Row}
    (h : ∀ c, row.get? c = (i.columns.zip i.values).reverse.lookup c) : row = i.row := by
  apply Dict.ext_get?
  intro c
  rw [h, Insertion.row, Dict.get?_ofList]

end Insertion

namespace Database

variable {σ : Type} [Persistence σ] {path : TablePath}

omit [Persistence σ] in
theorem resolve_display (db : Database σ) (hpath : path.IsIdentifiers) :
    db.resolve path.display = (db.datastore path).map fun ds => (ds, path.table) := by
  rw [resolve, TablePath.ofText_display hpath]
  cases h : db.datastore path <;> simp [h, Except.map]

theorem insert_eq {db : Database σ} {ds : Datastore} (hpath : path.IsIdentifiers)
    (hds : db.datastore path = .ok ds) (clock : Clock) (rows : List Row) :
    db.insert clock path.display rows =
      let table := ((db.store.tableOrNew ds path.table).insertAll clock rows).1
      .ok (table.rows, commit { db with store := db.store.put ds path.table table }) := by
  rw [insert, resolve_display db hpath, hds]
  rfl

theorem insert_error {db : Database σ} {err : QueryError} (hpath : path.IsIdentifiers)
    (hds : db.datastore path = .error err) (clock : Clock) (rows : List Row) :
    db.insert clock path.display rows = .error err := by
  rw [insert, resolve_display db hpath, hds]
  rfl

omit [Persistence σ] in
theorem datastore_error {db : Database σ} {err : QueryError} (h : db.datastore path = .error err) :
    ∃ name, err = .unknownDatastore name := by
  rw [datastore] at h
  split at h
  next name _ =>
    rw [Datastore.ofName] at h
    split at h
    · cases h
    · cases h
      exact ⟨name, rfl⟩
  · cases h

theorem query_insertion (db : Database σ) (clock : Clock) (i : Insertion) (hpath : path.IsIdentifiers) :
    db.query clock (i.text path.display) (some (.positional i.values)) =
      db.insert clock path.display [i.row] := by
  rw [query, i.ofText_text hpath, ok_bind]
  cases hds : db.datastore path with
  | error err =>
      rw [insert_error hpath hds, execute]
      rw [show (Statement.insert ⟨path, i.columns, i.values⟩).table = path from rfl, hds]
      rfl
  | ok ds =>
      rw [insert_eq hpath hds, execute_eq (s := .insert ⟨path, i.columns, i.values⟩) hds]
      rfl

/-! ### Several rows -/

/-- Commands that insert one row each, every one with the readings of the clock that the earlier ones
have left. -/
def insertions (path : TablePath) (stamps : Nat) (clock : Clock) : List Insertion → List (Clock × Operation)
  | [] => []
  | i :: is => (clock, .query (i.text path.display) (some (.positional i.values))) ::
      insertions path stamps (clock.skip stamps) is

/-- How many timestamps a row is given in the table at this path. -/
def stampsAt (db : Database σ) (path : TablePath) : Nat :=
  match db.datastore path with
  | .ok ds => (db.store.tableOrNew ds path.table).schema.stamps
  | .error _ => 0

theorem store_insertions {db : Database σ} {ds : Datastore} (hpath : path.IsIdentifiers)
    (hds : db.datastore path = .ok ds) (clock : Clock) {is : List Insertion} (hne : is ≠ []) :
    (db.runAll (insertions path (db.store.tableOrNew ds path.table).schema.stamps clock is)).store =
      db.store.put ds path.table
        ((db.store.tableOrNew ds path.table).insertAll clock (is.map Insertion.row)).1 := by
  induction is generalizing db clock with
  | nil => exact absurd rfl hne
  | cons i is ih =>
      have hafter : db.after (clock, .query (i.text path.display) (some (.positional i.values))) =
          commit ⟨db.store.put ds path.table ((db.store.tableOrNew ds path.table).insert clock i.row).1,
            db.config, db.persistence⟩ := by
        rw [after, Operation.run, query_insertion db clock i hpath, insert_eq hpath hds]
        rfl
      rw [insertions, runAll_cons, hafter, List.map_cons, Table.insertAll_cons, Table.clock_insert]
      cases is with
      | nil => rfl
      | cons i' is =>
          generalize hdb' : commit ⟨db.store.put ds path.table
            ((db.store.tableOrNew ds path.table).insert clock i.row).1, db.config, db.persistence⟩ = db'
          have hstore : db'.store = db.store.put ds path.table
              ((db.store.tableOrNew ds path.table).insert clock i.row).1 := by
            rw [← hdb']
            rfl
          have hds' : db'.datastore path = .ok ds := by
            rw [← hds, ← hdb']
            rfl
          have hothers := ih hds' (clock.skip (db.store.tableOrNew ds path.table).schema.stamps)
            (List.cons_ne_nil _ _)
          rw [hstore, Store.tableOrNew_put, Table.insert_schema, Store.put_put] at hothers
          exact hothers

theorem runAll_insertions_error {db : Database σ} {err : QueryError} (hpath : path.IsIdentifiers)
    (hds : db.datastore path = .error err) (stamps : Nat) (clock : Clock) (is : List Insertion) :
    db.runAll (insertions path stamps clock is) = db := by
  induction is generalizing clock with
  | nil => rfl
  | cons i is ih =>
      have hafter : db.after (clock, .query (i.text path.display) (some (.positional i.values))) = db := by
        rw [after, Operation.run, query_insertion db clock i hpath, insert_error hpath hds]
      rw [insertions, runAll_cons, hafter, ih]

/-- **A command that inserts a row does what the insertion of the row does, and rows inserted together
leave the store that the commands leave one after the other.** -/
theorem insertion_paths_agree (db : Database σ) (clock : Clock) (path : TablePath)
    (hpath : path.IsIdentifiers) :
    (∀ (i : Insertion) (row : Row), (∀ c, row.get? c = (i.columns.zip i.values).reverse.lookup c) →
      db.query clock (i.text path.display) (some (.positional i.values)) =
          db.insert clock path.display [row] ∧
        ∀ err, db.insert clock path.display [row] = .error err → ∃ name, err = .unknownDatastore name) ∧
    ∀ is : List Insertion, is ≠ [] →
      (db.after (clock, .insert path.display (is.map Insertion.row))).store =
        (db.runAll (insertions path (db.stampsAt path) clock is)).store := by
  constructor
  · intro i row hrow
    rw [Insertion.row_eq hrow]
    refine ⟨query_insertion db clock i hpath, fun err herr => ?_⟩
    cases hds : db.datastore path with
    | error err' =>
        rw [insert_error hpath hds] at herr
        cases herr
        exact datastore_error hds
    | ok ds =>
        rw [insert_eq hpath hds] at herr
        cases herr
  · intro is hne
    cases hds : db.datastore path with
    | error err =>
        rw [runAll_insertions_error hpath hds, after, Operation.run, insert_error hpath hds]
    | ok ds =>
        rw [stampsAt, hds, store_insertions hpath hds clock hne, after, Operation.run, insert_eq hpath hds]
        rfl

/-- A note whose title is given twice. -/
def noteInsertion : Insertion where
  columns := ["title", "order", "title"]
  values := [.text "it's ?", .int 1, .null]
  columns_ne_nil := by decide
  identifiers := by
    simp only [List.forall_mem_cons]
    exact ⟨isIdentifier_of_isAlpha (by decide) rfl rfl,
      isIdentifier_of_isAlpha (by decide) rfl rfl,
      isIdentifier_of_isAlpha (by decide) rfl rfl, List.forall_mem_nil _⟩
  length_eq := rfl

theorem note_insertions_agree :
    let db : Database Snapshot := start .standard
    let clock : Clock := ⟨fun _ => 0⟩
    let path : TablePath := ⟨some "session", "notes"⟩
    let row : Row := .ofList [("order", .int 1), ("title", .null)]
    db.query clock (noteInsertion.text path.display) (some (.positional noteInsertion.values)) =
        db.insert clock path.display [row] ∧
      (db.after (clock, .insert path.display [noteInsertion.row, noteInsertion.row])).store =
        (db.runAll (insertions path (db.stampsAt path) clock [noteInsertion, noteInsertion])).store := by
  intro db clock path row
  have hpath : path.IsIdentifiers := by
    refine ⟨show IsIdentifier "notes" from isIdentifier_of_isAlpha (by decide) rfl rfl, ?_⟩
    rintro name ⟨⟩
    exact isIdentifier_of_isAlpha (by decide) rfl rfl
  have hrow : ∀ c, row.get? c = (noteInsertion.columns.zip noteInsertion.values).reverse.lookup c := by
    have hsame : row = noteInsertion.row := by decide
    intro c
    rw [hsame, Insertion.row, Dict.get?_ofList]
  exact ⟨((insertion_paths_agree db clock path hpath).1 noteInsertion row hrow).1,
    (insertion_paths_agree db clock path hpath).2 [noteInsertion, noteInsertion] (List.cons_ne_nil _ _)⟩

end Database
end TableQuery
