import TableQuery.Proofs.Clause.Fields
import TableQuery.Proofs.Database.Run
import TableQuery.Proofs.Statement.RoundTrip
import TableQuery.Proofs.Store.Entries
import TableQuery.Proofs.Table.Selection

/-! Selections that can be repeated. The first run takes fields out of the rows that it returns, the very
rows that the next run filters and sorts. As long as every field that is compared or sorted by is listed,
filtering and sorting see no difference, whether a row was returned or cut off by the limit. -/

namespace TableQuery

open Text

/-- Every field that the condition compares or the order sorts by is among the columns. -/
def Select.ListsTested (s : Select) : Prop :=
  ∀ field ∈ conditionNames s.condition ++ orderNames s.order, s.columns.lists field

namespace Table

variable {s : Select} {mode : ChainMode}

/-! ### Rows that agree in what is tested -/

/-- The two rows have the same values in these fields. -/
def AgreeIn (fields : List String) (a b : Row) : Prop := ∀ field ∈ fields, a.get? field = b.get? field

theorem isMatch_congr {condition : Option Clause} {a b : Row} (h : AgreeIn (conditionNames condition) a b) :
    isMatch condition mode a = isMatch condition mode b := by
  cases condition with
  | none => rfl
  | some c =>
      refine Clause.holds_congr (fun t ht => h t.field ?_) mode
      exact List.mem_flatMap.2 ⟨.term t, ht, List.mem_singleton_self _⟩

theorem compareRows_congr {d : Direction} {columns : List String} {a a' b b' : Row}
    (ha : AgreeIn columns a a') (hb : AgreeIn columns b b') :
    compareRows d a b columns = compareRows d a' b' columns := by
  induction columns with
  | nil => rfl
  | cons c columns ih =>
      obtain ⟨hac, ha⟩ := List.forall_mem_cons.1 ha
      obtain ⟨hbc, hb⟩ := List.forall_mem_cons.1 hb
      rw [compareRows, compareRows, hac, hbc, ih ha hb]

/-! ### Selecting from changed rows -/

section Changed

variable {rows : List Row} {f : Row × Nat → Row}

theorem zipIdx_map_zipIdx (rows : List Row) (f : Row × Nat → Row) :
    (rows.zipIdx.map f).zipIdx = rows.zipIdx.map fun r => (f r, r.2) := by
  refine List.ext_getElem? fun i => ?_
  rw [List.getElem?_zipIdx, getElem?_map_zipIdx, getElem?_map_zipIdx, Option.map_map, Nat.zero_add]
  rfl

theorem matching_changed {condition : Option Clause}
    (h : ∀ r, AgreeIn (conditionNames condition) (f r) r.1) :
    matching (rows.zipIdx.map f) condition mode =
      (matching rows condition mode).map fun r => (f r, r.2) := by
  rw [matching, zipIdx_map_zipIdx, List.filter_map]
  refine congrArg _ (List.filter_congr fun r _ => ?_)
  exact isMatch_congr (h r)

theorem sortRows_changed {order : Option SortOrder} (h : ∀ r, AgreeIn (orderNames order) (f r) r.1)
    (placed : List (Row × Nat)) :
    sortRows order (placed.map fun r => (f r, r.2)) =
      (sortRows order placed).map fun r => (f r, r.2) := by
  cases order with
  | none => rfl
  | some o =>
      refine (List.map_mergeSort fun x _ y _ => ?_).symm
      have hcompare : compareRows o.direction (f x) (f y) o.columns =
          compareRows o.direction x.1 y.1 o.columns := compareRows_congr (h x) (h y)
      rw [hcompare]

/-- Rows that are changed in no tested field are selected at the same positions. -/
theorem selected_changed
    (h : ∀ r, AgreeIn (conditionNames s.condition ++ orderNames s.order) (f r) r.1) :
    selected (rows.zipIdx.map f) s mode = (selected rows s mode).map fun r => (f r, r.2) := by
  have hcondition : ∀ r, AgreeIn (conditionNames s.condition) (f r) r.1 :=
    fun r field hfield => h r field (List.mem_append_left _ hfield)
  have horder : ∀ r, AgreeIn (orderNames s.order) (f r) r.1 :=
    fun r field hfield => h r field (List.mem_append_right _ hfield)
  rw [selected, selected, matching_changed hcondition, sortRows_changed horder]
  cases s.limit with
  | none => rfl
  | some n => exact List.map_take.symm

end Changed

/-! ### The second run -/

theorem project_project (columns : Columns) (row : Row) :
    project columns (project columns row) = project columns row := by
  refine Dict.ext_get? fun field => ?_
  simp only [get?_project]
  split <;> rfl

theorem agreeIn_keep (h : s.ListsTested) (positions : List Nat) (r : Row × Nat) :
    AgreeIn (conditionNames s.condition ++ orderNames s.order) (keep s.columns positions r) r.1 := by
  intro field hfield
  rw [keep]
  split
  · rw [get?_project, if_pos (h field hfield)]
  · rfl

theorem project_keep (columns : Columns) (positions : List Nat) (r : Row × Nat) :
    project columns (keep columns positions r) = project columns r.1 := by
  rw [keep]
  split
  · exact project_project columns r.1
  · rfl

theorem keep_keep (columns : Columns) (positions : List Nat) (r : Row × Nat) :
    keep columns positions (keep columns positions r, r.2) = keep columns positions r := by
  by_cases hr : positions.contains r.2
  · rw [keep, if_pos hr, project_keep, keep, if_pos hr]
  · rw [keep, if_neg hr]

theorem select_select (t : Table) (h : s.ListsTested) : (t.select s mode).2.select s mode = t.select s mode := by
  let positions := (selected t.rows s mode).map Prod.snd
  have hselected : selected (t.rows.zipIdx.map (keep s.columns positions)) s mode =
      (selected t.rows s mode).map fun r => (keep s.columns positions r, r.2) :=
    selected_changed (agreeIn_keep h positions)
  rw [← select_rows] at hselected
  have hpositions : (selected (t.select s mode).2.rows s mode).map Prod.snd =
      (selected t.rows s mode).map Prod.snd := by
    rw [hselected, List.map_map]
    rfl
  refine Prod.ext ?_ ?_
  · show (selected (t.select s mode).2.rows s mode).map (fun r => project s.columns r.1) = _
    rw [hselected, List.map_map]
    exact List.map_congr_left fun r _ => project_keep s.columns _ r
  · have hrows : ((t.select s mode).2.select s mode).2.rows = (t.select s mode).2.rows := by
      rw [select_rows, hpositions, select_rows, zipIdx_map_zipIdx, List.map_map]
      exact List.map_congr_left fun r _ => keep_keep s.columns _ r
    exact congrArg (fun rows => Table.mk rows t.schema t.counters) hrows

end Table

namespace Database

variable {σ : Type} [Persistence σ] {db after : Database σ} {s : Select}

theorem execute_select {ds : Datastore} (h : db.datastore s.table = .ok ds) (clock : Clock) :
    db.execute clock (.select s) =
      let t := db.store.tableOrNew ds s.table.table
      .ok ((t.select s db.config.mode).1,
        { db with store := db.store.put ds s.table.table (t.select s db.config.mode).2 }) :=
  execute_eq (s := .select s) h clock

/-- A selection that has been run leaves the database as it is when it is run again, and has the same
answer. -/
theorem execute_select_select (h : s.ListsTested) {clock : Clock} {rows : List Row}
    (hrun : db.execute clock (.select s) = .ok (rows, after)) (clock' : Clock) :
    after.execute clock' (.select s) = .ok (rows, after) := by
  cases hds : db.datastore s.table with
  | error err =>
      have hrefused : db.execute clock (.select s) = .error err := by
        rw [execute, show db.datastore (Statement.select s).table = .error err from hds]
        rfl
      rw [hrefused] at hrun
      cases hrun
  | ok ds =>
      rw [execute_select hds] at hrun
      cases hrun
      rw [execute_select (by exact hds)]
      simp only [Store.tableOrNew_put, Table.select_select _ h, Store.put_put]

end Database

namespace Table

/-- The score and the name of the row with the highest score above one. -/
def bestScore : Select :=
  ⟨.names ["score", "name"], ⟨none, "t"⟩, some ⟨[.term ⟨"score", .gt, .int 1⟩]⟩,
    some ⟨["score"], .descending⟩, some 1⟩

theorem ofText_bestScore : Statement.ofText
    "SELECT score , name FROM t WHERE score > 1 ORDER BY score DESC LIMIT 1" none =
    .ok (.select bestScore) := by
  have hnames : NamesIn (Form.select (some ⟨"score", ["name"]⟩) ⟨none, "t"⟩
      (some (.last (.leaf ⟨"score", .gt, Supplied.int 1⟩))) (some ⟨⟨"score", []⟩, some .descending⟩)
      (some (.int 1))).symbols := by
    intro name hname
    have hor : name = "score" ∨ name = "name" ∨ name = "t" ∨ name = "score" := by
      simpa [Form.symbols, columnsSymbols, Listing.symbols, nameSymbols, TablePath.symbols, conditionSymbols,
        Chain.pieces, Operand.pieces, Piece.symbols, Comparison.symbols, orderSymbols, directionSymbols,
        limitSymbols] using hname
    rcases hor with rfl | rfl | rfl | rfl
    all_goals exact .of_isAlpha (by decide) (List.all_eq_true.1 rfl) rfl rfl
  refine Statement.ofText_of_layout hnames ⟨rfl, fun name v hmem => ?_⟩ ?_
  · have hvalues : Supplied.named name v ∈ [Supplied.int 1, Supplied.int 1] := hmem
    simp at hvalues
  show Layout Written _ ([] ++ ("SELECT".toList ++ ([' '] ++ ("score".toList ++ ([' '] ++ ([','] ++
    ([' '] ++ ("name".toList ++ ([' '] ++ ("FROM".toList ++ ([' '] ++ ("t".toList ++ ([' '] ++
    ("WHERE".toList ++ ([' '] ++ ("score".toList ++ ([' '] ++ (">".toList ++ ([' '] ++ ("1".toList ++
    ([' '] ++ (("ORDER".toList ++ ([' '] ++ "BY".toList)) ++ ([' '] ++ ("score".toList ++ ([' '] ++
    ("DESC".toList ++ ([' '] ++ ("LIMIT".toList ++ ([' '] ++ ("1".toList ++ []))))))))))))))))))))))))))))))
  have hblank := isBlank_of_mem_space
  refine .sign (List.forall_mem_nil _) (.keyword (.single rfl rfl)) (parted_space _) ?_
  refine .sign hblank (.ident "score") (parted_space _) ?_
  refine .sign hblank (.mark rfl) (parted_space _) ?_
  refine .sign hblank (.ident "name") (parted_space _) ?_
  refine .sign hblank (.keyword (.single rfl rfl)) (parted_space _) ?_
  refine .sign hblank (.ident "t") (parted_space _) ?_
  refine .sign hblank (.keyword (.single rfl rfl)) (parted_space _) ?_
  refine .sign hblank (.ident "score") (parted_space _) ?_
  refine .sign hblank (.op .gt) (parted_space _) ?_
  refine .value hblank (.int 1) (parted_space _) ?_
  refine .sign hblank (.keyword (.compound rfl rfl hblank (List.cons_ne_nil _ _) rfl)) (parted_space _) ?_
  refine .sign hblank (.ident "score") (parted_space _) ?_
  refine .sign hblank (.keyword (.single rfl rfl)) (parted_space _) ?_
  refine .sign hblank (.keyword (.single rfl rfl)) (parted_space _) ?_
  exact .value hblank (.int 1) parted_nil (.nil (List.forall_mem_nil _))

/-- **A selection that lists every field which it compares or sorts by can be repeated.** The second run
returns the same rows and leaves the table as the first one did, and so it is for the text of a command on
a database. -/
theorem selection_repeats (s : Select) (h : s.ListsTested) :
    (∀ (t : Table) (mode : ChainMode), (t.select s mode).2.select s mode = t.select s mode) ∧
      ∀ {σ : Type} [Persistence σ] (db after : Database σ) (clock clock' : Clock) (text : String)
        (subs : Option Substitutions) (rows : List Row), Statement.ofText text subs = .ok (.select s) →
        db.query clock text subs = .ok (rows, after) → after.query clock' text subs = .ok (rows, after) := by
  refine ⟨fun t mode => select_select t h, ?_⟩
  intro σ _ db after clock clock' text subs rows htext hrun
  rw [Database.query, htext, ok_bind] at hrun ⊢
  exact Database.execute_select_select h hrun clock'

/-- The first run takes the field `note` out of the row that it returns, which the second run finds again;
the row behind the limit is not changed. -/
theorem selection_repeats_best_score :
    let row (name note : String) (score : Int64) : Row :=
      .ofList [("name", .text name), ("note", .text note), ("score", .int score)]
    let t : Table := ⟨[row "a" "x" 1, row "b" "y" 5, row "c" "z" 3], .empty, .start⟩
    let text := "SELECT score , name FROM t WHERE score > 1 ORDER BY score DESC LIMIT 1"
    let best : List Row := [.ofList [("name", .text "b"), ("score", .int 5)]]
    let db : Database Journal := { Database.start .standard with store := Store.empty.put .localStore "t" t }
    let clock : Clock := ⟨fun _ => 0⟩
    bestScore.ListsTested ∧ (t.select bestScore .sequential).1 = best ∧
      (t.select bestScore .sequential).2.select bestScore .sequential = t.select bestScore .sequential ∧
      ∃ after, db.query clock text none = .ok (best, after) ∧ after.query clock text none = .ok (best, after) := by
  intro row t text best db clock
  have hlists : bestScore.ListsTested := by
    intro field hfield
    have hscore : field = "score" := by
      simpa [bestScore, conditionNames, orderNames, ClausePart.names] using hfield
    rw [hscore]
    decide
  have hbest : (t.select bestScore .sequential).1 = best := by cbv
  have hrun : db.query clock text none = .ok (best,
      { db with store := db.store.put .localStore "t" (t.select bestScore .sequential).2 }) := by
    rw [Database.query, ofText_bestScore, ok_bind, Database.execute_select (by rfl), ← hbest]
    rfl
  obtain ⟨hrepeats, hquery⟩ := selection_repeats bestScore hlists
  exact ⟨hlists, hbest, hrepeats t .sequential, _, hrun,
    hquery db _ clock clock text none best ofText_bestScore hrun⟩

end Table
end TableQuery
