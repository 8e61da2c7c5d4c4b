import TableQuery.Proofs.Clause.Resolution
import TableQuery.Proofs.Database.Sorter
import TableQuery.Proofs.Value.Amount

/-! Limits. A selection with a value in the place of its limit is refused unless the value is a number of rows
or passes for one. Otherwise it returns as many of the rows that match as the value allows. -/

namespace TableQuery

/-! ### How many rows are selected -/

namespace Table

variable {t : Table} {s : Select} {mode : ChainMode}

theorem length_arrangement (t : Table) (condition : Option Clause) (order : Option SortOrder) (mode : ChainMode) :
    (t.arrangement condition order mode).length = (t.rows.filter (isMatch condition mode)).length := by
  rw [arrangement, List.length_map, (sortRows_perm order _).length_eq, ← map_fst_matching, List.length_map]

theorem length_select {n : Nat} (h : s.limit = some n) :
    (t.select s mode).1.length = min (t.rows.filter (isMatch s.condition mode)).length n := by
  rw [(returns_select t s mode).length_answer, selected_positions, h, Option.elim_some, List.length_take,
    length_arrangement, Nat.min_comm]

end Table

/-! ### Commands with a limit -/

/-- The form is this selection with this value in the place of its limit. -/
inductive Form.LimitedBy (v : Value) : Form Value → Select → Prop
  | select (columns : Option (Listing String)) (table : TablePath) (condition : Option (Chain (Comparison Value)))
      (order : Option WrittenOrder) : LimitedBy v (.select columns table condition order (some v))
        ⟨selectedColumns columns, table, conditionClause condition, order.map WrittenOrder.order, none⟩

/-- The command is this selection, and this value stands behind its `LIMIT`, written there or bound to a
placeholder. -/
def LimitedBy (text : String) (subs : Option Substitutions) (s : Select) (v : Value) : Prop :=
  ∃ (e : Extraction) (d : Derivation), Extraction.ofText text subs = .ok e ∧ Token.scan e.text = .ok d.tokens ∧
    (d.form.map (Scalar.value e)).LimitedBy v s

section Limited

variable {text : String} {subs : Option Substitutions} {s : Select} {v : Value}

theorem LimitedBy.ofText_eq (h : LimitedBy text subs s v) : Statement.ofText text subs =
    (readLimit (some v)).map fun limit => .select { s with limit } := by
  obtain ⟨e, d, he, hscan, hform⟩ := h
  rw [Statement.ofText, he, ok_bind, hscan, ok_bind, d.ofTokens_tokens, Derivation.statement]
  generalize d.form.map (Scalar.value e) = form at hform
  cases hform
  rfl

theorem LimitedBy.accepted (h : LimitedBy text subs s v) (hv : v.IsCount) :
    Statement.ofText text subs = .ok (.select { s with limit := some v.rowCount }) := by
  rw [h.ofText_eq, readLimit, Value.limit?_of_isCount hv]
  rfl

theorem LimitedBy.refused (h : LimitedBy text subs s v) (hv : ¬ v.IsCount) :
    Statement.ofText text subs = .error (.malformed (.limit v)) := by
  rw [h.ofText_eq, readLimit, Value.limit?_of_not_isCount hv]
  rfl

theorem LimitedBy.exists_iff (h : LimitedBy text subs s v) :
    (∃ statement, Statement.ofText text subs = .ok statement) ↔ v.IsCount := by
  constructor
  · rintro ⟨statement, hread⟩
    by_contra hv
    rw [h.refused hv] at hread
    cases hread
  · exact fun hv => ⟨_, h.accepted hv⟩

end Limited

/-- Every value can be bound to the placeholder of a limit. -/
theorem limitedBy_placeholder (v : Value) :
    LimitedBy "SELECT * FROM t LIMIT ?" (some (.positional [v])) ⟨.all, ⟨none, "t"⟩, none, none, none⟩ v := by
  let d : Derivation := ⟨.select none ⟨none, "t"⟩ none none (some (.word "_LIT1_")), false⟩
  have he : Extraction.ofText "SELECT * FROM t LIMIT ?" (some (.positional [v])) =
      .ok ⟨"SELECT * FROM t LIMIT _LIT1_".toList, [v]⟩ := by
    cbv
  have hscan : Token.scan "SELECT * FROM t LIMIT _LIT1_".toList = .ok d.tokens := by
    decide +kernel
  exact ⟨_, d, he, hscan, .select none ⟨none, "t"⟩ none none⟩

/-- What is read and answered where this value limits a selection. -/
structure LimitRead (text : String) (subs : Option Substitutions) (s : Select) (v : Value) : Prop where
  /-- The limit of what is read is the value without its fraction. -/
  accepted : v.IsAmount ∨ v.PassesForAmount →
    Statement.ofText text subs = .ok (.select { s with limit := some v.rowCount })
  refused : ¬ (v.IsAmount ∨ v.PassesForAmount) → Statement.ofText text subs = .error (.malformed (.limit v))
  /-- Exactly the numbers of rows are accepted, unless the value only passes for one. -/
  amounts_iff : ((∃ statement, Statement.ofText text subs = .ok statement) ↔ v.IsAmount) ↔ ¬ v.PassesForAmount
  /-- As many of the rows that match are returned as the limit allows, whatever the sort is, if the rows that
  are sorted are in a consistent order. -/
  answered : v.IsAmount ∨ v.PassesForAmount → ∀ {σ : Type} [Persistence σ] (db : Database σ) (clock : Clock)
    (ds : Datastore), db.datastore s.table = .ok ds → db.Sortable text subs → ∃ rows after,
      db.query clock text subs = .ok (rows, after) ∧
      (∀ sorter : Sorter, sorter.query db clock text subs = some (.ok (rows, after))) ∧
      rows.length = min ((db.store.tableOrNew ds s.table.table).rows.filter
        (Table.isMatch s.condition db.config.mode)).length v.rowCount

/-- **A limit is a number of rows, or a value that passes for one.** Every value can stand in its place, and a
value that is neither is refused. -/
theorem limit_read (v : Value) :
    (∀ text subs s, LimitedBy text subs s v → LimitRead text subs s v) ∧
    LimitedBy "SELECT * FROM t LIMIT ?" (some (.positional [v])) ⟨.all, ⟨none, "t"⟩, none, none, none⟩ v := by
  refine ⟨fun text subs s h => ?_, limitedBy_placeholder v⟩
  constructor
  case accepted => exact fun hv => h.accepted (Value.isCount_iff.2 hv)
  case refused => exact fun hv => h.refused (mt Value.isCount_iff.1 hv)
  case amounts_iff =>
    rw [h.exists_iff, Value.isCount_iff, or_iff_left_iff_imp]
    constructor
    · exact fun hall hpasses => (hall hpasses).not_passesForAmount hpasses
    · exact fun hnone hpasses => absurd hpasses hnone
  case answered =>
    intro hv σ _ db clock ds hds hsortable
    have hquery : ∃ after, db.query clock text subs = .ok (((db.store.tableOrNew ds s.table.table).select
        { s with limit := some v.rowCount } db.config.mode).1, after) := by
      rw [Database.query, h.accepted (Value.isCount_iff.2 hv), ok_bind, Database.execute_eq hds]
      exact ⟨_, rfl⟩
    obtain ⟨after, hquery⟩ := hquery
    refine ⟨_, after, hquery, fun sorter => ?_, Table.length_select rfl⟩
    rw [Sorter.query_of_sortable hsortable, hquery]

/-- A quoted text with a fraction cuts three rows down to two, and a negative limit is refused. -/
theorem limit_read_fraction :
    let row (n : Int64) : Row := .ofList [("a", .int n)]
    let db : Database Unit := { (Database.start .standard : Database Unit) with
      store := Store.empty.put .localStore "t" { Table.empty with rows := [row 1, row 2, row 3, row 4] } }
    let clock : Clock := ⟨fun _ => 0⟩
    let text := "SELECT * FROM t WHERE a > 1 ORDER BY a DESC LIMIT ' 2.9 ';"
    db.Sortable text none ∧
    (∃ rows after, db.query clock text none = .ok (rows, after) ∧
      (∀ sorter : Sorter, sorter.query db clock text none = some (.ok (rows, after))) ∧ rows.length = min 3 2) ∧
    Statement.ofText "SELECT * FROM t LIMIT ?" (some (.positional [.int (-1)])) =
      .error (.malformed (.limit (.int (-1)))) := by
  intro row db clock text
  obtain ⟨hread, -⟩ := limit_read (.text " 2.9 ")
  obtain ⟨hrefused, hplaceholder⟩ := limit_read (.int (-1))
  let term : Term := ⟨"a", .gt, .int 1⟩
  let d : Derivation :=
    ⟨.select none ⟨none, "t"⟩ (some (.last (.leaf ⟨"a", .gt, .number 1⟩))) (some ⟨⟨"a", []⟩, some .descending⟩)
      (some (.word "_LIT1_")), true⟩
  have he : Extraction.ofText text none =
      .ok ⟨"SELECT * FROM t WHERE a > 1 ORDER BY a DESC LIMIT _LIT1_;".toList, [.text " 2.9 "]⟩ := by
    cbv
  have hscan : Token.scan "SELECT * FROM t WHERE a > 1 ORDER BY a DESC LIMIT _LIT1_;".toList = .ok d.tokens := by
    decide +kernel
  have hlimited : LimitedBy text none
      ⟨.all, ⟨none, "t"⟩, some ⟨[.term term]⟩, some ⟨["a"], .descending⟩, none⟩ (.text " 2.9 ") :=
    ⟨_, d, he, hscan, .select none ⟨none, "t"⟩ (some (.last (.leaf ⟨"a", .gt, .int 1⟩))) _⟩
  have hcount : (Value.text " 2.9 ").IsCount := ⟨by decide +kernel, by decide +kernel⟩
  have htwo : (Value.text " 2.9 ").rowCount = 2 := Value.rowCount_of_limit? (by decide +kernel)
  have hrows : (db.store.tableOrNew .localStore "t").rows.filter
      (Table.isMatch (some ⟨[.term term]⟩) db.config.mode) = [row 2, row 3, row 4] := by
    have hmatch : ∀ r, Table.isMatch (some ⟨[.term term]⟩) db.config.mode r = term.matches r := by
      intro r
      exact Clause.holds_term term r db.config.mode
    rw [List.filter_congr fun r _ => hmatch r]
    decide +kernel
  have hsortable : db.Sortable text none := by
    intro s ds hs hds
    rw [hlimited.accepted hcount] at hs
    cases hs
    cases hds
    exact hrows ▸ (by decide +kernel : Table.Sortable (some ⟨["a"], .descending⟩) [row 2, row 3, row 4])
  refine ⟨hsortable, ?_, ?_⟩
  · have hanswer := (hread _ _ _ hlimited).answered (Value.isCount_iff.1 hcount) db clock .localStore rfl hsortable
    rwa [htwo, hrows] at hanswer
  · have hnegative : ¬ (Value.int (-1)).IsCount := mt Value.isCount_int_iff.1 (by decide)
    exact (hrefused _ _ _ hplaceholder).refused (mt Value.isCount_iff.2 hnegative)

/-- Null is no number of rows, but it is taken for one. -/
theorem null_taken_for_limit :
    Statement.ofText "SELECT * FROM t LIMIT null" none =
      .ok (.select ⟨.all, ⟨none, "t"⟩, none, none, some 0⟩) ∧
    ¬ ∀ text subs s v, LimitedBy text subs s v →
      ((∃ statement, Statement.ofText text subs = .ok statement) ↔ v.IsAmount) := by
  let d : Derivation := ⟨.select none ⟨none, "t"⟩ none none (some (.word "null")), false⟩
  have he : Extraction.ofText "SELECT * FROM t LIMIT null" none =
      .ok ⟨"SELECT * FROM t LIMIT null".toList, []⟩ := by
    cbv
  have hscan : Token.scan "SELECT * FROM t LIMIT null".toList = .ok d.tokens := by
    decide +kernel
  have hlimited : LimitedBy "SELECT * FROM t LIMIT null" none ⟨.all, ⟨none, "t"⟩, none, none, none⟩ .null :=
    ⟨_, d, he, hscan, .select none ⟨none, "t"⟩ none none⟩
  have hzero : Value.null.rowCount = 0 := Value.rowCount_of_limit? (by decide +kernel)
  have hread := hlimited.accepted (Value.PassesForAmount.isCount .null)
  rw [hzero] at hread
  refine ⟨hread, fun hclaim => ?_⟩
  have hamount := (hclaim _ _ _ _ hlimited).1 ⟨_, hread⟩
  cases hamount

end TableQuery
