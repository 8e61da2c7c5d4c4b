import TableQuery.Proofs.Clause.Resolution
import TableQuery.Proofs.Database.Run
import TableQuery.Proofs.Statement.Gap
import TableQuery.Proofs.Store.Tables
import TableQuery.Proofs.Token.Integer
import TableQuery.Proofs.Value.Coherence

/-! Integers on their way through a database. An integer literal is stored as the integer that it writes and is
compared as that integer, so that no detour over a float shows, however large it is. -/

namespace TableQuery

open Text Token

/-! ### Comparisons of integers -/

namespace Comparator

/-- Whether the comparator holds of two integers. -/
def relates (op : Comparator) (m n : Int) : Bool :=
  match op with
  | .eq => m = n
  | .ne => m ≠ n
  | .lt => m < n
  | .le => m ≤ n
  | .gt => n < m
  | .ge => n ≤ m

theorem tells_compare (op : Comparator) (m n : Int) : op.tells (some (compare m n)) = op.relates m n := by
  rcases lt_trichotomy m n with hlt | rfl | hgt
  · rw [compare_lt_iff_lt.2 hlt]
    cases op <;> simp [tells, accepts, relates] <;> omega
  · rw [compare_eq_iff_eq.2 rfl]
    cases op <;> simp [tells, accepts, relates]
  · rw [compare_gt_iff_gt.2 hgt]
    cases op <;> simp [tells, accepts, relates] <;> omega

end Comparator

/-- Two integers are compared as they are. -/
theorem Term.matches_int {row : Row} {field : String} {m : Int64} (hfield : row.get? field = some (.int m))
    (op : Comparator) (n : Int64) :
    (⟨field, op, .int n⟩ : Term).matches row = op.relates m.toInt n.toInt := by
  rw [matches_eq_tells hfield rfl rfl, ← Comparator.tells_compare]
  rfl

/-! ### The commands -/

namespace IntegerLiteral

variable (l : IntegerLiteral) {n : Int64}

/-- The command that stores the integer in a row of its own. -/
def insertion : String := "INSERT INTO t (a) VALUES (" ++ l.text ++ ")"

/-- The command that selects the rows whose field compares with the integer in this way. -/
def selection (op : Comparator) : String := "SELECT * FROM t WHERE a " ++ op.symbol ++ " " ++ l.text

theorem mem_chars {c : Char} (h : c ∈ l.chars) : c = '-' ∨ c.isDigit := by
  rcases List.mem_append.1 h with hsign | hdigit
  · split at hsign
    · exact Or.inl (List.mem_singleton.1 hsign)
    · cases hsign
  · exact Or.inr (l.isDigit c hdigit)

theorem plain : ∀ c ∈ l.text.toList, Plain c := by
  intro c hc
  rw [text, String.toList_ofList] at hc
  rcases l.mem_chars hc with rfl | hdigit
  · decide
  · exact plain_of_isWordChar (isWordChar_of_isDigit hdigit)

/-- In a gap the literal is the integer that it writes. -/
theorem scan_gap (g : Gap) (hl : l.value = n.toInt) :
    scan (l.text.toList ++ g.tail.toList) = .ok (.number n :: g.after) := by
  have htail : ∀ c ∈ g.tail.toList.head?, isNumberChar c = false := by
    intro c hc
    have hloose := g.isLoose (Or.inr hc)
    simp [isNumberChar, hloose.digit, hloose.point]
  rw [text, String.toList_ofList, (l.reaches htail).scan_eq, g.scan_tail, l.token_eq_number_iff.2 hl.symm]
  rfl

end IntegerLiteral

namespace Gap

/-- The command `INSERT INTO t (a) VALUES (…)`. -/
def stored : Gap where
  front := "INSERT INTO t (a) VALUES ("
  tail := ")"
  before := [.keyword .insertInto, .ident "t", .leftParen, .ident "a", .rightParen, .keyword .values, .leftParen]
  after := [.rightParen, .eof]

theorem plain_end : "".toList.all (Plain ·) := rfl

theorem isLoose_end : "".toList.head?.all (IsLoose ·) := rfl

/-- The command `SELECT * FROM t WHERE a = …`, or with another comparator. -/
def compared (op : Comparator) : Gap where
  front := "SELECT * FROM t WHERE a " ++ op.symbol ++ " "
  tail := ""
  before := [.keyword .select, .star, .keyword .fromTable, .ident "t", .keyword .whereRows, .ident "a", .op op]
  after := [.eof]
  scan_front := by cases op <;> decide +kernel
  scan_tail := scan_nil
  plain_front := by cases op <;> decide
  plain_tail := plain_end
  front_ends := by cases op <;> decide
  tail_starts := isLoose_end

end Gap

namespace Statement

variable {l : IntegerLiteral} {n : Int64}

theorem ofText_insertion_integer (hl : l.value = n.toInt) :
    ofText l.insertion none = .ok (.insert ⟨⟨none, "t"⟩, ["a"], [.int n]⟩) := by
  have htext : l.insertion = Gap.stored.text l.text := rfl
  rw [htext]
  exact Gap.stored.ofText_of_form (.insert ⟨none, "t"⟩ ⟨("a", .number n), []⟩) l.plain
    (l.scan_gap Gap.stored hl) rfl rfl

theorem ofText_selection_integer (op : Comparator) (hl : l.value = n.toInt) :
    ofText (l.selection op) none =
      .ok (.select ⟨.all, ⟨none, "t"⟩, some ⟨[.term ⟨"a", op, .int n⟩]⟩, none, none⟩) := by
  have htext : l.selection op = (Gap.compared op).text l.text := String.append_empty.symm
  rw [htext]
  exact (Gap.compared op).ofText_of_form
    (.select none ⟨none, "t"⟩ (some (.last (.leaf ⟨"a", op, .number n⟩))) none none) l.plain
    (l.scan_gap (Gap.compared op) hl) rfl rfl

end Statement

/-! ### The table with the integer -/

/-- The row that holds the integer. -/
def integerRow (m : Int64) : Row := .ofList [("a", .int m)]

theorem get?_integerRow (m : Int64) : (integerRow m).get? "a" = some (.int m) := rfl

namespace Table

/-- A table without rows and without declared fields. -/
structure IsBare (t : Table) : Prop where
  rows : t.rows = []
  schema : t.schema.isEmpty

variable {t : Table}

theorem IsBare.insert (h : t.IsBare) (clock : Clock) (row : Row) :
    (t.insert clock row).1 = { t with rows := [row] } := by
  have hcomplete : t.schema.complete ⟨row, t.counters, clock⟩ = ⟨row, t.counters, clock⟩ := if_pos h.schema
  simp only [Table.insert, complete, hcomplete, h.rows, List.nil_append]

/-- What is selected by one comparison from a table with one row. -/
theorem select_single {row : Row} (h : t.rows = [row]) (path : TablePath) (term : Term) (mode : ChainMode) :
    (t.select ⟨.all, path, some ⟨[.term term]⟩, none, none⟩ mode).1 =
      if term.matches row then [row] else [] := by
  have hmatch : isMatch (some ⟨[.term term]⟩) mode row = term.matches row := Clause.holds_term term row mode
  cases hterm : term.matches row <;> simp [select, selected, sortRows, matching, h, hmatch, hterm, project]

end Table

namespace Database

variable {σ : Type} [Persistence σ]

/-- The table of this name in the default datastore, or an empty one if there is none. -/
def ownTable (db : Database σ) (name : String) : Table := db.store.tableOrNew db.config.datastore name

/-- The database in which the table holds this row alone. -/
def holding (db : Database σ) (name : String) (row : Row) : Database σ :=
  commit { db with store := db.store.put db.config.datastore name { db.ownTable name with rows := [row] } }

variable {db : Database σ} {l : IntegerLiteral} {m n : Int64}

theorem query_insertion_integer (hbare : (db.ownTable "t").IsBare) (clock : Clock) (hl : l.value = m.toInt) :
    db.query clock l.insertion none = .ok ([integerRow m], db.holding "t" (integerRow m)) := by
  have hplace : db.datastore ⟨none, "t"⟩ = .ok db.config.datastore := rfl
  have hinsert : (db.ownTable "t").insertStatement clock ⟨⟨none, "t"⟩, ["a"], [.int m]⟩ =
      { db.ownTable "t" with rows := [integerRow m] } := hbare.insert clock (integerRow m)
  rw [query, Statement.ofText_insertion_integer hl, ok_bind, execute_eq hplace]
  simp only [Table.run, Statement.table, commits, if_true, ← ownTable.eq_def, hinsert, holding]

theorem query_selection_integer (clock : Clock) (op : Comparator) (hl : l.value = n.toInt) :
    ((db.holding "t" (integerRow m)).query clock (l.selection op) none).map Prod.fst =
      .ok (if op.relates m.toInt n.toInt then [integerRow m] else []) := by
  have hplace : (db.holding "t" (integerRow m)).datastore ⟨none, "t"⟩ = .ok db.config.datastore := rfl
  have htable : (db.holding "t" (integerRow m)).store.tableOrNew db.config.datastore "t" =
      { db.ownTable "t" with rows := [integerRow m] } := Store.tableOrNew_put _ _ _ _
  rw [query, Statement.ofText_selection_integer op hl, ok_bind, execute_eq hplace]
  simp only [Statement.table, htable, Table.run, Except.map]
  rw [Table.select_single rfl, Term.matches_int (get?_integerRow m)]

/-- **Integer literals are exact from the text to the answer.** A literal is read whole wherever the lexer comes
to it, and its token is the integer that it writes exactly if 64 bits hold that, and a float otherwise. Stored
alone and compared with another literal, the integer is found exactly if the two integers compare so. -/
theorem integers_exact (db : Database σ) (clock : Clock) :
    (∀ (l : IntegerLiteral) (text tail : List Char) (before : List Token),
      Reaches (l.chars ++ tail) text before → (∀ c ∈ tail.head?, isNumberChar c = false) →
        Reaches tail text (before ++ [l.token]) ∧ scan text = (scan tail).map (before ++ l.token :: ·)) ∧
    (∀ l : IntegerLiteral, (∀ n : Int64, l.token = .number n ↔ n.toInt = l.value) ∧
      ((∃ n : Int64, l.token = .number n) ↔ -2 ^ 63 ≤ l.value ∧ l.value < 2 ^ 63) ∧
      (¬ (-2 ^ 63 ≤ l.value ∧ l.value < 2 ^ 63) → l.token = .float (.ofInt l.value))) ∧
    ((db.ownTable "t").IsBare → ∀ (l : IntegerLiteral) (m : Int64), l.value = m.toInt →
      ∃ stored, db.query clock l.insertion none = .ok ([integerRow m], stored) ∧
        (integerRow m).get? "a" = some (.int m) ∧
        ∀ (clock' : Clock) (l' : IntegerLiteral) (n : Int64) (op : Comparator), l'.value = n.toInt →
          (stored.query clock' (l'.selection op) none).map Prod.fst =
            .ok (if op.relates m.toInt n.toInt then [integerRow m] else [])) := by
  refine ⟨fun l text tail before hreach htail => ?_, fun l => ⟨fun n => l.token_eq_number_iff,
    l.exists_token_eq_number_iff, l.token_of_not_fits⟩, fun hbare l m hl => ?_⟩
  · have hreaches := hreach.trans (l.reaches htail)
    refine ⟨hreaches, ?_⟩
    rw [hreaches.scan_eq]
    simp only [List.append_assoc, List.singleton_append]
  · exact ⟨_, query_insertion_integer hbare clock hl, get?_integerRow m,
      fun clock' l' n op hl' => query_selection_integer clock' op hl'⟩

/-- The least integer with zeros in front, the first one that is too large, and two neighbours that no float
tells apart. -/
theorem integers_exact_extremes :
    let clock : Clock := ⟨fun _ => 0⟩
    scan "a=-009223372036854775808;".toList =
      .ok [.ident "a", .op .eq, .number (-9223372036854775808), .semicolon, .eof] ∧
    (IntegerLiteral.ofInt 9223372036854775808).token = .float (.ofInt 9223372036854775808) ∧
    ∃ stored, (start .standard : Database Unit).query clock "INSERT INTO t (a) VALUES (9007199254740993)" none =
        .ok ([integerRow 9007199254740993], stored) ∧
      (stored.query clock "SELECT * FROM t WHERE a = 9007199254740992" none).map Prod.fst = .ok [] ∧
      (stored.query clock "SELECT * FROM t WHERE a > 9007199254740992" none).map Prod.fst =
        .ok [integerRow 9007199254740993] := by
  intro clock
  let least : IntegerLiteral := ⟨true, "009223372036854775808".toList, by decide, List.all_eq_true.1 rfl⟩
  have hbare : ((start .standard : Database Unit).ownTable "t").IsBare := ⟨rfl, rfl⟩
  obtain ⟨hread, htokens, hstored⟩ := integers_exact (start .standard : Database Unit) clock
  obtain ⟨stored, hinsertion, -, hselection⟩ :=
    hstored hbare (.ofInt 9007199254740993) 9007199254740993 (IntegerLiteral.value_ofInt _)
  have hselected := fun op => hselection clock (.ofInt 9007199254740992) 9007199254740992 op
    (IntegerLiteral.value_ofInt _)
  refine ⟨?_, ?_, stored, ?_, ?_, ?_⟩
  · have hleast : least.token = .number (-9223372036854775808) := ((htokens least).1 _).2 (by decide +kernel)
    have hfield : take 'a' "=-009223372036854775808;".toList =
        .ok (.ident "a", "=-009223372036854775808;".toList) := by decide +kernel
    have hequals : take '=' "-009223372036854775808;".toList =
        .ok (.op .eq, "-009223372036854775808;".toList) := by decide +kernel
    have hreach : Reaches (least.chars ++ [';']) "a=-009223372036854775808;".toList [.ident "a", .op .eq] :=
      .token rfl hfield (.token rfl hequals .here)
    have hend : scan [';'] = .ok [.semicolon, .eof] := by decide +kernel
    have htail : ∀ c ∈ [';'].head?, isNumberChar c = false := by
      rintro c ⟨⟩
      rfl
    obtain ⟨-, hscan⟩ := hread least _ [';'] _ hreach htail
    rw [hscan, hleast, hend]
    rfl
  · exact (htokens _).2.2 (by rw [IntegerLiteral.value_ofInt]; decide)
  · exact hinsertion
  · exact hselected .eq
  · exact hselected .gt

end Database
end TableQuery
