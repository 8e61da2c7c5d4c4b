import TableQuery.Proofs.Clause.Resolution
import TableQuery.Proofs.Number.Exact
import TableQuery.Proofs.Number.Spelling
import TableQuery.Proofs.Statement.RoundTrip
import TableQuery.Database

/-! Integers in quotes. An integer and a text are equal if the number nearest to the integer is the one
that the text spells, so that the digits of an integer equal every integer with the same nearest number. A
removal by a quoted integer takes out the rows of all of them, and one by the bare integer its own rows. -/

namespace TableQuery

open Text Token

/-! ### An integer and its digits -/

namespace Value

variable {m n : Int64}

theorem toNumber_digits (n : Int64) : (Value.text (Value.int n).display).toNumber = .ofInt n.toInt := by
  rw [toNumber, display, String.toList_ofList, Number.spelled?_ofInt, Option.getD_some]

theorem looseEq_digits_iff :
    (Value.int m).looseEq (.text (Value.int n).display) ↔ Binary64.ofInt m.toInt = .ofInt n.toInt := by
  have hnumbers : (Value.int m).looseEq (.text (Value.int n).display) =
      (Binary64.ofInt m.toInt).numEq (.ofInt n.toInt) := congrArg (Binary64.numEq _) (toNumber_digits n)
  rw [hnumbers, Binary64.numEq_ofInt_iff (natAbs_toInt_le m) (natAbs_toInt_le n)]

end Value

/-! ### Removals by one comparison -/

/-- The removal of the rows of a table in which a field equals a value. -/
def Delete.equal (table field : String) (v : Value) : Delete :=
  ⟨⟨none, table⟩, some ⟨[.term ⟨field, .eq, v⟩]⟩⟩

theorem isMatch_equal (table field : String) (v : Value) (mode : ChainMode) (row : Row) :
    Table.isMatch (Delete.equal table field v).condition mode row = (⟨field, .eq, v⟩ : Term).matches row :=
  Clause.holds_term ⟨field, .eq, v⟩ row mode

/-- No row holds anything but integers under the field. -/
def IntegersOnly (field : String) (rows : List Row) : Prop :=
  ∀ row ∈ rows, ∀ v, row.get? field = some v → ∃ m, v = .int m

/-- Whether the row holds an integer under the field that has the same nearest number as `n`. -/
def holdsNear (field : String) (n : Int64) (row : Row) : Bool :=
  match row.get? field with
  | some (.int m) => Binary64.ofInt m.toInt = .ofInt n.toInt
  | _ => false

section Rows

variable {field : String} {n : Int64} {rows : List Row} {row : Row}

theorem holdsNear_of_int {m : Int64} (h : row.get? field = some (.int m)) :
    holdsNear field n row = decide (Binary64.ofInt m.toInt = .ofInt n.toInt) := by
  rw [holdsNear, h]

theorem matches_digits (h : IntegersOnly field rows) (hrow : row ∈ rows) :
    (⟨field, .eq, .text (Value.int n).display⟩ : Term).matches row = holdsNear field n row := by
  cases hget : row.get? field with
  | none => simp [Term.matches, holdsNear, hget, Value.isNull]
  | some v =>
      obtain ⟨m, rfl⟩ := h row hrow v hget
      rw [Bool.eq_iff_iff, holdsNear_of_int hget, decide_eq_true_iff, ← Value.looseEq_digits_iff]
      simp only [Term.matches, hget]

theorem matches_integer (h : IntegersOnly field rows) (hrow : row ∈ rows) :
    (⟨field, .eq, .int n⟩ : Term).matches row = (row.get? field == some (.int n)) := by
  cases hget : row.get? field with
  | none => simp [Term.matches, hget, Value.isNull]
  | some v =>
      obtain ⟨m, rfl⟩ := h row hrow v hget
      rw [Bool.eq_iff_iff]
      simp [Term.matches, hget, Value.looseEq]

end Rows

/-! ### The text of a removal -/

/-- The command that removes the rows of a table in which a field equals a value that is written so. -/
def removalText (table field written : String) : String :=
  "DELETE FROM " ++ table ++ " WHERE " ++ field ++ " = " ++ written

/-- The digits of an integer in quotes. -/
def quotedDigits (n : Int64) : String := "'" ++ (Value.int n).display ++ "'"

theorem escaped_of_plain {quote : Char} {cs : List Char} (h : ∀ c ∈ cs, c ≠ '\\' ∧ c ≠ quote) :
    escaped quote cs = cs := by
  induction cs with
  | nil => rfl
  | cons c cs ih =>
      obtain ⟨hc, hcs⟩ := List.forall_mem_cons.1 h
      rw [escaped, List.flatMap_cons, if_neg (not_or.2 hc), List.singleton_append]
      exact congrArg (c :: ·) (ih hcs)

theorem written_digits (n : Int64) : Written (.text '\'' (Value.int n).display) (quotedDigits n).toList := by
  have hdigits : ∀ c ∈ (Value.int n).display.toList, c ≠ '\\' ∧ c ≠ '\'' := by
    intro c hc
    rw [Value.display, String.toList_ofList] at hc
    constructor
    · rintro rfl
      exact absurd (mem_chars_ofInt hc) (by decide)
    · rintro rfl
      exact absurd (mem_chars_ofInt hc) (by decide)
  have hwritten : Written (.text '\'' (Value.int n).display)
      ('\'' :: escaped '\'' (Value.int n).display.toList ++ ['\'']) := .text rfl (Value.int n).display
  rw [escaped_of_plain hdigits] at hwritten
  have hquote : "'".toList = ['\''] := String.toList_ofList
  rwa [quotedDigits, String.toList_append, String.toList_append, hquote, List.append_assoc]

theorem written_integer (n : Int64) : Written (.int n) (Value.int n).display.toList := by
  rw [Value.display, String.toList_ofList]
  exact .int n

theorem ofText_removal {table field written : String} {x : Supplied} (htable : IsName table)
    (hfield : IsName field) (hx : Written x written.toList) (hfill : Substitutions.Fill none [x]) :
    Statement.ofText (removalText table field written) none = .ok (.delete (.equal table field x.value)) := by
  have hnames : NamesIn (Form.delete ⟨none, table⟩ (some (.last (.leaf ⟨field, .eq, x⟩)))).symbols := by
    intro name hname
    have hmem : name = table ∨ name = field := by
      simpa [Form.symbols, TablePath.symbols, conditionSymbols, Chain.pieces, Operand.pieces, Piece.symbols,
        Comparison.symbols] using hname
    rcases hmem with rfl | rfl
    · exact htable
    · exact hfield
  have hlayout : Layout Written (Form.delete ⟨none, table⟩ (some (.last (.leaf ⟨field, .eq, x⟩)))).symbols
      (removalText table field written).toList := by
    have hdelete : "DELETE FROM ".toList = "DELETE".toList ++ ([' '] ++ ("FROM".toList ++ [' '])) := by decide
    have hwhere : " WHERE ".toList = [' '] ++ ("WHERE".toList ++ [' ']) := by decide
    have hequals : " = ".toList = [' '] ++ ("=".toList ++ [' ']) := by decide
    have htext : (removalText table field written).toList = [] ++ (("DELETE".toList ++ ([' '] ++ "FROM".toList)) ++
        ([' '] ++ (table.toList ++ ([' '] ++ ("WHERE".toList ++ ([' '] ++ (field.toList ++ ([' '] ++
          ("=".toList ++ ([' '] ++ (written.toList ++ []))))))))))) := by
      simp only [removalText, String.toList_append, hdelete, hwhere, hequals, List.append_assoc,
        List.nil_append, List.append_nil]
    have hblank := isBlank_of_mem_space
    have hfirst : InSomeCase "DELETE" "DELETE".toList := inSomeCase_self (List.all_eq_true.1 rfl)
    have hsecond : InSomeCase "FROM" "FROM".toList := inSomeCase_self (List.all_eq_true.1 rfl)
    have hfilter : InSomeCase "WHERE" "WHERE".toList := inSomeCase_self (List.all_eq_true.1 rfl)
    rw [htext]
    refine .sign (List.forall_mem_nil _) (.keyword (.compound rfl hfirst hblank (List.cons_ne_nil _ _) hsecond))
      (parted_space _) ?_
    refine .sign hblank (.ident table) (parted_space _) ?_
    refine .sign hblank (.keyword (.single rfl hfilter)) (parted_space _) ?_
    refine .sign hblank (.ident field) (parted_space _) ?_
    refine .sign hblank (.op .eq) (parted_space _) ?_
    exact .value hblank hx parted_nil (.nil (List.forall_mem_nil _))
  exact Statement.ofText_of_layout hnames hfill hlayout

/-! ### Removals with and without quotes -/

namespace Database

variable {σ : Type} [Persistence σ]

/-- The rows of a table that are kept, and the database in which only they are left of the table. -/
def keepRows (db : Database σ) (table : String) (keep : Row → Bool) : List Row × Database σ :=
  let t := db.store.tableOrNew db.config.datastore table
  let kept : Table := { t with rows := t.rows.filter keep }
  (kept.rows, commit { db with store := db.store.put db.config.datastore table kept })

theorem keepRows_congr (db : Database σ) (table : String) {keep keep' : Row → Bool}
    (h : ∀ row ∈ (db.store.tableOrNew db.config.datastore table).rows, keep row = keep' row) :
    db.keepRows table keep = db.keepRows table keep' := by
  rw [keepRows, keepRows, List.filter_congr h]

theorem query_removal (db : Database σ) (clock : Clock) {table field written : String} {x : Supplied}
    (htable : IsName table) (hfield : IsName field) (hx : Written x written.toList)
    (hfill : Substitutions.Fill none [x]) :
    db.query clock (removalText table field written) none =
      .ok (db.keepRows table fun row => !(⟨field, .eq, x.value⟩ : Term).matches row) := by
  rw [query, ofText_removal htable hfield hx hfill, ok_bind]
  have hkeep : db.keepRows table (fun row =>
      !Table.isMatch (Delete.equal table field x.value).condition db.config.mode row) =
      db.keepRows table fun row => !(⟨field, .eq, x.value⟩ : Term).matches row :=
    db.keepRows_congr table fun row _ => by rw [isMatch_equal]
  exact congrArg Except.ok hkeep

/-- What a removal by an integer does, with quotes around the integer and without them. -/
structure QuotedRemoval (db : Database σ) (clock : Clock) (table field : String) (n : Int64) : Prop where
  /-- In quotes the integer takes out every row with an integer that has the same nearest number. -/
  quoted : db.query clock (removalText table field (quotedDigits n)) none =
    .ok (db.keepRows table fun row => !holdsNear field n row)
  /-- Without them it takes out the rows with the integer itself. -/
  bare : db.query clock (removalText table field (Value.int n).display) none =
    .ok (db.keepRows table fun row => row.get? field != some (.int n))
  /-- Both do the same exactly if no other integer with the same nearest number is stored. -/
  same_iff : db.query clock (removalText table field (quotedDigits n)) none =
      db.query clock (removalText table field (Value.int n).display) none ↔
    ∀ row ∈ (db.store.tableOrNew db.config.datastore table).rows, ∀ m, row.get? field = some (.int m) →
      Binary64.ofInt m.toInt = .ofInt n.toInt → m = n
  /-- So they do the same by every integer that is smaller than `2 ^ 53`, whatever is stored. -/
  same_of_lt : n.toInt.natAbs < 2 ^ 53 → db.query clock (removalText table field (quotedDigits n)) none =
    db.query clock (removalText table field (Value.int n).display) none

section Removal

variable (db : Database σ) (clock : Clock) {table field : String} (htable : IsName table) (hfield : IsName field)
  (n : Int64) (hints : IntegersOnly field (db.store.tableOrNew db.config.datastore table).rows)

include htable hfield hints

theorem query_quoted : db.query clock (removalText table field (quotedDigits n)) none =
    .ok (db.keepRows table fun row => !holdsNear field n row) := by
  have hfill : Substitutions.Fill none [.text '\'' (Value.int n).display] :=
    ⟨rfl, fun name v hmem => by simp at hmem⟩
  rw [db.query_removal clock htable hfield (written_digits n) hfill]
  refine congrArg Except.ok (db.keepRows_congr table fun row hrow => ?_)
  rw [Supplied.value, matches_digits hints hrow]

theorem query_bare : db.query clock (removalText table field (Value.int n).display) none =
    .ok (db.keepRows table fun row => row.get? field != some (.int n)) := by
  have hfill : Substitutions.Fill none [.int n] := ⟨rfl, fun name v hmem => by simp at hmem⟩
  rw [db.query_removal clock htable hfield (written_integer n) hfill]
  refine congrArg Except.ok (db.keepRows_congr table fun row hrow => ?_)
  rw [Supplied.value, matches_integer hints hrow, bne]

theorem quotedRemoval : QuotedRemoval db clock table field n := by
  have hquoted := query_quoted db clock htable hfield n hints
  have hbare := query_bare db clock htable hfield n hints
  have hsame : db.query clock (removalText table field (quotedDigits n)) none =
      db.query clock (removalText table field (Value.int n).display) none ↔
        ∀ row ∈ (db.store.tableOrNew db.config.datastore table).rows, ∀ m, row.get? field = some (.int m) →
          Binary64.ofInt m.toInt = .ofInt n.toInt → m = n := by
    rw [hquoted, hbare]
    constructor
    · intro h row hrow m hget hnear
      by_contra hne
      have hrows := congrArg Prod.fst (Except.ok.inj h)
      -- Without quotes the row is kept, with them it is not.
      have hkept : row ∈ (db.keepRows table fun row => row.get? field != some (.int n)).1 :=
        List.mem_filter.2 ⟨hrow, by simp [hget, hne]⟩
      rw [← hrows] at hkept
      have hfar := (List.mem_filter.1 hkept).2
      rw [holdsNear_of_int hget, decide_eq_true hnear] at hfar
      cases hfar
    · intro h
      refine congrArg Except.ok (db.keepRows_congr table fun row hrow => ?_)
      cases hget : row.get? field with
      | none => simp [holdsNear, hget]
      | some v =>
          obtain ⟨m, rfl⟩ := hints row hrow v hget
          have hnear : Binary64.ofInt m.toInt = .ofInt n.toInt ↔ m = n := by
            refine ⟨h row hrow m hget, ?_⟩
            rintro rfl
            rfl
          rw [holdsNear_of_int hget, Bool.eq_iff_iff]
          simp [hnear]
  exact ⟨hquoted, hbare, hsame, fun hn => hsame.2 fun _ _ m _ => (Value.ofInt_eq_iff_of_lt (Or.inr hn)).1⟩

end Removal

/-- **The digits of an integer equal the integers with the same nearest number, and a removal takes out the
rows of all of them.** These are the integer alone, if one of the two is smaller than `2 ^ 53`. -/
theorem quoted_integer (db : Database σ) (clock : Clock) (n : Int64) :
    (∀ m : Int64, (Value.int m).looseEq (.text (Value.int n).display) ↔
      Binary64.ofInt m.toInt = .ofInt n.toInt) ∧
    (∀ m : Int64, m.toInt.natAbs < 2 ^ 53 ∨ n.toInt.natAbs < 2 ^ 53 →
      ((Value.int m).looseEq (.text (Value.int n).display) ↔ m = n)) ∧
    ∀ table field, IsName table → IsName field →
      IntegersOnly field (db.store.tableOrNew db.config.datastore table).rows →
        QuotedRemoval db clock table field n := by
  refine ⟨fun m => Value.looseEq_digits_iff, fun m h => ?_, fun table field htable hfield hints => ?_⟩
  · exact Value.looseEq_digits_iff.trans (Value.ofInt_eq_iff_of_lt h)
  · exact quotedRemoval db clock htable hfield n hints

/-- A table with two integers that have one nearest number, and a small one. -/
def neighbours : Database Unit :=
  let rows : List Row := [.ofList [("n", .int 9007199254740992)], .ofList [("n", .int 9007199254740993)],
    .ofList [("n", .int 7)]]
  { (start .standard : Database Unit) with store := Store.empty.put .localStore "t" { Table.empty with rows } }

theorem integersOnly_neighbours :
    IntegersOnly "n" (neighbours.store.tableOrNew neighbours.config.datastore "t").rows := by
  intro row hrow v hv
  have hall : ∀ row ∈ (neighbours.store.tableOrNew neighbours.config.datastore "t").rows,
      ((row.get? "n").bind Value.int?).isSome := by decide +kernel
  have hint := hall row hrow
  rw [hv] at hint
  cases v with
  | int m => exact ⟨m, rfl⟩
  | _ => cases hint

/-- The quoted integer takes out its neighbour as well. -/
theorem quoted_integer_neighbours :
    let clock : Clock := ⟨fun _ => 0⟩
    ((Value.int 7).looseEq (.text (Value.int 9007199254740992).display) ↔ (7 : Int64) = 9007199254740992) ∧
      QuotedRemoval neighbours clock "t" "n" 9007199254740992 ∧
      (neighbours.query clock (removalText "t" "n" (quotedDigits 9007199254740992)) none).map Prod.fst =
        .ok [.ofList [("n", .int 7)]] ∧
      (neighbours.query clock (removalText "t" "n" (Value.int 9007199254740992).display) none).map Prod.fst =
        .ok [.ofList [("n", .int 9007199254740993)], .ofList [("n", .int 7)]] := by
  intro clock
  have htable : IsName "t" := .of_isAlpha (by decide) (List.all_eq_true.1 rfl) rfl rfl
  have hfield : IsName "n" := .of_isAlpha (by decide) (List.all_eq_true.1 rfl) rfl rfl
  obtain ⟨-, hsmall, hremoval⟩ := quoted_integer neighbours clock 9007199254740992
  have hremoves := hremoval "t" "n" htable hfield integersOnly_neighbours
  refine ⟨hsmall 7 (Or.inl (by decide)), hremoves, ?_, ?_⟩
  · rw [hremoves.quoted]
    exact congrArg Except.ok (by decide +kernel)
  · rw [hremoves.bare]
    exact congrArg Except.ok (by decide +kernel)

/-- The digits of an integer equal the next integer. -/
theorem digits_equal_neighbour :
    (Value.int 9007199254740993).looseEq (.text "9007199254740992") = true ∧
      (Value.int 9007199254740992).display = "9007199254740992" ∧
      (9007199254740993 : Int64) ≠ 9007199254740992 := by
  decide +kernel

end Database

end TableQuery
