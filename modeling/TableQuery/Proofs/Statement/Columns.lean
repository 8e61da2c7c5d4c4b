import TableQuery.Proofs.Statement.Gap
import TableQuery.Proofs.Statement.Insertion
import TableQuery.Proofs.Statement.Labels

/-! Columns in every kind of command. A word that an insertion takes as a column is an identifier, and it is
one wherever a name has its place, unless what stands behind it completes a keyword that it begins. -/

namespace TableQuery

open Text Token

/-- Every name of a statement is an identifier. -/
theorem Reading.isIdentifier {text : String} {subs : Option Substitutions} {s : Statement} {name : String}
    (r : Reading text subs s) (h : name ∈ s.names) : IsIdentifier name := by
  obtain ⟨own, hleaf⟩ := r.exists_name h
  obtain ⟨hname, hword⟩ := word_of_ident hleaf rfl
  rcases r.lexed.ident_or_written (lexeme_mem hleaf) with ⟨-, -, hkeyword⟩ | ⟨-, hno⟩
  · exact ⟨hword, hname ▸ hkeyword⟩
  · exact absurd rfl (hno name)

/-! ### A name in a gap -/

namespace Gap

variable (g : Gap) {name : String}

/-- What stands behind the gap completes no keyword that the name begins. -/
def Apart (name : String) : Prop :=
  ∀ r ∈ Keyword.compound? (upper name.toList), takeSecond r.1 g.tail.toList = none

theorem scan_name (hname : IsIdentifier name) (happart : g.Apart name) :
    scan (name.toList ++ g.tail.toList) = .ok (.ident name :: g.after) := by
  have hend : ∀ c ∈ g.tail.toList.head?, isWordChar c = false := fun c hc => (g.isLoose (Or.inr hc)).word
  rw [scan_apart hname.word hname.keyword hend happart, g.scan_tail, String.ofList_toList]
  rfl

/-- **A name in the gap is read as an identifier** where it is apart from what stands behind it. -/
theorem ofText_of_name (form : Form Scalar) {s : Statement} (hname : IsIdentifier name) (happart : g.Apart name)
    (hform : g.before ++ .ident name :: g.after = form.tokens ++ [.eof])
    (hs : (form.map (Scalar.value ⟨(g.text name).toList, []⟩)).statement = .ok s) :
    Statement.ofText (g.text name) none = .ok s :=
  g.ofText_of_form form hname.plain (g.scan_name hname happart) hform hs

/-! ### The commands that name a column -/

/-- The command `INSERT INTO t (…) VALUES (1)`. -/
def insertion : Gap where
  front := "INSERT INTO t ("
  tail := ") VALUES (1)"
  before := [.keyword .insertInto, .ident "t", .leftParen]
  after := [.rightParen, .keyword .values, .leftParen, .number 1, .rightParen, .eof]

/-- The command `SELECT …, d FROM t`. -/
def firstColumn : Gap where
  front := "SELECT "
  tail := ", d FROM t"
  before := [.keyword .select]
  after := [.comma, .ident "d", .keyword .fromTable, .ident "t", .eof]

/-- The command `SELECT … FROM t`. -/
def onlyColumn : Gap where
  front := "SELECT "
  tail := " FROM t"
  before := [.keyword .select]
  after := [.keyword .fromTable, .ident "t", .eof]

/-- The command `SELECT d, … FROM t`. -/
def lastColumn : Gap where
  front := "SELECT d, "
  tail := " FROM t"
  before := [.keyword .select, .ident "d", .comma]
  after := [.keyword .fromTable, .ident "t", .eof]

/-- The command `SELECT * FROM t WHERE … = 1`. -/
def condition : Gap where
  front := "SELECT * FROM t WHERE "
  tail := " = 1"
  before := [.keyword .select, .star, .keyword .fromTable, .ident "t", .keyword .whereRows]
  after := [.op .eq, .number 1, .eof]

/-- The command `SELECT * FROM t ORDER BY …`. -/
def order : Gap where
  front := "SELECT * FROM t ORDER BY "
  tail := ""
  before := [.keyword .select, .star, .keyword .fromTable, .ident "t", .keyword .orderBy]
  after := [.eof]

/-- The command `UPDATE t SET … = 2`. -/
def assignment : Gap where
  front := "UPDATE t SET "
  tail := " = 2"
  before := [.keyword .update, .ident "t", .keyword .setFields]
  after := [.op .eq, .number 2, .eof]

/-- The command `DELETE FROM t WHERE … = 1`. -/
def deletion : Gap where
  front := "DELETE FROM t WHERE "
  tail := " = 1"
  before := [.keyword .deleteFrom, .ident "t", .keyword .whereRows]
  after := [.op .eq, .number 1, .eof]


end Gap

/-! ### Columns of an insertion -/

namespace Statement

variable {c : String}

theorem isIdentifier_of_inserted {text : String} {subs : Option Substitutions} {i : Insert}
    (h : ofText text subs = .ok (.insert i)) (hc : c ∈ i.columns) : IsIdentifier c := by
  obtain ⟨r⟩ := nonempty_reading h
  exact r.isIdentifier (List.mem_append_right _ hc)

theorem ofText_insertion (hc : IsIdentifier c) : ofText ("INSERT INTO t (" ++ c ++ ") VALUES (1)") none =
    .ok (.insert ⟨⟨none, "t"⟩, [c], [.int 1]⟩) :=
  Gap.insertion.ofText_of_name (.insert ⟨none, "t"⟩ ⟨(c, .number 1), []⟩) hc (fun _ _ => rfl) rfl rfl

/-- The selection of these columns. -/
def selection (columns : List String) : Statement :=
  .select ⟨.names columns, ⟨none, "t"⟩, none, none, none⟩

/-- What a selection comes to whose last column is `c`: before ` FROM`, the word `DELETE` is half a keyword. -/
def selectionTo (c : String) (columns : List String) : Except QueryError Statement :=
  if upper c.toList = "DELETE" then fail (.expectedIdent (.keyword .deleteFrom)) else .ok (selection columns)

/-- Every command that can name a column takes `c` for one. -/
structure Addresses (c : String) : Prop where
  first : ofText ("SELECT " ++ c ++ ", d FROM t") none = .ok (selection [c, "d"])
  only : ofText ("SELECT " ++ c ++ " FROM t") none = selectionTo c [c]
  last : ofText ("SELECT d, " ++ c ++ " FROM t") none = selectionTo c ["d", c]
  condition : ofText ("SELECT * FROM t WHERE " ++ c ++ " = 1") none =
    .ok (.select ⟨.all, ⟨none, "t"⟩, some ⟨[.term ⟨c, .eq, .int 1⟩]⟩, none, none⟩)
  order : ofText ("SELECT * FROM t ORDER BY " ++ c) none =
    .ok (.select ⟨.all, ⟨none, "t"⟩, none, some ⟨[c], .ascending⟩, none⟩)
  assignment : ofText ("UPDATE t SET " ++ c ++ " = 2") none = .ok (.update ⟨⟨none, "t"⟩, [(c, .int 2)], none⟩)
  deletion : ofText ("DELETE FROM t WHERE " ++ c ++ " = 1") none =
    .ok (.delete ⟨⟨none, "t"⟩, some ⟨[.term ⟨c, .eq, .int 1⟩]⟩⟩)

theorem takeSecond_from (h : upper c.toList ≠ "DELETE") {r : String × Keyword}
    (hr : Keyword.compound? (upper c.toList) = some r) : takeSecond r.1 " FROM t".toList = none := by
  rw [Keyword.compound?.eq_def] at hr
  split at hr
  · cases hr
    rfl
  · cases hr
    rfl
  next hdelete => exact absurd hdelete h
  · cases hr

/-- Before ` FROM`, the word is the first half of a keyword. -/
theorem scan_delete_from (hc : IsIdentifier c) (h : upper c.toList = "DELETE") :
    scan (c.toList ++ " FROM t".toList) = .ok [.keyword .deleteFrom, .ident "t", .eof] := by
  have htake : takeWord (c.toList ++ " FROM t".toList) = (.keyword .deleteFrom, " t".toList) := by
    have hblank : ∀ d ∈ " FROM t".toList.head?, isWordChar d = false := by
      rintro d ⟨⟩
      rfl
    rw [takeWord_eq, takeWhile_run hc.word.all hblank, dropWhile_run hc.word.all hblank, compound?, h]
    rfl
  have htable : scan " t".toList = .ok [.ident "t", .eof] := by decide +kernel
  rw [scan_word hc.word htake, htable]
  rfl

/-- A gap at the end of the columns. -/
theorem ofText_selectionTo (g : Gap) (l : Listing String) (htail : g.tail = " FROM t") (hc : IsIdentifier c)
    (hform : g.before ++ .ident c :: g.after =
      (Form.select (some l) ⟨none, "t"⟩ none none none).tokens ++ [.eof])
    (hfail : ofTokens ⟨(g.text c).toList, []⟩ (g.before ++ [.keyword .deleteFrom, .ident "t", .eof]) =
      fail (.expectedIdent (.keyword .deleteFrom))) :
    ofText (g.text c) none = selectionTo c l.toList := by
  unfold selectionTo
  split
  next hdelete =>
    have hscan := scan_delete_from hc hdelete
    rw [← htail] at hscan
    rw [g.ofText_text hc.plain hscan, hfail]
  next hother =>
    refine g.ofText_of_name _ hc (fun r hr => ?_) hform rfl
    rw [htail]
    exact takeSecond_from hother hr

theorem addresses_of_isIdentifier (hc : IsIdentifier c) : Addresses c where
  first := Gap.firstColumn.ofText_of_name (.select (some ⟨c, ["d"]⟩) ⟨none, "t"⟩ none none none) hc
    (fun _ _ => rfl) rfl rfl
  only := ofText_selectionTo Gap.onlyColumn ⟨c, []⟩ rfl hc rfl rfl
  last := ofText_selectionTo Gap.lastColumn ⟨"d", [c]⟩ rfl hc rfl rfl
  condition := Gap.condition.ofText_of_name
    (.select none ⟨none, "t"⟩ (some (.last (.leaf ⟨c, .eq, .number 1⟩))) none none) hc (fun _ _ => rfl) rfl rfl
  order := by
    have h := Gap.order.ofText_of_name (.select none ⟨none, "t"⟩ none (some ⟨⟨c, []⟩, none⟩) none) hc
      (fun _ _ => rfl) rfl rfl
    rwa [Gap.text, Gap.order, String.append_empty] at h
  assignment := Gap.assignment.ofText_of_name (.update ⟨none, "t"⟩ ⟨(c, .number 2), []⟩ none) hc
    (fun _ _ => rfl) rfl rfl
  deletion := Gap.deletion.ofText_of_name
    (.delete ⟨none, "t"⟩ (some (.last (.leaf ⟨c, .eq, .number 1⟩)))) hc (fun _ _ => rfl) rfl rfl

/-- **What can be inserted as a column can be addressed as one in every command**, except that no word of the
letters of `DELETE` stays a column before ` FROM`. -/
theorem column_addressed (h : ∃ i, ofText ("INSERT INTO t (" ++ c ++ ") VALUES (1)") none = .ok (.insert i) ∧
    i.columns = [c]) : Addresses c := by
  obtain ⟨i, hread, hcolumns⟩ := h
  have hc : c ∈ i.columns := hcolumns ▸ List.mem_singleton_self c
  exact addresses_of_isIdentifier (isIdentifier_of_inserted hread hc)

/-- The first half of another keyword. -/
theorem column_addressed_order :
    (∃ i, ofText ("INSERT INTO t (" ++ "order" ++ ") VALUES (1)") none = .ok (.insert i) ∧
      i.columns = ["order"]) ∧ Addresses "order" := by
  have horder : IsIdentifier "order" := isIdentifier_of_isAlpha (by decide) (by decide) rfl
  have hinserted : ∃ i, ofText ("INSERT INTO t (" ++ "order" ++ ") VALUES (1)") none = .ok (.insert i) ∧
      i.columns = ["order"] := ⟨_, ofText_insertion horder, rfl⟩
  exact ⟨hinserted, column_addressed hinserted⟩

/-- A column that can be inserted but not selected alone. -/
theorem column_delete_fused :
    (∃ i, ofText ("INSERT INTO t (" ++ "delete" ++ ") VALUES (1)") none = .ok (.insert i) ∧
      i.columns = ["delete"]) ∧
    ofText ("SELECT " ++ "delete" ++ " FROM t") none =
      .error (.malformed (.expectedIdent (.keyword .deleteFrom))) := by
  have hdelete : IsIdentifier "delete" := isIdentifier_of_isAlpha (by decide) (by decide) rfl
  have hselected := (addresses_of_isIdentifier hdelete).only
  have hword : upper "delete".toList = "DELETE" := rfl
  rw [selectionTo, if_pos hword] at hselected
  exact ⟨⟨_, ofText_insertion hdelete, rfl⟩, hselected⟩

end Statement
end TableQuery
