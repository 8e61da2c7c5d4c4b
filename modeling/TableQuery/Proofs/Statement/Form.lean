import TableQuery.Statement.Parser
import TableQuery.Proofs.Clause.Acceptance

/-! The form of a command: how it is put together, with values of any kind in the places where values
stand. A form is written as a row of symbols. With tokens in its places it is a command that is to be
read, with values in them it is a statement. -/

namespace TableQuery

/-- One symbol of a written command: a token that is always the same, or the place of a value. -/
inductive Symbol (ν : Type)
  | sign (t : Token)
  | value (v : ν)

/-- Entries with commas between them, at least one. -/
structure Listing (α : Type) where
  first : α
  others : List α

/-- A comparison whose value may be of any kind. -/
structure Comparison (ν : Type) where
  field : String
  op : Comparator
  value : ν

/-- An order as it is written; it is ascending when no direction is. -/
structure WrittenOrder where
  columns : Listing String
  direction : Option Direction

/-- A command with a `ν` in the place of each value. No columns stand for all of them. -/
inductive Form (ν : Type)
  | select (columns : Option (Listing String)) (table : TablePath)
      (condition : Option (Chain (Comparison ν))) (order : Option WrittenOrder) (limit : Option ν)
  | insert (table : TablePath) (entries : Listing (String × ν))
  | update (table : TablePath) (assignments : Listing (String × ν))
      (condition : Option (Chain (Comparison ν)))
  | delete (table : TablePath) (condition : Option (Chain (Comparison ν)))

variable {α β ν μ : Type}

namespace Listing

def toList (l : Listing α) : List α := l.first :: l.others

def map (f : α → β) (l : Listing α) : Listing β := ⟨f l.first, l.others.map f⟩

def symbols (entry : α → List (Symbol ν)) (l : Listing α) : List (Symbol ν) :=
  entry l.first ++ l.others.flatMap fun a => .sign .comma :: entry a

/-- Two lists of equal length are the two sides of one. -/
theorem exists_zip (names : Listing α) (values : Listing β)
    (h : names.toList.length = values.toList.length) :
    ∃ entries : Listing (α × β), entries.map Prod.fst = names ∧ entries.map Prod.snd = values := by
  obtain ⟨name, names⟩ := names
  obtain ⟨value, values⟩ := values
  have hlength : names.length = values.length := Nat.succ.inj h
  refine ⟨⟨(name, value), names.zip values⟩, ?_, ?_⟩
  · rw [Listing.map, List.map_fst_zip (Nat.le_of_eq hlength)]
  · rw [Listing.map, List.map_snd_zip (Nat.le_of_eq hlength.symm)]

end Listing

/-! ### The symbols of a form -/

def nameSymbols (name : String) : List (Symbol ν) := [.sign (.ident name)]

def valueSymbols (v : ν) : List (Symbol ν) := [.value v]

def assignmentSymbols (a : String × ν) : List (Symbol ν) :=
  [.sign (.ident a.1), .sign (.op .eq), .value a.2]

def TablePath.symbols (p : TablePath) : List (Symbol ν) :=
  match p.datastore with
  | none => [.sign (.ident p.table)]
  | some datastore => [.sign (.ident datastore), .sign .dot, .sign (.ident p.table)]

def Comparison.symbols (c : Comparison ν) : List (Symbol ν) :=
  [.sign (.ident c.field), .sign (.op c.op), .value c.value]

def Piece.symbols : Piece (Comparison ν) → List (Symbol ν)
  | .leaf c => c.symbols
  | .joiner .and => [.sign (.keyword .and)]
  | .joiner .or => [.sign (.keyword .or)]
  | .openGroup => [.sign .leftParen]
  | .closeGroup => [.sign .rightParen]

def conditionSymbols : Option (Chain (Comparison ν)) → List (Symbol ν)
  | none => []
  | some c => .sign (.keyword .whereRows) :: c.pieces.flatMap Piece.symbols

def directionSymbols : Option Direction → List (Symbol ν)
  | none => []
  | some .ascending => [.sign (.keyword .asc)]
  | some .descending => [.sign (.keyword .desc)]

def orderSymbols : Option WrittenOrder → List (Symbol ν)
  | none => []
  | some o => .sign (.keyword .orderBy) :: (o.columns.symbols nameSymbols ++ directionSymbols o.direction)

def limitSymbols : Option ν → List (Symbol ν)
  | none => []
  | some v => [.sign (.keyword .limit), .value v]

def columnsSymbols : Option (Listing String) → List (Symbol ν)
  | none => [.sign .star]
  | some columns => columns.symbols nameSymbols

namespace Form

/-- The symbols of a form from left to right. -/
def symbols : Form ν → List (Symbol ν)
  | .select columns table condition order limit =>
    .sign (.keyword .select) :: (columnsSymbols columns ++ .sign (.keyword .fromTable) ::
      (table.symbols ++ (conditionSymbols condition ++ (orderSymbols order ++ limitSymbols limit))))
  | .insert table entries =>
    .sign (.keyword .insertInto) :: (table.symbols ++ .sign .leftParen ::
      ((entries.map Prod.fst).symbols nameSymbols ++ .sign .rightParen :: .sign (.keyword .values) ::
        .sign .leftParen :: ((entries.map Prod.snd).symbols valueSymbols ++ [.sign .rightParen])))
  | .update table assignments condition =>
    .sign (.keyword .update) :: (table.symbols ++ .sign (.keyword .setFields) ::
      (assignments.symbols assignmentSymbols ++ conditionSymbols condition))
  | .delete table condition =>
    .sign (.keyword .deleteFrom) :: (table.symbols ++ conditionSymbols condition)

end Form

/-! ### The statement of a form -/

def Comparison.term (c : Comparison Value) : Term := ⟨c.field, c.op, c.value⟩

def conditionClause (condition : Option (Chain (Comparison Value))) : Option Clause :=
  condition.map fun c => ⟨(c.map Comparison.term).parts⟩

def WrittenOrder.order (o : WrittenOrder) : SortOrder :=
  ⟨o.columns.toList, o.direction.getD .ascending⟩

def selectedColumns : Option (Listing String) → Columns
  | none => .all
  | some columns => .names columns.toList

/-- The number of rows that the value of a limit allows, unless it is not a number of rows. -/
def readLimit : Option Value → Except QueryError (Option Nat)
  | none => .ok none
  | some v =>
    match Statement.limit? v with
    | some n => .ok (some n)
    | none => Statement.fail (.limit v)

namespace Form

/-- The statement of a form; only the value of a limit can be refused. -/
def statement : Form Value → Except QueryError Statement
  | .select columns table condition order limit =>
    (readLimit limit).map fun n =>
      .select ⟨selectedColumns columns, table, conditionClause condition,
        order.map WrittenOrder.order, n⟩
  | .insert table entries =>
    .ok (.insert ⟨table, (entries.map Prod.fst).toList, (entries.map Prod.snd).toList⟩)
  | .update table assignments condition =>
    .ok (.update ⟨table, assignments.toList, conditionClause condition⟩)
  | .delete table condition => .ok (.delete ⟨table, conditionClause condition⟩)

theorem statement_eq_error {form : Form Value} {err : QueryError} (h : form.statement = .error err) :
    ∃ v, err = .malformed (.limit v) := by
  cases form with
  | select columns table condition order limit =>
      cases limit with
      | none => cases h
      | some v =>
          cases hv : Statement.limit? v with
          | none =>
              rw [statement, readLimit, hv] at h
              cases h
              exact ⟨v, rfl⟩
          | some n =>
              rw [statement, readLimit, hv] at h
              cases h
  | insert table entries => cases h
  | update table assignments condition => cases h
  | delete table condition => cases h

end Form

/-! ### Other values in the places of a form -/

def Symbol.map (f : ν → μ) : Symbol ν → Symbol μ
  | .sign t => .sign t
  | .value v => .value (f v)

def Comparison.map (f : ν → μ) (c : Comparison ν) : Comparison μ := ⟨c.field, c.op, f c.value⟩

def conditionMap (f : ν → μ) (condition : Option (Chain (Comparison ν))) :
    Option (Chain (Comparison μ)) := condition.map (Chain.map (Comparison.map f))

def Form.map (f : ν → μ) : Form ν → Form μ
  | .select columns table condition order limit =>
    .select columns table (conditionMap f condition) order (limit.map f)
  | .insert table entries => .insert table (entries.map (Prod.map id f))
  | .update table assignments condition =>
    .update table (assignments.map (Prod.map id f)) (conditionMap f condition)
  | .delete table condition => .delete table (conditionMap f condition)

variable (f : ν → μ)

theorem nameSymbols_map (name : String) :
    (nameSymbols name : List (Symbol ν)).map (Symbol.map f) = nameSymbols name := rfl

theorem Listing.symbols_map {entry : α → List (Symbol ν)} (entry' : β → List (Symbol μ)) (g : α → β)
    (hentry : ∀ a, (entry a).map (Symbol.map f) = entry' (g a)) (l : Listing α) :
    (l.symbols entry).map (Symbol.map f) = (l.map g).symbols entry' := by
  rw [Listing.symbols, Listing.symbols, List.map_append, hentry, List.map_flatMap, Listing.map,
    List.flatMap_map]
  simp only [List.map_cons, hentry]
  rfl

theorem Listing.names_map (l : Listing String) :
    (l.symbols nameSymbols : List (Symbol ν)).map (Symbol.map f) = l.symbols nameSymbols := by
  rw [Listing.symbols_map f nameSymbols id (nameSymbols_map f), Listing.map, List.map_id]
  rfl

theorem TablePath.symbols_map (p : TablePath) :
    (p.symbols : List (Symbol ν)).map (Symbol.map f) = p.symbols := by
  rw [TablePath.symbols, TablePath.symbols]
  cases p.datastore <;> rfl

theorem Piece.symbols_map (p : Piece (Comparison ν)) :
    p.symbols.map (Symbol.map f) = (p.map (Comparison.map f)).symbols := by
  cases p with
  | joiner j => cases j <;> rfl
  | _ => rfl

theorem conditionSymbols_map (condition : Option (Chain (Comparison ν))) :
    (conditionSymbols condition).map (Symbol.map f) = conditionSymbols (conditionMap f condition) := by
  cases condition with
  | none => rfl
  | some c =>
      simp only [conditionMap, conditionSymbols, Option.map_some, Chain.pieces_map, List.map_cons,
        List.map_flatMap, List.flatMap_map, Piece.symbols_map]
      rfl

theorem orderSymbols_map (order : Option WrittenOrder) :
    (orderSymbols order : List (Symbol ν)).map (Symbol.map f) = orderSymbols order := by
  cases order with
  | none => rfl
  | some o =>
      have hdirection : (directionSymbols o.direction : List (Symbol ν)).map (Symbol.map f) =
          directionSymbols o.direction := by
        rcases o.direction with _ | _ | _ <;> rfl
      rw [orderSymbols, orderSymbols, List.map_cons, List.map_append, Listing.names_map, hdirection]
      rfl

theorem columnsSymbols_map (columns : Option (Listing String)) :
    (columnsSymbols columns : List (Symbol ν)).map (Symbol.map f) = columnsSymbols columns := by
  cases columns with
  | none => rfl
  | some columns => exact columns.names_map f

theorem limitSymbols_map (limit : Option ν) :
    (limitSymbols limit).map (Symbol.map f) = limitSymbols (limit.map f) := by
  cases limit <;> rfl

theorem Form.symbols_map (form : Form ν) :
    (form.map f).symbols = form.symbols.map (Symbol.map f) := by
  cases form with
  | select columns table condition order limit =>
      simp only [Form.map, Form.symbols, List.map_cons, List.map_append, columnsSymbols_map,
        TablePath.symbols_map, conditionSymbols_map, orderSymbols_map, limitSymbols_map]
      rfl
  | insert table entries =>
      have hnames : ((entries.map (Prod.map id f)).map Prod.fst) = entries.map Prod.fst := by
        simp [Listing.map, Function.comp_def]
      have hvalues : ((entries.map Prod.snd).symbols valueSymbols).map (Symbol.map f) =
          ((entries.map (Prod.map id f)).map Prod.snd).symbols valueSymbols := by
        rw [Listing.symbols_map f valueSymbols f fun _ => rfl]
        simp [Listing.map, Function.comp_def]
      simp only [Form.map, Form.symbols, List.map_cons, List.map_append, List.map_nil,
        TablePath.symbols_map, Listing.names_map, hnames, hvalues]
      rfl
  | update table assignments condition =>
      have hassignments : (assignments.symbols assignmentSymbols).map (Symbol.map f) =
          (assignments.map (Prod.map id f)).symbols assignmentSymbols :=
        Listing.symbols_map f assignmentSymbols (Prod.map id f) (fun _ => rfl) assignments
      simp only [Form.map, Form.symbols, List.map_cons, List.map_append, TablePath.symbols_map,
        conditionSymbols_map, hassignments]
      rfl
  | delete table condition =>
      simp only [Form.map, Form.symbols, List.map_cons, List.map_append, TablePath.symbols_map,
        conditionSymbols_map]
      rfl

theorem Listing.map_map {γ : Type} (g : α → β) (h : β → γ) (l : Listing α) :
    (l.map g).map h = l.map (h ∘ g) := by
  rw [Listing.map, Listing.map, Listing.map, List.map_map]
  rfl

theorem conditionMap_map {ρ : Type} (g : μ → ρ) (condition : Option (Chain (Comparison ν))) :
    conditionMap g (conditionMap f condition) = conditionMap (g ∘ f) condition := by
  cases condition with
  | none => rfl
  | some c => exact congrArg some (c.map_map _ _)

theorem Form.map_map {ρ : Type} (g : μ → ρ) (form : Form ν) :
    (form.map f).map g = form.map (g ∘ f) := by
  cases form with
  | select columns table condition order limit =>
      rw [Form.map, Form.map, Form.map, conditionMap_map, Option.map_map]
  | insert table entries =>
      rw [Form.map, Form.map, Form.map, Listing.map_map, Prod.map_comp_map]
      rfl
  | update table assignments condition =>
      rw [Form.map, Form.map, Form.map, Listing.map_map, conditionMap_map, Prod.map_comp_map]
      rfl
  | delete table condition => rw [Form.map, Form.map, Form.map, conditionMap_map]

theorem Comparison.map_id : Comparison.map (id : ν → ν) = id := rfl

theorem Listing.map_id (l : Listing α) : l.map id = l := by
  rw [Listing.map, List.map_id]
  rfl

theorem Form.map_id (form : Form ν) : form.map id = form := by
  have hcondition : ∀ c : Option (Chain (Comparison ν)), conditionMap id c = c := by
    rintro (_ | c)
    · rfl
    · exact congrArg some c.map_id
  cases form with
  | select columns table condition order limit => rw [Form.map, hcondition, Option.map_id, id]
  | insert table entries => rw [Form.map, Prod.map_id, Listing.map_id]
  | update table assignments condition => rw [Form.map, Prod.map_id, Listing.map_id, hcondition]
  | delete table condition => rw [Form.map, hcondition]

end TableQuery
