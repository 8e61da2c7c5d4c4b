import TableQuery.Proofs.Statement.Layout

/-! Statements that can be written as commands: their names are read as names, their lists are not
empty, and their clauses are trees. -/

namespace TableQuery

open Text Token

/-! ### The names of a statement -/

def TablePath.names (p : TablePath) : List String := p.datastore.toList ++ [p.table]

def ClausePart.names : ClausePart → List String
  | .term t => [t.field]
  | _ => []

/-- The fields that an optional condition compares. -/
def conditionNames : Option Clause → List String
  | none => []
  | some c => c.parts.flatMap ClausePart.names

def orderNames : Option SortOrder → List String
  | none => []
  | some o => o.columns

def Columns.listed : Columns → List String
  | .all => []
  | .names columns => columns

namespace Statement

/-- Every name in a statement: of datastores, tables, columns and fields. -/
def names : Statement → List String
  | .select s =>
    s.columns.listed ++ s.table.names ++ conditionNames s.condition ++ orderNames s.order
  | .insert s => s.table.names ++ s.columns
  | .update s => s.table.names ++ s.assignments.map Prod.fst ++ conditionNames s.condition
  | .delete s => s.table.names ++ conditionNames s.condition

/-- Whether the condition, if there is one, is a tree of comparisons. -/
def ConditionIsTree (condition : Option Clause) : Prop :=
  ∀ c ∈ condition, ∃ tree : Chain Term, tree.parts = c.parts

/-- Whether the lists have entries, the columns and values of an insertion are equally many, and the
limit is a number that the language has. -/
def Complete : Statement → Prop
  | .select s => s.columns ≠ .names [] ∧ ConditionIsTree s.condition ∧
      (∀ o ∈ s.order, o.columns ≠ []) ∧ ∀ n ∈ s.limit, n < 2 ^ 63
  | .insert s => s.columns ≠ [] ∧ s.columns.length = s.values.length
  | .update s => s.assignments ≠ [] ∧ ConditionIsTree s.condition
  | .delete s => ConditionIsTree s.condition

structure WellFormed (s : Statement) : Prop where
  names : ∀ name ∈ s.names, IsName name
  complete : s.Complete

end Statement

/-! ### The signs of a form

Every sign of a form is a name of the statement, a keyword, a comparator or a mark. -/

/-- A token that a form can have as a sign when these are its names. -/
inductive SignOf (names : List String) : Token → Prop
  | name {name : String} (h : name ∈ names) : SignOf names (.ident name)
  | keyword (k : Keyword) : SignOf names (.keyword k)
  | op (c : Comparator) : SignOf names (.op c)
  | mark {c : Char} {t : Token} (h : ofChar? c = some t) : SignOf names t

/-- Every sign among the symbols is one that a form with these names can have. -/
def SignsOf {ν : Type} (names : List String) (symbols : List (Symbol ν)) : Prop :=
  ∀ t, Symbol.sign t ∈ symbols → SignOf names t

namespace SignsOf

variable {ν : Type} {names more : List String} {a b : List (Symbol ν)}

theorem nil : SignsOf names ([] : List (Symbol ν)) := by
  rintro t h
  cases h

theorem sign {t : Token} (ht : SignOf names t) (h : SignsOf names a) : SignsOf names (.sign t :: a) := by
  rintro u hu
  rcases List.mem_cons.1 hu with heq | hu
  · cases heq
    exact ht
  · exact h u hu

theorem value {v : ν} (h : SignsOf names a) : SignsOf names (.value v :: a) := by
  rintro u hu
  rcases List.mem_cons.1 hu with heq | hu
  · cases heq
  · exact h u hu

theorem append (ha : SignsOf names a) (hb : SignsOf names b) : SignsOf names (a ++ b) := by
  rintro t ht
  rcases List.mem_append.1 ht with ht | ht
  · exact ha t ht
  · exact hb t ht

theorem mono (hsub : ∀ name ∈ names, name ∈ more) (h : SignsOf names a) : SignsOf more a := by
  rintro t ht
  cases h t ht with
  | name hname => exact .name (hsub _ hname)
  | keyword k => exact .keyword k
  | op c => exact .op c
  | mark hmark => exact .mark hmark

theorem flatMap {α : Type} {entry : α → List (Symbol ν)} {as : List α}
    (h : ∀ x ∈ as, SignsOf names (entry x)) : SignsOf names (as.flatMap entry) := by
  rintro t ht
  obtain ⟨x, hx, ht⟩ := List.mem_flatMap.1 ht
  exact h x hx t ht

theorem listing {α : Type} {entry : α → List (Symbol ν)} {l : Listing α}
    (h : ∀ x ∈ l.toList, SignsOf names (entry x)) : SignsOf names (l.symbols entry) := by
  refine append (h l.first List.mem_cons_self) (flatMap fun x hx => ?_)
  exact sign (.mark (c := ',') rfl) (h x (List.mem_cons_of_mem _ hx))

theorem nameSymbols {name : String} (h : name ∈ names) :
    SignsOf names (nameSymbols name : List (Symbol ν)) := sign (.name h) nil

theorem path (p : TablePath) : SignsOf p.names (p.symbols : List (Symbol ν)) := by
  obtain ⟨datastore, table⟩ := p
  cases datastore with
  | none => exact sign (.name List.mem_cons_self) nil
  | some datastore =>
      refine sign (.name List.mem_cons_self) (sign (.mark (c := '.') rfl) (sign (.name ?_) nil))
      exact List.mem_cons_of_mem _ List.mem_cons_self

theorem piece (p : Piece (Comparison Value)) :
    SignsOf (p.map Comparison.term).part.names p.symbols := by
  cases p with
  | leaf c => exact sign (.name List.mem_cons_self) (sign (.op c.op) (value nil))
  | joiner j => cases j <;> exact sign (.keyword _) nil
  | openGroup => exact sign (.mark (c := '(') rfl) nil
  | closeGroup => exact sign (.mark (c := ')') rfl) nil

theorem condition (condition : Option (Chain (Comparison Value))) :
    SignsOf (conditionNames (conditionClause condition)) (conditionSymbols condition) := by
  cases condition with
  | none => exact nil
  | some c =>
      refine sign (.keyword _) (flatMap fun p hp => (piece p).mono fun name hname => ?_)
      refine List.mem_flatMap.2 ⟨_, ?_, hname⟩
      show (p.map Comparison.term).part ∈ (c.map Comparison.term).parts
      rw [Chain.parts, Chain.pieces_map]
      exact List.mem_map_of_mem (List.mem_map_of_mem hp)

theorem order (order : Option WrittenOrder) :
    SignsOf (orderNames (order.map WrittenOrder.order)) (orderSymbols order : List (Symbol ν)) := by
  cases order with
  | none => exact nil
  | some o =>
      refine sign (.keyword _) (append (listing fun name hname => nameSymbols hname) ?_)
      rcases o.direction with _ | _ | _
      · exact nil
      · exact sign (.keyword _) nil
      · exact sign (.keyword _) nil

theorem limit (limit : Option ν) : SignsOf names (limitSymbols limit) := by
  cases limit with
  | none => exact nil
  | some v => exact sign (.keyword _) (value nil)

theorem columns (columns : Option (Listing String)) :
    SignsOf (selectedColumns columns).listed (columnsSymbols columns : List (Symbol ν)) := by
  cases columns with
  | none => exact sign (.mark (c := '*') rfl) nil
  | some columns => exact listing fun name hname => nameSymbols hname

end SignsOf

theorem Form.signsOf {form : Form Value} {s : Statement} (h : form.statement = .ok s) :
    SignsOf s.names form.symbols := by
  cases form with
  | select columns table condition order limit =>
      obtain ⟨n, -, rfl⟩ := map_eq_ok_iff.1 h
      simp only [Form.symbols, Statement.names]
      refine .sign (.keyword _) (.append (.mono ?_ (.columns columns)) (.sign (.keyword _)
        (.append (.mono ?_ (.path table)) (.append (.mono ?_ (.condition condition))
          (.append (.mono ?_ (.order order)) (.limit limit))))))
      all_goals
        intro name hname
        simp [hname]
  | insert table entries =>
      cases h
      simp only [Form.symbols, Statement.names]
      refine .sign (.keyword _) (.append (.mono ?_ (.path table)) (.sign (.mark (c := '(') rfl)
        (.append (.listing fun name hname => .nameSymbols ?_) (.sign (.mark (c := ')') rfl)
          (.sign (.keyword _) (.sign (.mark (c := '(') rfl)
            (.append (.listing fun v _ => .value .nil) (.sign (.mark (c := ')') rfl) .nil))))))))
      · intro name hname
        simp [hname]
      · simp [hname]
  | update table assignments condition =>
      cases h
      simp only [Form.symbols, Statement.names]
      refine .sign (.keyword _) (.append (.mono ?_ (.path table)) (.sign (.keyword _)
        (.append (.listing fun a ha => .sign (.name ?_) (.sign (.op _) (.value .nil)))
          (.mono ?_ (.condition condition)))))
      · intro name hname
        simp [hname]
      · exact List.mem_append_left _ (List.mem_append_right _ (List.mem_map_of_mem ha))
      · intro name hname
        simp [hname]
  | delete table condition =>
      cases h
      simp only [Form.symbols, Statement.names]
      refine .sign (.keyword _) (.append (.mono ?_ (.path table)) (.mono ?_ (.condition condition)))
      all_goals
        intro name hname
        simp [hname]

theorem SignsOf.of_map {ν μ : Type} {f : ν → μ} {names : List String} {symbols : List (Symbol ν)}
    (h : SignsOf names (symbols.map (Symbol.map f))) : SignsOf names symbols :=
  fun t ht => h t (List.mem_map_of_mem ht)

theorem SignsOf.namesIn {ν : Type} {names : List String} {symbols : List (Symbol ν)}
    (h : SignsOf names symbols) (hnames : ∀ name ∈ names, IsName name) : NamesIn symbols := by
  intro name hname
  cases h _ hname with
  | name hmem => exact hnames name hmem
  | mark hmark =>
      rw [ofChar?.eq_def] at hmark
      split at hmark <;> cases hmark

/-- The names of a form are those of its statement. -/
theorem Statement.WellFormed.namesIn {s : Statement} (hs : s.WellFormed) {form : Form Supplied}
    (h : (form.map Supplied.value).statement = .ok s) : NamesIn form.symbols := by
  have hsigns := Form.signsOf h
  rw [Form.symbols_map] at hsigns
  exact hsigns.of_map.namesIn hs.names

/-! ### Well-formed statements have a form and a layout -/

theorem exists_listing {α : Type} {as : List α} (h : as ≠ []) : ∃ l : Listing α, l.toList = as := by
  obtain ⟨first, others, rfl⟩ := List.exists_cons_of_ne_nil h
  exact ⟨⟨first, others⟩, rfl⟩

def Term.comparison (t : Term) : Comparison Value := ⟨t.field, t.op, t.value⟩

theorem exists_condition {condition : Option Clause} (h : Statement.ConditionIsTree condition) :
    ∃ c, conditionClause c = condition := by
  cases condition with
  | none => exact ⟨none, rfl⟩
  | some clause =>
      obtain ⟨tree, htree⟩ := h clause rfl
      have hterms : (tree.map Term.comparison).map Comparison.term = tree := by
        rw [Chain.map_map]
        exact tree.map_id
      refine ⟨some (tree.map Term.comparison), ?_⟩
      rw [conditionClause, Option.map_some, hterms, htree]

theorem exists_columns {columns : Columns} (h : columns ≠ .names []) :
    ∃ l, selectedColumns l = columns := by
  cases columns with
  | all => exact ⟨none, rfl⟩
  | names columns =>
      have hne : columns ≠ [] := fun hempty => h (congrArg Columns.names hempty)
      obtain ⟨l, rfl⟩ := exists_listing hne
      exact ⟨some l, rfl⟩

theorem exists_order {order : Option SortOrder} (h : ∀ o ∈ order, o.columns ≠ []) :
    ∃ o, Option.map WrittenOrder.order o = order := by
  cases order with
  | none => exact ⟨none, rfl⟩
  | some order =>
      obtain ⟨columns, direction⟩ := order
      obtain ⟨l, rfl⟩ := exists_listing (h _ rfl)
      exact ⟨some ⟨l, some direction⟩, rfl⟩

theorem exists_limit {limit : Option Nat} (h : ∀ n ∈ limit, n < 2 ^ 63) :
    ∃ v, readLimit v = .ok limit := by
  cases limit with
  | none => exact ⟨none, rfl⟩
  | some n =>
      have hn : n < 2 ^ 63 := h n rfl
      have hint : (Int64.ofInt n).toInt = n := Int64.toInt_ofInt_of_le (by omega) (by omega)
      have hlimit : Statement.limit? (.int (Int64.ofInt n)) = some n := by
        rw [Statement.limit?, hint, if_pos (Int.natCast_nonneg n), Int.toNat_natCast]
      exact ⟨some (.int (Int64.ofInt n)), by rw [readLimit, hlimit]⟩

theorem Statement.WellFormed.exists_form {s : Statement} (hs : s.WellFormed) :
    ∃ form : Form Value, form.statement = .ok s := by
  obtain ⟨-, hcomplete⟩ := hs
  cases s with
  | select s =>
      obtain ⟨columns, table, condition, order, limit⟩ := s
      obtain ⟨hcolumns, hcondition, horder, hlimit⟩ := hcomplete
      obtain ⟨l, rfl⟩ := exists_columns hcolumns
      obtain ⟨c, rfl⟩ := exists_condition hcondition
      obtain ⟨o, rfl⟩ := exists_order horder
      obtain ⟨v, hv⟩ := exists_limit hlimit
      exact ⟨.select l table c o v, by rw [Form.statement, hv]; rfl⟩
  | insert s =>
      obtain ⟨table, columns, values⟩ := s
      obtain ⟨hcolumns, hlength⟩ := hcomplete
      have hvalues : values ≠ [] := by
        rintro rfl
        exact hcolumns (List.length_eq_zero_iff.1 hlength)
      obtain ⟨names, rfl⟩ := exists_listing hcolumns
      obtain ⟨vs, rfl⟩ := exists_listing hvalues
      obtain ⟨entries, rfl, rfl⟩ := Listing.exists_zip names vs hlength
      exact ⟨.insert table entries, rfl⟩
  | update s =>
      obtain ⟨table, assignments, condition⟩ := s
      obtain ⟨hassignments, hcondition⟩ := hcomplete
      obtain ⟨l, rfl⟩ := exists_listing hassignments
      obtain ⟨c, rfl⟩ := exists_condition hcondition
      exact ⟨.update table l c, rfl⟩
  | delete s =>
      obtain ⟨table, condition⟩ := s
      obtain ⟨c, rfl⟩ := exists_condition hcomplete
      exact ⟨.delete table c, rfl⟩

theorem SignOf.exists_spells {names : List String} {t : Token} (h : SignOf names t) :
    ∃ w, Spells t w := by
  cases h with
  | @name name hname => exact ⟨_, .ident name⟩
  | keyword k =>
      obtain ⟨w, hw⟩ := exists_spellsKeyword k
      exact ⟨w, .keyword hw⟩
  | op c => exact ⟨_, .op c⟩
  | mark h => exact ⟨_, .mark h⟩

/-- Symbols are laid out with one blank before each. -/
theorem exists_layout {names : List String} {symbols : List (Symbol Supplied)}
    (hsigns : SignsOf names symbols) (hvalues : ∀ x ∈ valuesIn symbols, ∃ w, Written x w) :
    ∃ cs, Parted cs ∧ Layout Written symbols cs := by
  induction symbols with
  | nil => exact ⟨[' '], parted_space [], .nil isBlank_of_mem_space⟩
  | cons x symbols ih =>
      have hsigns' : SignsOf names symbols := fun t ht => hsigns t (List.mem_cons_of_mem _ ht)
      cases x with
      | sign t =>
          obtain ⟨cs, hcs, hlayout⟩ := ih hsigns' hvalues
          obtain ⟨w, hw⟩ := (hsigns t List.mem_cons_self).exists_spells
          exact ⟨_, parted_space _, .sign isBlank_of_mem_space hw hcs hlayout⟩
      | value x =>
          obtain ⟨cs, hcs, hlayout⟩ := ih hsigns' fun y hy => hvalues y (List.mem_cons_of_mem _ hy)
          obtain ⟨w, hw⟩ := hvalues x List.mem_cons_self
          exact ⟨_, parted_space _, .value isBlank_of_mem_space hw hcs hlayout⟩

end TableQuery
