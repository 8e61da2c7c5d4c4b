import TableQuery.Proofs.Statement.Derivation
import TableQuery.Proofs.Statement.WellFormed

/-! Where the names and the values of a statement stand in its form. The names are the identifiers among
its signs, and the values are what its places hold, a limit in the last of them. -/

namespace TableQuery

/-- The name that a symbol is. -/
def Symbol.name? {ν : Type} : Symbol ν → Option String
  | .sign (.ident name) => some name
  | _ => none

/-- The names among some symbols, in their order. -/
def namesOf {ν : Type} (symbols : List (Symbol ν)) : List String := symbols.filterMap Symbol.name?

def ClausePart.value? : ClausePart → Option Value
  | .term t => some t.value
  | _ => none

/-- The values that an optional condition compares with. -/
def conditionValues : Option Clause → List Value
  | none => []
  | some c => c.parts.filterMap ClausePart.value?

/-- Every value in a statement: compared with, inserted or assigned. -/
def Statement.values : Statement → List Value
  | .select s => conditionValues s.condition
  | .insert s => s.values
  | .update s => s.assignments.map Prod.snd ++ conditionValues s.condition
  | .delete s => conditionValues s.condition

section Symbols

variable {ν : Type} {a b : List (Symbol ν)}

@[simp] theorem namesOf_nil : namesOf ([] : List (Symbol ν)) = [] := rfl

@[simp] theorem valuesIn_nil : valuesIn ([] : List (Symbol ν)) = [] := rfl

@[simp] theorem namesOf_append : namesOf (a ++ b) = namesOf a ++ namesOf b := List.filterMap_append

@[simp] theorem valuesIn_append : valuesIn (a ++ b) = valuesIn a ++ valuesIn b := List.filterMap_append

@[simp] theorem namesOf_value (v : ν) : namesOf (.value v :: a) = namesOf a := rfl

@[simp] theorem namesOf_ident (name : String) : namesOf (.sign (.ident name) :: a) = name :: namesOf a := rfl

theorem namesOf_sign {t : Token} (ht : ∀ name, t ≠ .ident name) : namesOf (.sign t :: a) = namesOf a := by
  cases t with
  | ident name => exact absurd rfl (ht name)
  | _ => rfl

theorem namesOf_map {μ : Type} (f : ν → μ) (a : List (Symbol ν)) :
    namesOf (a.map (Symbol.map f)) = namesOf a := by
  have hname : Symbol.name? ∘ Symbol.map f = Symbol.name? := by
    funext x
    cases x with
    | sign t => cases t <;> rfl
    | value v => rfl
  rw [namesOf, List.filterMap_map, hname]
  rfl

theorem mem_namesOf {name : String} : name ∈ namesOf a ↔ .sign (.ident name) ∈ a := by
  rw [namesOf, List.mem_filterMap]
  constructor
  · rintro ⟨x, hx, hname⟩
    rw [Symbol.name?.eq_def] at hname
    split at hname <;> cases hname
    exact hx
  · intro h
    exact ⟨_, h, rfl⟩

theorem mem_valuesIn {v : ν} : v ∈ valuesIn a ↔ .value v ∈ a := by
  rw [valuesIn, List.mem_filterMap]
  constructor
  · rintro ⟨x, hx, hv⟩
    cases x with
    | sign t => cases hv
    | value w =>
        cases hv
        exact hx
  · intro h
    exact ⟨_, h, rfl⟩

variable {α : Type} (entry : α → List (Symbol ν)) (l : Listing α)

theorem namesOf_flatMap (as : List α) : namesOf (as.flatMap entry) = as.flatMap fun x => namesOf (entry x) :=
  List.filterMap_flatMap

theorem valuesIn_flatMap (as : List α) : valuesIn (as.flatMap entry) = as.flatMap fun x => valuesIn (entry x) :=
  List.filterMap_flatMap

theorem namesOf_listing : namesOf (l.symbols entry) = l.toList.flatMap fun x => namesOf (entry x) := by
  rw [Listing.symbols, namesOf_append, namesOf_flatMap]
  rfl

theorem valuesIn_listing : valuesIn (l.symbols entry) = l.toList.flatMap fun x => valuesIn (entry x) := by
  rw [Listing.symbols, valuesIn_append, valuesIn_flatMap]
  rfl

@[simp] theorem namesOf_names (l : Listing String) :
    namesOf (l.symbols nameSymbols : List (Symbol ν)) = l.toList := by
  rw [namesOf_listing]
  exact List.flatMap_singleton' _

@[simp] theorem valuesIn_names (l : Listing String) :
    valuesIn (l.symbols nameSymbols : List (Symbol ν)) = [] := by
  rw [valuesIn_listing]
  exact List.flatMap_eq_nil_iff.2 fun _ _ => rfl

@[simp] theorem namesOf_values (l : Listing ν) : namesOf (l.symbols valueSymbols) = [] := by
  rw [namesOf_listing]
  exact List.flatMap_eq_nil_iff.2 fun _ _ => rfl

@[simp] theorem valuesIn_values (l : Listing ν) : valuesIn (l.symbols valueSymbols) = l.toList := by
  rw [valuesIn_listing]
  exact List.flatMap_singleton' _

@[simp] theorem namesOf_assignments (l : Listing (String × ν)) :
    namesOf (l.symbols assignmentSymbols) = l.toList.map Prod.fst := by
  rw [namesOf_listing, List.map_eq_flatMap]
  rfl

@[simp] theorem valuesIn_assignments (l : Listing (String × ν)) :
    valuesIn (l.symbols assignmentSymbols) = l.toList.map Prod.snd := by
  rw [valuesIn_listing, List.map_eq_flatMap]
  rfl

@[simp] theorem namesOf_path (p : TablePath) : namesOf (p.symbols : List (Symbol ν)) = p.names := by
  obtain ⟨_ | datastore, table⟩ := p <;> rfl

@[simp] theorem valuesIn_path (p : TablePath) : valuesIn (p.symbols : List (Symbol ν)) = [] := by
  obtain ⟨_ | datastore, table⟩ := p <;> rfl

@[simp] theorem namesOf_columns (columns : Option (Listing String)) :
    namesOf (columnsSymbols columns : List (Symbol ν)) = (selectedColumns columns).listed := by
  cases columns with
  | none => rfl
  | some columns => exact namesOf_names columns

@[simp] theorem valuesIn_columns (columns : Option (Listing String)) :
    valuesIn (columnsSymbols columns : List (Symbol ν)) = [] := by
  cases columns with
  | none => rfl
  | some columns => exact valuesIn_names columns

@[simp] theorem namesOf_order (order : Option WrittenOrder) :
    namesOf (orderSymbols order : List (Symbol ν)) = orderNames (order.map WrittenOrder.order) := by
  cases order with
  | none => rfl
  | some o =>
      have hdirection : namesOf (directionSymbols o.direction : List (Symbol ν)) = [] := by
        rcases o.direction with _ | _ | _ <;> rfl
      rw [orderSymbols, namesOf_sign (by simp), namesOf_append, namesOf_names, hdirection, List.append_nil]
      rfl

@[simp] theorem valuesIn_order (order : Option WrittenOrder) :
    valuesIn (orderSymbols order : List (Symbol ν)) = [] := by
  cases order with
  | none => rfl
  | some o =>
      have hdirection : valuesIn (directionSymbols o.direction : List (Symbol ν)) = [] := by
        rcases o.direction with _ | _ | _ <;> rfl
      rw [orderSymbols, valuesIn_sign, valuesIn_append, valuesIn_names, hdirection]
      rfl

@[simp] theorem namesOf_limit (limit : Option ν) : namesOf (limitSymbols limit) = [] := by
  cases limit <;> rfl

@[simp] theorem valuesIn_limit (limit : Option ν) : valuesIn (limitSymbols limit) = limit.toList := by
  cases limit <;> rfl

end Symbols

theorem parts_condition (c : Chain (Comparison Value)) :
    (c.map Comparison.term).parts = c.pieces.map fun p => (p.map Comparison.term).part := by
  rw [Chain.parts, Chain.pieces_map, List.map_map]
  rfl

@[simp] theorem namesOf_condition (condition : Option (Chain (Comparison Value))) :
    namesOf (conditionSymbols condition) = conditionNames (conditionClause condition) := by
  have hpiece : ∀ p : Piece (Comparison Value), namesOf p.symbols = (p.map Comparison.term).part.names := by
    intro p
    cases p with
    | joiner j => cases j <;> rfl
    | _ => rfl
  cases condition with
  | none => rfl
  | some c =>
      simp only [conditionSymbols, conditionClause, Option.map_some, conditionNames, parts_condition,
        namesOf_sign (t := .keyword .whereRows) (by simp), namesOf_flatMap, hpiece, List.flatMap_map]

@[simp] theorem valuesIn_condition (condition : Option (Chain (Comparison Value))) :
    valuesIn (conditionSymbols condition) = conditionValues (conditionClause condition) := by
  have hpiece : ∀ p : Piece (Comparison Value),
      valuesIn p.symbols = (p.map Comparison.term).part.value?.toList := by
    intro p
    cases p with
    | joiner j => cases j <;> rfl
    | _ => rfl
  cases condition with
  | none => rfl
  | some c =>
      simp only [conditionSymbols, conditionClause, Option.map_some, conditionValues, parts_condition,
        valuesIn_sign, valuesIn_flatMap, hpiece, List.filterMap_map]
      exact (List.filterMap_eq_flatMap_toList _ _).symm

/-- **The names of a statement are the identifiers of its form, in their order.** -/
theorem Form.namesOf_symbols {form : Form Value} {s : Statement} (h : form.statement = .ok s) :
    namesOf form.symbols = s.names := by
  cases form with
  | select columns table condition order limit =>
      obtain ⟨n, -, rfl⟩ := map_eq_ok_iff.1 h
      simp [symbols, Statement.names, namesOf_sign]
  | insert table entries =>
      cases h
      simp [symbols, Statement.names, namesOf_sign]
  | update table assignments condition =>
      cases h
      simp [symbols, Statement.names, namesOf_sign]
  | delete table condition =>
      cases h
      simp [symbols, Statement.names, namesOf_sign]

/-- **The values of a statement are what its form holds in its places, but for the limit behind them.** -/
theorem Form.valuesIn_symbols {form : Form Value} {s : Statement} (h : form.statement = .ok s) :
    valuesIn form.symbols = s.values ++ form.limit?.toList := by
  cases form with
  | select columns table condition order limit =>
      obtain ⟨n, -, rfl⟩ := map_eq_ok_iff.1 h
      simp [symbols, Statement.values, Form.limit?]
  | insert table entries =>
      cases h
      simp [symbols, Statement.values, Form.limit?]
  | update table assignments condition =>
      cases h
      simp [symbols, Statement.values, Form.limit?]
  | delete table condition =>
      cases h
      simp [symbols, Statement.values, Form.limit?]

end TableQuery
