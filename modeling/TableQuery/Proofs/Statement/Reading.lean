import TableQuery.Proofs.Statement.Form
import TableQuery.Proofs.Outcome

/-! Reading the tokens of a form gives the form's statement. Each step of the reader takes exactly the
tokens that its part of the form is written with, provided that what follows does not go on with that
part. -/

namespace TableQuery

/-- The tokens begin with those of the symbols, and go on with `rest`. A token in the place of a value
stands in the relation `R` to it. -/
inductive Leads {ν : Type} (R : ν → Token → Prop) : List (Symbol ν) → List Token → List Token → Prop
  | nil {ts : List Token} : Leads R [] ts ts
  | sign {symbols : List (Symbol ν)} {t : Token} {ts rest : List Token} :
      Leads R symbols ts rest → Leads R (.sign t :: symbols) (t :: ts) rest
  | value {symbols : List (Symbol ν)} {v : ν} {t : Token} {ts rest : List Token} :
      R v t → Leads R symbols ts rest → Leads R (.value v :: symbols) (t :: ts) rest

namespace Leads

variable {ν μ : Type} {R : ν → Token → Prop} {S : μ → Token → Prop}

theorem append_iff {a b : List (Symbol ν)} {ts rest : List Token} :
    Leads R (a ++ b) ts rest ↔ ∃ between, Leads R a ts between ∧ Leads R b between rest := by
  constructor
  · intro h
    induction a generalizing ts with
    | nil => exact ⟨ts, .nil, h⟩
    | cons x a ih =>
        cases h with
        | sign h =>
            obtain ⟨between, hleft, hright⟩ := ih h
            exact ⟨between, .sign hleft, hright⟩
        | value hv h =>
            obtain ⟨between, hleft, hright⟩ := ih h
            exact ⟨between, .value hv hleft, hright⟩
  · rintro ⟨between, hleft, hright⟩
    induction hleft with
    | nil => exact hright
    | sign _ ih => exact .sign (ih hright)
    | value hv _ ih => exact .value hv (ih hright)

theorem map {f : ν → μ} (hf : ∀ v t, R v t → S (f v) t) {symbols : List (Symbol ν)}
    {ts rest : List Token} (h : Leads R symbols ts rest) :
    Leads S (symbols.map (Symbol.map f)) ts rest := by
  induction h with
  | nil => exact .nil
  | sign _ ih => exact .sign ih
  | value hv _ ih => exact .value (hf _ _ hv) ih

end Leads

/-- The token stands for the value. -/
def Extraction.Means (e : Extraction) (v : Value) (t : Token) : Prop := Statement.value? e t = some v

/-- Where a token stands among the parts that end a command: the condition, the order, the limit and
the end itself. Every other token is inside some part. -/
def Token.depth : Token → Nat
  | .keyword .whereRows => 3
  | .keyword .orderBy => 2
  | .keyword .limit => 1
  | .semicolon => 0
  | .eof => 0
  | _ => 4

theorem Token.of_depth_le_two {t : Token} (h : t.depth ≤ 2) :
    t = .keyword .orderBy ∨ t = .keyword .limit ∨ t = .semicolon ∨ t = .eof := by
  cases t with
  | keyword k => cases k <;> simp [Token.depth] at h ⊢
  | semicolon => simp
  | eof => simp
  | _ => simp [Token.depth] at h

namespace Statement

variable {e : Extraction} {ts rest : List Token}

/-! ### Lists -/

theorem takeMoreIdents_stop (h : current ts ≠ .comma) : takeMoreIdents ts = .ok ([], ts) := by
  rcases ts with _ | ⟨t, ts⟩
  · rfl
  · cases t with
    | comma => exact absurd rfl h
    | _ => rfl

theorem takeMoreValues_stop (h : current ts ≠ .comma) : takeMoreValues e ts = .ok ([], ts) := by
  rcases ts with _ | ⟨t, ts⟩
  · rfl
  · cases t with
    | comma => exact absurd rfl h
    | _ => rfl

theorem takeMoreAssignments_stop (h : current ts ≠ .comma) :
    takeMoreAssignments e ts = .ok ([], ts) := by
  rcases ts with _ | ⟨t, ts⟩
  · rfl
  · cases t with
    | comma => exact absurd rfl h
    | _ => rfl

theorem takeMoreIdents_of_leads {words : List String}
    (h : Leads e.Means (words.flatMap fun w => .sign .comma :: nameSymbols w) ts rest)
    (hrest : current rest ≠ .comma) : takeMoreIdents ts = .ok (words, rest) := by
  induction words generalizing ts with
  | nil =>
      cases h
      exact takeMoreIdents_stop hrest
  | cons w words ih =>
      rcases h with _ | h | _
      rcases h with _ | h | _
      rw [takeMoreIdents, ih h]
      rfl

theorem takeIdents_of_leads {l : Listing String} (h : Leads e.Means (l.symbols nameSymbols) ts rest)
    (hrest : current rest ≠ .comma) : takeIdents ts = .ok (l.toList, rest) := by
  obtain ⟨first, others⟩ := l
  rcases h with _ | h | _
  have hothers : takeMoreIdents _ = .ok (others, rest) := takeMoreIdents_of_leads h hrest
  simp only [takeIdents, takeIdent, ok_bind, hothers]
  rfl

theorem takeMoreValues_of_leads {vs : List Value}
    (h : Leads e.Means (vs.flatMap fun v => .sign .comma :: valueSymbols v) ts rest)
    (hrest : current rest ≠ .comma) : takeMoreValues e ts = .ok (vs, rest) := by
  induction vs generalizing ts with
  | nil =>
      cases h
      exact takeMoreValues_stop hrest
  | cons v vs ih =>
      rcases h with _ | h | _
      rcases h with _ | _ | ⟨hv, h⟩
      rw [takeMoreValues, hv, ih h]
      rfl

theorem takeValue_of_leads {v : Value} (h : Leads e.Means [.value v] ts rest) :
    takeValue e ts = .ok (v, rest) := by
  rcases h with _ | _ | ⟨hv, h⟩
  cases h
  rw [takeValue, current, hv]
  rfl

theorem takeValues_of_leads {l : Listing Value} (h : Leads e.Means (l.symbols valueSymbols) ts rest)
    (hrest : current rest ≠ .comma) : takeValues e ts = .ok (l.toList, rest) := by
  obtain ⟨between, hfirst, hothers⟩ := Leads.append_iff.1 h
  simp only [takeValues, takeValue_of_leads hfirst, ok_bind, takeMoreValues_of_leads hothers hrest]
  rfl

theorem takeMoreAssignments_of_leads {as : List (String × Value)}
    (h : Leads e.Means (as.flatMap fun a => .sign .comma :: assignmentSymbols a) ts rest)
    (hrest : current rest ≠ .comma) : takeMoreAssignments e ts = .ok (as, rest) := by
  induction as generalizing ts with
  | nil =>
      cases h
      exact takeMoreAssignments_stop hrest
  | cons a as ih =>
      rcases h with _ | h | _
      rcases h with _ | h | _
      rcases h with _ | h | _
      rcases h with _ | _ | ⟨hv, h⟩
      rw [takeMoreAssignments, hv, ih h]
      rfl

theorem expect_cons (t : Token) (ts : List Token) : expect t (t :: ts) = .ok ts :=
  if_pos rfl

theorem takeAssignment_of_leads {a : String × Value} (h : Leads e.Means (assignmentSymbols a) ts rest) :
    takeAssignment e ts = .ok (a, rest) := by
  rcases h with _ | h | _
  rcases h with _ | h | _
  simp only [takeAssignment, takeIdent, ok_bind, expect_cons, takeValue_of_leads h]
  rfl

/-! ### The parts of a command -/

theorem takePath_of_leads {p : TablePath} (h : Leads e.Means p.symbols ts rest)
    (hrest : current rest ≠ .dot) : takePath ts = .ok (p, rest) := by
  obtain ⟨datastore, table⟩ := p
  cases datastore with
  | none =>
      rcases h with _ | h | _
      cases h
      simp only [takePath, takeIdent, ok_bind]
      rcases rest with _ | ⟨t, rest⟩
      · rfl
      · cases t with
        | dot => exact absurd rfl hrest
        | _ => rfl
  | some datastore =>
      rcases h with _ | h | _
      rcases h with _ | h | _
      rcases h with _ | h | _
      cases h
      rfl

theorem takeParts_stop (h : (current ts).depth ≤ 2) : takeParts e ts = .ok ([], ts) := by
  rcases ts with _ | ⟨t, ts⟩
  · rw [takeParts]
  · rcases Token.of_depth_le_two h with rfl | rfl | rfl | rfl
    all_goals rw [takeParts]

theorem takeParts_of_leads {ps : List (Piece (Comparison Value))}
    (h : Leads e.Means (ps.flatMap Piece.symbols) ts rest) (hrest : (current rest).depth ≤ 2) :
    takeParts e ts = .ok (ps.map fun p => (p.map Comparison.term).part, rest) := by
  induction ps generalizing ts with
  | nil =>
      cases h
      exact takeParts_stop hrest
  | cons p ps ih =>
      cases p with
      | leaf c =>
          rcases h with _ | h | _
          rcases h with _ | h | _
          rcases h with _ | _ | ⟨hv, h⟩
          rw [takeParts, hv, ih h]
          rfl
      | joiner j =>
          cases j with
          | and =>
              rcases h with _ | h | _
              rw [takeParts, ih h]
              rfl
          | or =>
              rcases h with _ | h | _
              rw [takeParts, ih h]
              rfl
      | openGroup =>
          rcases h with _ | h | _
          rw [takeParts, ih h]
          rfl
      | closeGroup =>
          rcases h with _ | h | _
          rw [takeParts, ih h]
          rfl

theorem takeCondition_of_leads {condition : Option (Chain (Comparison Value))}
    (h : Leads e.Means (conditionSymbols condition) ts rest) (hrest : (current rest).depth ≤ 2) :
    takeCondition e ts = .ok (conditionClause condition, rest) := by
  cases condition with
  | none =>
      cases h
      rcases ts with _ | ⟨t, ts⟩
      · rfl
      · cases t with
        | keyword k => cases k <;> first | rfl | simp [current, Token.depth] at hrest
        | _ => rfl
  | some c =>
      rcases h with _ | h | _
      have hparts : c.pieces.map (fun p => (p.map Comparison.term).part) =
          (c.map Comparison.term).parts := by
        rw [Chain.parts, Chain.pieces_map, List.map_map]
        rfl
      simp only [takeCondition, takeParts_of_leads h hrest, ok_bind, hparts, Clause.ofParts_parts]
      rfl

theorem takeOrder_of_leads {order : Option WrittenOrder} (h : Leads e.Means (orderSymbols order) ts rest)
    (hrest : (current rest).depth ≤ 1) :
    takeOrder ts = .ok (order.map WrittenOrder.order, rest) := by
  cases order with
  | none =>
      cases h
      rcases ts with _ | ⟨t, ts⟩
      · rfl
      · cases t with
        | keyword k => cases k <;> first | rfl | simp [current, Token.depth] at hrest
        | _ => rfl
  | some o =>
      obtain ⟨columns, direction⟩ := o
      rcases h with _ | h | _
      obtain ⟨between, hcolumns, hdirection⟩ := Leads.append_iff.1 h
      rcases direction with _ | _ | _
      · cases hdirection
        have hcomma : current rest ≠ .comma := by
          intro hc
          rw [hc] at hrest
          simp [Token.depth] at hrest
        simp only [takeOrder, takeIdents_of_leads hcolumns hcomma, ok_bind]
        split
        · simp [current, Token.depth] at hrest
        · simp [current, Token.depth] at hrest
        · rfl
      · rcases hdirection with _ | h | _
        cases h
        simp only [takeOrder, takeIdents_of_leads hcolumns (by simp [current]), ok_bind]
        rfl
      · rcases hdirection with _ | h | _
        cases h
        simp only [takeOrder, takeIdents_of_leads hcolumns (by simp [current]), ok_bind]
        rfl

theorem takeLimit_of_leads {limit : Option Value} (h : Leads e.Means (limitSymbols limit) ts rest)
    (hrest : (current rest).depth ≤ 0) :
    takeLimit e ts = (readLimit limit).map fun n => (n, rest) := by
  cases limit with
  | none =>
      cases h
      rcases ts with _ | ⟨t, ts⟩
      · rfl
      · cases t with
        | keyword k => cases k <;> first | rfl | simp [current, Token.depth] at hrest
        | _ => rfl
  | some v =>
      rcases h with _ | h | _
      simp only [takeLimit, takeValue_of_leads h, ok_bind, readLimit]
      cases limit? v <;> rfl

/-! ### Where the parts of a command begin -/

section Depth

variable {ν : Type} {R : ν → Token → Prop}

theorem depth_of_limit {limit : Option ν} (h : Leads R (limitSymbols limit) ts rest)
    (hrest : (current rest).depth ≤ 1) : (current ts).depth ≤ 1 := by
  cases limit with
  | none =>
      cases h
      exact hrest
  | some v =>
      rcases h with _ | h | _
      exact Nat.le_refl 1

theorem depth_of_order {order : Option WrittenOrder} (h : Leads R (orderSymbols order) ts rest)
    (hrest : (current rest).depth ≤ 2) : (current ts).depth ≤ 2 := by
  cases order with
  | none =>
      cases h
      exact hrest
  | some o =>
      rcases h with _ | h | _
      exact Nat.le_refl 2

theorem depth_of_condition {condition : Option (Chain (Comparison ν))}
    (h : Leads R (conditionSymbols condition) ts rest) (hrest : (current rest).depth ≤ 3) :
    (current ts).depth ≤ 3 := by
  cases condition with
  | none =>
      cases h
      exact hrest
  | some c =>
      rcases h with _ | h | _
      exact Nat.le_refl 3

end Depth

theorem ne_of_depth {t u : Token} (ht : t.depth ≤ 3) (hu : u.depth = 4) : t ≠ u := by
  rintro rfl
  omega

/-! ### Commands -/

theorem takeColumns_of_leads {columns : Option (Listing String)}
    (h : Leads e.Means (columnsSymbols columns) ts rest) (hrest : current rest ≠ .comma) :
    takeColumns ts = .ok (selectedColumns columns, rest) := by
  cases columns with
  | none =>
      rcases h with _ | h | _
      cases h
      rfl
  | some columns =>
      have hidents := takeIdents_of_leads h hrest
      rcases h with _ | h | _
      simp only [takeColumns, hidents, ok_bind]
      rfl

theorem takeSelect_of_leads {columns : Option (Listing String)} {table : TablePath}
    {condition : Option (Chain (Comparison Value))} {order : Option WrittenOrder}
    {limit : Option Value}
    (h : Leads e.Means (Form.select columns table condition order limit).symbols
      (.keyword .select :: ts) rest) (hrest : (current rest).depth ≤ 0) :
    takeSelect e ts =
      (Form.select columns table condition order limit).statement.map fun s => (s, rest) := by
  rcases h with _ | h | _
  obtain ⟨ts₁, hcolumns, h⟩ := Leads.append_iff.1 h
  rcases h with _ | h | _
  obtain ⟨ts₂, htable, h⟩ := Leads.append_iff.1 h
  obtain ⟨ts₃, hcondition, h⟩ := Leads.append_iff.1 h
  obtain ⟨ts₄, horder, hlimit⟩ := Leads.append_iff.1 h
  have hts₄ : (current ts₄).depth ≤ 1 := depth_of_limit hlimit (by omega)
  have hts₃ : (current ts₃).depth ≤ 2 := depth_of_order horder (by omega)
  have hts₂ : (current ts₂).depth ≤ 3 := depth_of_condition hcondition (by omega)
  simp only [takeSelect, takeColumns_of_leads hcolumns (by simp [current]), ok_bind, expect_cons,
    takePath_of_leads htable (ne_of_depth hts₂ rfl), takeCondition_of_leads hcondition hts₃,
    takeOrder_of_leads horder hts₄, takeLimit_of_leads hlimit hrest, Form.statement]
  cases readLimit limit <;> rfl

theorem takeInsert_of_leads {table : TablePath} {entries : Listing (String × Value)}
    (h : Leads e.Means (Form.insert table entries).symbols (.keyword .insertInto :: ts) rest) :
    takeInsert e ts = (Form.insert table entries).statement.map fun s => (s, rest) := by
  rcases h with _ | h | _
  obtain ⟨ts₁, htable, h⟩ := Leads.append_iff.1 h
  rcases h with _ | h | _
  obtain ⟨ts₂, hcolumns, h⟩ := Leads.append_iff.1 h
  rcases h with _ | h | _
  rcases h with _ | h | _
  rcases h with _ | h | _
  obtain ⟨ts₃, hvalues, h⟩ := Leads.append_iff.1 h
  rcases h with _ | h | _
  cases h
  have hcount : (entries.map Prod.fst).toList.length = (entries.map Prod.snd).toList.length := by
    simp [Listing.toList, Listing.map]
  simp only [takeInsert, takePath_of_leads htable (by simp [current]), ok_bind, expect_cons,
    takeIdents_of_leads hcolumns (by simp [current]),
    takeValues_of_leads hvalues (by simp [current]), if_pos hcount]
  rfl

theorem takeUpdate_of_leads {table : TablePath} {assignments : Listing (String × Value)}
    {condition : Option (Chain (Comparison Value))}
    (h : Leads e.Means (Form.update table assignments condition).symbols (.keyword .update :: ts) rest)
    (hrest : (current rest).depth ≤ 0) :
    takeUpdate e ts = (Form.update table assignments condition).statement.map fun s => (s, rest) := by
  rcases h with _ | h | _
  obtain ⟨ts₁, htable, h⟩ := Leads.append_iff.1 h
  rcases h with _ | h | _
  obtain ⟨ts₂, hassignments, hcondition⟩ := Leads.append_iff.1 h
  obtain ⟨ts₃, hfirst, hothers⟩ := Leads.append_iff.1 hassignments
  have hts₂ : (current ts₂).depth ≤ 3 := depth_of_condition hcondition (by omega)
  simp only [takeUpdate, takePath_of_leads htable (by simp [current]), ok_bind, expect_cons,
    takeAssignment_of_leads hfirst,
    takeMoreAssignments_of_leads hothers (ne_of_depth hts₂ rfl),
    takeCondition_of_leads hcondition (by omega)]
  rfl

theorem takeDelete_of_leads {table : TablePath} {condition : Option (Chain (Comparison Value))}
    (h : Leads e.Means (Form.delete table condition).symbols (.keyword .deleteFrom :: ts) rest)
    (hrest : (current rest).depth ≤ 0) :
    takeDelete e ts = (Form.delete table condition).statement.map fun s => (s, rest) := by
  rcases h with _ | h | _
  obtain ⟨ts₁, htable, hcondition⟩ := Leads.append_iff.1 h
  have hts₁ : (current ts₁).depth ≤ 3 := depth_of_condition hcondition (by omega)
  simp only [takeDelete, takePath_of_leads htable (ne_of_depth hts₁ rfl), ok_bind,
    takeCondition_of_leads hcondition (by omega)]
  rfl

theorem takeCommand_of_leads {form : Form Value} (h : Leads e.Means form.symbols ts rest)
    (hrest : (current rest).depth ≤ 0) :
    takeCommand e ts = form.statement.map fun s => (s, rest) := by
  cases form with
  | select columns table condition order limit =>
      have hts := h
      rcases h with _ | h | _
      exact takeSelect_of_leads hts hrest
  | insert table entries =>
      have hts := h
      rcases h with _ | h | _
      exact takeInsert_of_leads hts
  | update table assignments condition =>
      have hts := h
      rcases h with _ | h | _
      exact takeUpdate_of_leads hts hrest
  | delete table condition =>
      have hts := h
      rcases h with _ | h | _
      exact takeDelete_of_leads hts hrest

/-- The end of the tokens, or one semicolon before it. -/
def Ends (ts : List Token) : Prop :=
  current ts = .eof ∨ current ts = .semicolon ∧ current ts.tail = .eof

/-- **The tokens of a form are read as the form's statement.** -/
theorem ofTokens_of_leads {form : Form Value} (h : Leads e.Means form.symbols ts rest)
    (hrest : Ends rest) : ofTokens e ts = form.statement := by
  have hdepth : (current rest).depth ≤ 0 := by
    rcases hrest with hend | ⟨hsemicolon, -⟩
    · rw [hend]
      exact Nat.le_refl 0
    · rw [hsemicolon]
      exact Nat.le_refl 0
  rw [ofTokens, takeCommand_of_leads h hdepth]
  cases form.statement with
  | error err => rfl
  | ok s =>
      rcases hrest with hend | ⟨hsemicolon, hend⟩
      · have hnone : current rest ≠ .semicolon := by simp [hend]
        simp only [Except.map, ok_bind, if_neg hnone, if_pos hend]
        rfl
      · simp only [Except.map, ok_bind, if_pos hsemicolon, if_pos hend]
        rfl

end Statement
end TableQuery
