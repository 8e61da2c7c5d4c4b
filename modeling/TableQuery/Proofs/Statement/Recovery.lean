import TableQuery.Proofs.Statement.Reading

/-! What is read has a form. Each step of the reader takes the tokens of some form's part, with a
scalar in the place of each value, so a token list is a command exactly if it is the tokens of a
form. -/

namespace TableQuery

/-- What a token that can stand for a value holds. -/
inductive Scalar
  | number (n : Int64)
  | float (x : Binary64)
  | word (w : String)

namespace Scalar

def token : Scalar → Token
  | .number n => .number n
  | .float x => .float x
  | .word w => .ident w

/-- The value that the scalar stands for, a label standing for the value that left it. -/
def value (e : Extraction) : Scalar → Value
  | .number n => .int n
  | .float x => .float x
  | .word w => (e.resolve? w).getD (Statement.bareWord w)

def Stands (x : Scalar) (t : Token) : Prop := x.token = t

theorem means_of_stands (e : Extraction) (x : Scalar) (t : Token) (h : x.Stands t) :
    e.Means (x.value e) t := by
  cases h
  cases x <;> rfl

theorem exists_of_value? {e : Extraction} {t : Token} {v : Value}
    (h : Statement.value? e t = some v) : ∃ x : Scalar, x.token = t ∧ x.value e = v := by
  cases t with
  | number n =>
      cases h
      exact ⟨.number n, rfl, rfl⟩
  | float x =>
      cases h
      exact ⟨.float x, rfl, rfl⟩
  | ident w =>
      cases h
      exact ⟨.word w, rfl, rfl⟩
  | _ => cases h

end Scalar

namespace Statement

variable {e : Extraction} {ts rest : List Token} {ν : Type} {R : ν → Token → Prop}

theorem eq_cons_of_takeIdent {word : String} (h : takeIdent ts = .ok (word, rest)) :
    ts = .ident word :: rest := by
  rcases ts with _ | ⟨t, ts⟩
  · cases h
  · cases t with
    | ident w =>
        cases h
        rfl
    | _ => cases h

theorem eq_cons_of_expect {wanted : Token} (hwanted : wanted ≠ .eof)
    (h : expect wanted ts = .ok rest) : ts = wanted :: rest := by
  rw [expect] at h
  split at h
  · rcases ts with _ | ⟨t, ts⟩
    · exact absurd ‹_› hwanted.symm
    · cases h
      exact congrArg (· :: ts) ‹_›
  · cases h

theorem exists_scalar_of_takeValue {v : Value} (h : takeValue e ts = .ok (v, rest)) :
    ∃ x : Scalar, x.value e = v ∧ ts = x.token :: rest := by
  rw [takeValue] at h
  split at h
  · rename_i w hw
    cases h
    obtain ⟨x, htoken, hvalue⟩ := Scalar.exists_of_value? hw
    refine ⟨x, hvalue, ?_⟩
    rcases ts with _ | ⟨t, ts⟩
    · cases hw
    · rw [htoken]
      rfl
  · cases h

/-! ### Lists -/

theorem leads_of_takeMoreIdents {words : List String} (h : takeMoreIdents ts = .ok (words, rest)) :
    Leads R (words.flatMap fun w => .sign .comma :: nameSymbols w) ts rest := by
  fun_induction takeMoreIdents ts generalizing words rest with
  | case1 word ts ih =>
      obtain ⟨⟨others, after⟩, hothers, h⟩ := bind_eq_ok_iff.1 h
      cases h
      exact .sign (.sign (ih hothers))
  | case2 ts => cases h
  | case3 ts =>
      cases h
      exact .nil

theorem leads_of_takeIdents {words : List String} (h : takeIdents ts = .ok (words, rest)) :
    ∃ l : Listing String, l.toList = words ∧ Leads R (l.symbols nameSymbols) ts rest := by
  obtain ⟨⟨first, after⟩, hfirst, h⟩ := bind_eq_ok_iff.1 h
  obtain ⟨⟨others, after'⟩, hothers, h⟩ := bind_eq_ok_iff.1 h
  cases h
  rw [eq_cons_of_takeIdent hfirst]
  exact ⟨⟨first, others⟩, rfl, .sign (leads_of_takeMoreIdents hothers)⟩

theorem leads_of_takeMoreValues {vs : List Value} (h : takeMoreValues e ts = .ok (vs, rest)) :
    ∃ xs : List Scalar, xs.map (Scalar.value e) = vs ∧
      Leads Scalar.Stands (xs.flatMap fun x => .sign .comma :: valueSymbols x) ts rest := by
  fun_induction takeMoreValues e ts generalizing vs rest with
  | case1 t ts v hv ih =>
      obtain ⟨⟨others, after⟩, hothers, h⟩ := bind_eq_ok_iff.1 h
      cases h
      obtain ⟨x, htoken, hvalue⟩ := Scalar.exists_of_value? hv
      obtain ⟨xs, hvalues, hleads⟩ := ih hothers
      exact ⟨x :: xs, by rw [List.map_cons, hvalue, hvalues], .sign (.value htoken hleads)⟩
  | case2 t ts hv => cases h
  | case3 => cases h
  | case4 ts =>
      cases h
      exact ⟨[], rfl, .nil⟩

theorem leads_of_takeValues {vs : List Value} (h : takeValues e ts = .ok (vs, rest)) :
    ∃ l : Listing Scalar, (l.map (Scalar.value e)).toList = vs ∧
      Leads Scalar.Stands (l.symbols valueSymbols) ts rest := by
  obtain ⟨⟨first, after⟩, hfirst, h⟩ := bind_eq_ok_iff.1 h
  obtain ⟨⟨others, after'⟩, hothers, h⟩ := bind_eq_ok_iff.1 h
  cases h
  obtain ⟨x, hvalue, rfl⟩ := exists_scalar_of_takeValue hfirst
  obtain ⟨xs, hvalues, hleads⟩ := leads_of_takeMoreValues hothers
  refine ⟨⟨x, xs⟩, ?_, .value rfl hleads⟩
  rw [Listing.toList, Listing.map, hvalue, hvalues]

theorem leads_of_takeAssignment {a : String × Value} (h : takeAssignment e ts = .ok (a, rest)) :
    ∃ x : String × Scalar, Prod.map id (Scalar.value e) x = a ∧
      Leads Scalar.Stands (assignmentSymbols x) ts rest := by
  obtain ⟨⟨field, ts₁⟩, hfield, h⟩ := bind_eq_ok_iff.1 h
  obtain ⟨ts₂, heq, h⟩ := bind_eq_ok_iff.1 h
  obtain ⟨⟨v, ts₃⟩, hv, h⟩ := bind_eq_ok_iff.1 h
  cases h
  obtain ⟨x, rfl, rfl⟩ := exists_scalar_of_takeValue hv
  rw [eq_cons_of_takeIdent hfield, eq_cons_of_expect (by simp) heq]
  exact ⟨(field, x), rfl, .sign (.sign (.value rfl .nil))⟩

theorem leads_of_takeMoreAssignments {as : List (String × Value)}
    (h : takeMoreAssignments e ts = .ok (as, rest)) :
    ∃ xs : List (String × Scalar), xs.map (Prod.map id (Scalar.value e)) = as ∧
      Leads Scalar.Stands (xs.flatMap fun x => .sign .comma :: assignmentSymbols x) ts rest := by
  fun_induction takeMoreAssignments e ts generalizing as rest with
  | case1 field t ts v hv ih =>
      obtain ⟨⟨others, after⟩, hothers, h⟩ := bind_eq_ok_iff.1 h
      cases h
      obtain ⟨x, htoken, rfl⟩ := Scalar.exists_of_value? hv
      obtain ⟨xs, hvalues, hleads⟩ := ih hothers
      refine ⟨(field, x) :: xs, ?_, .sign (.sign (.sign (.value htoken hleads)))⟩
      rw [List.map_cons, hvalues]
      rfl
  | case6 ts =>
      cases h
      exact ⟨[], rfl, .nil⟩
  | _ => cases h

/-! ### The parts of a command -/

theorem leads_of_takePath {p : TablePath} (h : takePath ts = .ok (p, rest)) :
    Leads R p.symbols ts rest := by
  obtain ⟨⟨first, ts₁⟩, hfirst, h⟩ := bind_eq_ok_iff.1 h
  rw [eq_cons_of_takeIdent hfirst]
  simp only at h
  split at h
  · obtain ⟨⟨table, ts₂⟩, htable, h⟩ := bind_eq_ok_iff.1 h
    cases h
    rw [eq_cons_of_takeIdent htable]
    exact .sign (.sign (.sign .nil))
  · cases h
    exact .sign .nil

/-- A part of a condition as it is read, given the value of the scalar in it. -/
def partOf (e : Extraction) (p : Piece (Comparison Scalar)) : ClausePart :=
  ((p.map (Comparison.map (Scalar.value e))).map Comparison.term).part

theorem leads_of_takeParts {ps : List ClausePart} (h : takeParts e ts = .ok (ps, rest)) :
    ∃ qs : List (Piece (Comparison Scalar)), qs.map (partOf e) = ps ∧
      Leads Scalar.Stands (qs.flatMap Piece.symbols) ts rest := by
  fun_induction takeParts e ts generalizing ps rest with
  | case1 ts ih =>
      obtain ⟨⟨others, after⟩, hothers, h⟩ := bind_eq_ok_iff.1 h
      cases h
      obtain ⟨qs, rfl, hleads⟩ := ih hothers
      exact ⟨.openGroup :: qs, rfl, .sign hleads⟩
  | case2 ts ih =>
      obtain ⟨⟨others, after⟩, hothers, h⟩ := bind_eq_ok_iff.1 h
      cases h
      obtain ⟨qs, rfl, hleads⟩ := ih hothers
      exact ⟨.closeGroup :: qs, rfl, .sign hleads⟩
  | case3 ts ih =>
      obtain ⟨⟨others, after⟩, hothers, h⟩ := bind_eq_ok_iff.1 h
      cases h
      obtain ⟨qs, rfl, hleads⟩ := ih hothers
      exact ⟨.joiner .and :: qs, rfl, .sign hleads⟩
  | case4 ts ih =>
      obtain ⟨⟨others, after⟩, hothers, h⟩ := bind_eq_ok_iff.1 h
      cases h
      obtain ⟨qs, rfl, hleads⟩ := ih hothers
      exact ⟨.joiner .or :: qs, rfl, .sign hleads⟩
  | case5 field op t ts v hv ih =>
      obtain ⟨⟨others, after⟩, hothers, h⟩ := bind_eq_ok_iff.1 h
      cases h
      obtain ⟨x, htoken, rfl⟩ := Scalar.exists_of_value? hv
      obtain ⟨qs, rfl, hleads⟩ := ih hothers
      exact ⟨.leaf ⟨field, op, x⟩ :: qs, rfl, .sign (.sign (.value htoken hleads))⟩
  | case9 | case10 | case11 | case12 | case13 =>
      cases h
      exact ⟨[], rfl, .nil⟩
  | _ => cases h

theorem leads_of_takeCondition {condition : Option Clause}
    (h : takeCondition e ts = .ok (condition, rest)) :
    ∃ c : Option (Chain (Comparison Scalar)), conditionClause (conditionMap (Scalar.value e) c) = condition ∧
      Leads Scalar.Stands (conditionSymbols c) ts rest := by
  rw [takeCondition.eq_def] at h
  split at h
  · obtain ⟨⟨ps, ts₁⟩, hps, h⟩ := bind_eq_ok_iff.1 h
    obtain ⟨qs, rfl, hleads⟩ := leads_of_takeParts hps
    simp only at h
    split at h
    · rename_i clause hclause
      cases h
      obtain ⟨hparts, tree, htree⟩ := Clause.exists_tree hclause
      have hpieces : tree.pieces =
          (qs.map (Piece.map (Comparison.map (Scalar.value e)))).map (Piece.map Comparison.term) := by
        refine (List.map_inj_right fun _ _ hp => Piece.part_injective hp).1 (htree.trans ?_)
        rw [List.map_map, List.map_map]
        rfl
      obtain ⟨terms, hterms, rfl⟩ := Chain.exists_of_pieces_eq_map hpieces
      obtain ⟨c, rfl, rfl⟩ := Chain.exists_of_pieces_eq_map hterms
      refine ⟨some c, ?_, .sign hleads⟩
      rw [conditionMap, conditionClause, Option.map_some, Option.map_some, htree, ← hparts]
    · cases h
  · cases h
    exact ⟨none, rfl, .nil⟩

theorem leads_of_takeOrder {order : Option SortOrder} (h : takeOrder ts = .ok (order, rest)) :
    ∃ o : Option WrittenOrder, o.map WrittenOrder.order = order ∧ Leads R (orderSymbols o) ts rest := by
  rw [takeOrder.eq_def] at h
  split at h
  · obtain ⟨⟨words, ts₁⟩, hwords, h⟩ := bind_eq_ok_iff.1 h
    obtain ⟨columns, rfl, hcolumns⟩ := leads_of_takeIdents (R := R) hwords
    simp only at h
    split at h
    · cases h
      exact ⟨some ⟨columns, some .ascending⟩, rfl,
        .sign (Leads.append_iff.2 ⟨_, hcolumns, .sign .nil⟩)⟩
    · cases h
      exact ⟨some ⟨columns, some .descending⟩, rfl,
        .sign (Leads.append_iff.2 ⟨_, hcolumns, .sign .nil⟩)⟩
    · cases h
      exact ⟨some ⟨columns, none⟩, rfl, .sign (Leads.append_iff.2 ⟨_, hcolumns, .nil⟩)⟩
  · cases h
    exact ⟨none, rfl, .nil⟩

theorem leads_of_takeLimit {limit : Option Nat} (h : takeLimit e ts = .ok (limit, rest)) :
    ∃ x : Option Scalar, readLimit (x.map (Scalar.value e)) = .ok limit ∧
      Leads Scalar.Stands (limitSymbols x) ts rest := by
  rw [takeLimit.eq_def] at h
  split at h
  · obtain ⟨⟨v, ts₁⟩, hv, hlimit⟩ := bind_eq_ok_iff.1 h
    obtain ⟨x, rfl, rfl⟩ := exists_scalar_of_takeValue hv
    simp only at hlimit
    split at hlimit
    · rename_i n hn
      cases hlimit
      refine ⟨some x, ?_, .sign (.value rfl .nil)⟩
      rw [Option.map_some, readLimit, hn]
    · cases hlimit
  · cases h
    exact ⟨none, rfl, .nil⟩

theorem leads_of_takeColumns {columns : Columns} (h : takeColumns ts = .ok (columns, rest)) :
    ∃ c : Option (Listing String), selectedColumns c = columns ∧ Leads R (columnsSymbols c) ts rest := by
  rw [takeColumns.eq_def] at h
  split at h
  · cases h
    exact ⟨none, rfl, .sign .nil⟩
  · obtain ⟨⟨words, ts₁⟩, hwords, h⟩ := bind_eq_ok_iff.1 h
    cases h
    obtain ⟨c, rfl, hleads⟩ := leads_of_takeIdents hwords
    exact ⟨some c, rfl, hleads⟩

/-! ### Commands -/

theorem form_of_takeSelect {s : Statement} (h : takeSelect e ts = .ok (s, rest)) :
    ∃ form : Form Scalar, Leads Scalar.Stands form.symbols (.keyword .select :: ts) rest ∧
      (form.map (Scalar.value e)).statement = .ok s := by
  obtain ⟨⟨columns, ts₁⟩, hcolumns, h⟩ := bind_eq_ok_iff.1 h
  obtain ⟨ts₂, hfrom, h⟩ := bind_eq_ok_iff.1 h
  obtain ⟨⟨table, ts₃⟩, htable, h⟩ := bind_eq_ok_iff.1 h
  obtain ⟨⟨condition, ts₄⟩, hcondition, h⟩ := bind_eq_ok_iff.1 h
  obtain ⟨⟨order, ts₅⟩, horder, h⟩ := bind_eq_ok_iff.1 h
  obtain ⟨⟨limit, ts₆⟩, hlimit, h⟩ := bind_eq_ok_iff.1 h
  cases h
  obtain ⟨columns, rfl, hcolumns'⟩ := leads_of_takeColumns hcolumns
  obtain rfl := eq_cons_of_expect (by simp) hfrom
  obtain ⟨condition, rfl, hcondition'⟩ := leads_of_takeCondition hcondition
  obtain ⟨order, rfl, horder'⟩ := leads_of_takeOrder horder
  obtain ⟨x, hx, hlimit'⟩ := leads_of_takeLimit hlimit
  refine ⟨.select columns table condition order x, .sign ?_, ?_⟩
  · exact Leads.append_iff.2 ⟨_, hcolumns', .sign (Leads.append_iff.2 ⟨_, leads_of_takePath htable,
      Leads.append_iff.2 ⟨_, hcondition', Leads.append_iff.2 ⟨_, horder', hlimit'⟩⟩⟩)⟩
  · rw [Form.map, Form.statement, hx]
    rfl

theorem form_of_takeInsert {s : Statement} (h : takeInsert e ts = .ok (s, rest)) :
    ∃ form : Form Scalar, Leads Scalar.Stands form.symbols (.keyword .insertInto :: ts) rest ∧
      (form.map (Scalar.value e)).statement = .ok s := by
  obtain ⟨⟨table, ts₁⟩, htable, h⟩ := bind_eq_ok_iff.1 h
  obtain ⟨ts₂, hopen, h⟩ := bind_eq_ok_iff.1 h
  obtain ⟨⟨columns, ts₃⟩, hcolumns, h⟩ := bind_eq_ok_iff.1 h
  obtain ⟨ts₄, hclose, h⟩ := bind_eq_ok_iff.1 h
  obtain ⟨ts₅, hvaluesWord, h⟩ := bind_eq_ok_iff.1 h
  obtain ⟨ts₆, hopen', h⟩ := bind_eq_ok_iff.1 h
  obtain ⟨⟨values, ts₇⟩, hvalues, h⟩ := bind_eq_ok_iff.1 h
  obtain ⟨ts₈, hclose', h⟩ := bind_eq_ok_iff.1 h
  split at h
  · rename_i hcount
    cases h
    obtain rfl := eq_cons_of_expect (by simp) hopen
    obtain rfl := eq_cons_of_expect (by simp) hclose
    obtain rfl := eq_cons_of_expect (by simp) hvaluesWord
    obtain rfl := eq_cons_of_expect (by simp) hopen'
    obtain rfl := eq_cons_of_expect (by simp) hclose'
    obtain ⟨columns, rfl, hcolumns'⟩ := leads_of_takeIdents hcolumns
    obtain ⟨scalars, rfl, hvalues'⟩ := leads_of_takeValues hvalues
    have hlength : columns.toList.length = scalars.toList.length := by
      rw [hcount, Listing.toList, Listing.toList, Listing.map, List.length_cons, List.length_cons,
        List.length_map]
    obtain ⟨entries, rfl, rfl⟩ := Listing.exists_zip columns scalars hlength
    refine ⟨.insert table entries, .sign ?_, ?_⟩
    · exact Leads.append_iff.2 ⟨_, leads_of_takePath htable, .sign (Leads.append_iff.2
        ⟨_, hcolumns', .sign (.sign (.sign (Leads.append_iff.2 ⟨_, hvalues', .sign .nil⟩)))⟩)⟩
    · simp [Form.map, Form.statement, Listing.map, Listing.toList]
  · cases h

theorem form_of_takeUpdate {s : Statement} (h : takeUpdate e ts = .ok (s, rest)) :
    ∃ form : Form Scalar, Leads Scalar.Stands form.symbols (.keyword .update :: ts) rest ∧
      (form.map (Scalar.value e)).statement = .ok s := by
  obtain ⟨⟨table, ts₁⟩, htable, h⟩ := bind_eq_ok_iff.1 h
  obtain ⟨ts₂, hset, h⟩ := bind_eq_ok_iff.1 h
  obtain ⟨⟨first, ts₃⟩, hfirst, h⟩ := bind_eq_ok_iff.1 h
  obtain ⟨⟨more, ts₄⟩, hmore, h⟩ := bind_eq_ok_iff.1 h
  obtain ⟨⟨condition, ts₅⟩, hcondition, h⟩ := bind_eq_ok_iff.1 h
  cases h
  obtain rfl := eq_cons_of_expect (by simp) hset
  obtain ⟨x, rfl, hfirst'⟩ := leads_of_takeAssignment hfirst
  obtain ⟨xs, rfl, hmore'⟩ := leads_of_takeMoreAssignments hmore
  obtain ⟨condition, rfl, hcondition'⟩ := leads_of_takeCondition hcondition
  refine ⟨.update table ⟨x, xs⟩ condition, .sign ?_, rfl⟩
  exact Leads.append_iff.2 ⟨_, leads_of_takePath htable, .sign (Leads.append_iff.2
    ⟨_, Leads.append_iff.2 ⟨_, hfirst', hmore'⟩, hcondition'⟩)⟩

theorem form_of_takeDelete {s : Statement} (h : takeDelete e ts = .ok (s, rest)) :
    ∃ form : Form Scalar, Leads Scalar.Stands form.symbols (.keyword .deleteFrom :: ts) rest ∧
      (form.map (Scalar.value e)).statement = .ok s := by
  obtain ⟨⟨table, ts₁⟩, htable, h⟩ := bind_eq_ok_iff.1 h
  obtain ⟨⟨condition, ts₂⟩, hcondition, h⟩ := bind_eq_ok_iff.1 h
  cases h
  obtain ⟨condition, rfl, hcondition'⟩ := leads_of_takeCondition hcondition
  refine ⟨.delete table condition, .sign ?_, rfl⟩
  exact Leads.append_iff.2 ⟨_, leads_of_takePath htable, hcondition'⟩

theorem form_of_takeCommand {s : Statement} (h : takeCommand e ts = .ok (s, rest)) :
    ∃ form : Form Scalar, Leads Scalar.Stands form.symbols ts rest ∧
      (form.map (Scalar.value e)).statement = .ok s := by
  rw [takeCommand.eq_def] at h
  split at h
  · exact form_of_takeSelect h
  · exact form_of_takeInsert h
  · exact form_of_takeUpdate h
  · exact form_of_takeDelete h
  · cases h

/-- **A token list that is read as a statement is the tokens of a form.** -/
theorem form_of_ofTokens {s : Statement} (h : ofTokens e ts = .ok s) :
    ∃ (form : Form Scalar) (rest : List Token), Leads Scalar.Stands form.symbols ts rest ∧ Ends rest ∧
      (form.map (Scalar.value e)).statement = .ok s := by
  obtain ⟨⟨s', rest⟩, hcommand, h⟩ := bind_eq_ok_iff.1 h
  obtain ⟨form, hleads, hstatement⟩ := form_of_takeCommand hcommand
  by_cases hsemicolon : current rest = .semicolon
  · simp only [if_pos hsemicolon] at h
    split at h
    · cases h
      exact ⟨form, rest, hleads, Or.inr ⟨hsemicolon, ‹_›⟩, hstatement⟩
    · cases h
  · simp only [if_neg hsemicolon] at h
    split at h
    · cases h
      exact ⟨form, rest, hleads, Or.inl ‹_›, hstatement⟩
    · cases h

/-- The tokens of a form with scalars in its places are read with the value of each scalar. -/
theorem ofTokens_of_stands {form : Form Scalar} (h : Leads Scalar.Stands form.symbols ts rest)
    (hrest : Ends rest) : ofTokens e ts = (form.map (Scalar.value e)).statement := by
  refine ofTokens_of_leads ?_ hrest
  rw [Form.symbols_map]
  exact h.map (Scalar.means_of_stands e)

end Statement
end TableQuery
