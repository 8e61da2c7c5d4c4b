import TableQuery.Proofs.Statement.Fault

/-! How far a reader of tokens looks. With the end among its tokens, a reader takes the same step
whatever stands behind them: it never goes past the end, and nothing there is ever looked at. -/

namespace TableQuery

/-- Two outcomes of a reader, of which the second was given more tokens. The end is still ahead, and
the further tokens are left behind it. -/
inductive SameStep {α : Type} (beyond : List Token) :
    Except QueryError (α × List Token) → Except QueryError (α × List Token) → Prop
  | refuse (err : QueryError) : SameStep beyond (.error err) (.error err)
  | take (a : α) {rest : List Token} (h : .eof ∈ rest) :
    SameStep beyond (.ok (a, rest)) (.ok (a, rest ++ beyond))

variable {α β : Type} {beyond ts : List Token}

theorem SameStep.bind {x y : Except QueryError (α × List Token)} (h : SameStep beyond x y)
    {f g : α × List Token → Except QueryError (β × List Token)}
    (hf : ∀ a rest, .eof ∈ rest → SameStep beyond (f (a, rest)) (g (a, rest ++ beyond))) :
    SameStep beyond (x >>= f) (y >>= g) := by
  cases h with
  | refuse err => exact .refuse err
  | take a hrest => exact hf a _ hrest

namespace Statement

theorem exists_cons_of_eof_mem (h : .eof ∈ ts) :
    ∃ t rest, ts = t :: rest ∧ (t ≠ .eof → .eof ∈ rest) := by
  cases ts with
  | nil => cases h
  | cons t rest =>
      refine ⟨t, rest, rfl, fun ht => ?_⟩
      exact (List.mem_cons.1 h).resolve_left fun heq => ht heq.symm

theorem takeIdent_same (h : .eof ∈ ts) :
    SameStep beyond (takeIdent ts) (takeIdent (ts ++ beyond)) := by
  obtain ⟨t, rest, rfl, hrest⟩ := exists_cons_of_eof_mem h
  cases t with
  | ident word => exact .take word (hrest (by simp))
  | _ => exact .refuse _

theorem expect_same {wanted : Token} (hwanted : wanted ≠ .eof) (h : .eof ∈ ts)
    {f : List Token → Except QueryError (β × List Token)}
    (hf : ∀ rest, .eof ∈ rest → SameStep beyond (f rest) (f (rest ++ beyond))) :
    SameStep beyond (expect wanted ts >>= f) (expect wanted (ts ++ beyond) >>= f) := by
  obtain ⟨t, rest, rfl, hrest⟩ := exists_cons_of_eof_mem h
  by_cases heq : t = wanted
  · have htaken : ∀ rest, expect wanted (t :: rest) = .ok rest := fun _ => if_pos heq
    rw [List.cons_append, htaken, htaken]
    exact hf rest (hrest (heq ▸ hwanted))
  · have hrefused : ∀ rest, expect wanted (t :: rest) = fail (.expected wanted t) := fun _ => if_neg heq
    rw [List.cons_append, hrefused, hrefused]
    exact .refuse _

theorem takeValue_same (e : Extraction) (h : .eof ∈ ts) :
    SameStep beyond (takeValue e ts) (takeValue e (ts ++ beyond)) := by
  obtain ⟨t, rest, rfl, hrest⟩ := exists_cons_of_eof_mem h
  simp only [takeValue, List.cons_append, current]
  split
  next v hv => 
    refine .take v (hrest ?_)
    rintro rfl
    cases hv
  · exact .refuse _

theorem takeMoreIdents_same (h : .eof ∈ ts) :
    SameStep beyond (takeMoreIdents ts) (takeMoreIdents (ts ++ beyond)) := by
  fun_induction takeMoreIdents ts with
  | case1 word ts ih =>
      have hts : .eof ∈ ts := by simpa using h
      simp only [List.cons_append, takeMoreIdents]
      exact (ih hts).bind fun words rest hrest => .take _ hrest
  | case2 ts hident =>
      have hts : .eof ∈ ts := by simpa using h
      obtain ⟨t, rest, rfl, hrest⟩ := exists_cons_of_eof_mem hts
      cases t with
      | ident word => exact absurd rfl (hident word rest)
      | _ => exact .refuse _
  | case3 ts hcomma hothers =>
      obtain ⟨t, rest, rfl, hrest⟩ := exists_cons_of_eof_mem h
      cases t with
      | comma => exact absurd rfl (hothers rest)
      | _ => exact .take _ h

theorem takeIdents_same (h : .eof ∈ ts) :
    SameStep beyond (takeIdents ts) (takeIdents (ts ++ beyond)) :=
  (takeIdent_same h).bind fun _ _ h => (takeMoreIdents_same h).bind fun _ _ h => .take _ h

theorem takeMoreValues_same (e : Extraction) (h : .eof ∈ ts) :
    SameStep beyond (takeMoreValues e ts) (takeMoreValues e (ts ++ beyond)) := by
  fun_induction takeMoreValues e ts with
  | case1 t ts v hv ih =>
      have ht : t ≠ .eof := by
        rintro rfl
        cases hv
      have hts : .eof ∈ ts := by simpa [ht.symm] using h
      simp only [List.cons_append, takeMoreValues, hv]
      exact (ih hts).bind fun vs rest hrest => .take _ hrest
  | case2 t ts hv =>
      simp only [List.cons_append, takeMoreValues, hv]
      exact .refuse _
  | case3 => simp at h
  | case4 ts hmore hone =>
      obtain ⟨t, rest, rfl, hrest⟩ := exists_cons_of_eof_mem h
      cases t with
      | comma =>
          obtain ⟨t, rest, rfl, -⟩ := exists_cons_of_eof_mem (hrest (by simp))
          exact absurd rfl (hmore t rest)
      | _ => exact .take _ h

theorem takeValues_same (e : Extraction) (h : .eof ∈ ts) :
    SameStep beyond (takeValues e ts) (takeValues e (ts ++ beyond)) :=
  (takeValue_same e h).bind fun _ _ h => (takeMoreValues_same e h).bind fun _ _ h => .take _ h

theorem takePath_same (h : .eof ∈ ts) : SameStep beyond (takePath ts) (takePath (ts ++ beyond)) := by
  refine (takeIdent_same h).bind fun first rest hrest => ?_
  obtain ⟨t, rest, rfl, hlater⟩ := exists_cons_of_eof_mem hrest
  cases t with
  | dot => exact (takeIdent_same (hlater (by simp))).bind fun _ _ h => .take _ h
  | _ => exact .take _ hrest

theorem takeParts_same (e : Extraction) (h : .eof ∈ ts) :
    SameStep beyond (takeParts e ts) (takeParts e (ts ++ beyond)) := by
  fun_induction takeParts e ts with
  | case1 ts ih | case2 ts ih | case3 ts ih | case4 ts ih =>
      have hts : .eof ∈ ts := by simpa using h
      simp only [List.cons_append, takeParts]
      exact (ih hts).bind fun ps rest hrest => .take _ hrest
  | case5 field op t ts v hv ih =>
      have ht : t ≠ .eof := by
        rintro rfl
        cases hv
      have hts : .eof ∈ ts := by simpa [ht.symm] using h
      simp only [List.cons_append, takeParts, hv]
      exact (ih hts).bind fun ps rest hrest => .take _ hrest
  | case6 field op t ts hv =>
      simp only [List.cons_append, takeParts, hv]
      exact .refuse _
  | case7 => simp at h
  | case8 field ts hfull hshort =>
      have hts : .eof ∈ ts := by simpa using h
      obtain ⟨t, rest, rfl, hrest⟩ := exists_cons_of_eof_mem hts
      cases t with
      | op op =>
          obtain ⟨t, rest, rfl, -⟩ := exists_cons_of_eof_mem (hrest (by simp))
          exact absurd rfl (hfull op t rest)
      | _ => exact .refuse _
  | case9 | case10 | case11 | case12 => exact .take _ h
  | case13 => cases h
  | case14 t rest =>
      -- What stands here is none of the tokens above, whatever follows it.
      have hrefused : ∀ rest, takeParts e (t :: rest) = fail (.notInWhere t) := by
        intro rest
        cases t with
        | keyword k => cases k <;> first | rfl | contradiction
        | ident field => exact (‹∀ word, Token.ident field = Token.ident word → False› field rfl).elim
        | _ => first | rfl | contradiction
      rw [List.cons_append, hrefused]
      exact .refuse _

theorem takeCondition_same (e : Extraction) (h : .eof ∈ ts) :
    SameStep beyond (takeCondition e ts) (takeCondition e (ts ++ beyond)) := by
  obtain ⟨t, rest, rfl, hrest⟩ := exists_cons_of_eof_mem h
  by_cases ht : t = .keyword .whereRows
  · subst ht
    refine (takeParts_same e (hrest (by simp))).bind fun parts rest h => ?_
    simp only
    split
    · exact .take _ h
    · exact .refuse _
  · have hnone : ∀ rest, takeCondition e (t :: rest) = .ok (none, t :: rest) := by
      intro rest
      rw [takeCondition.eq_def]
      split
      next heq => exact absurd (List.cons.inj heq).1 ht
      · rfl
    rw [List.cons_append, hnone, hnone]
    exact .take _ h

theorem takeOrder_same (h : .eof ∈ ts) : SameStep beyond (takeOrder ts) (takeOrder (ts ++ beyond)) := by
  obtain ⟨t, rest, rfl, hrest⟩ := exists_cons_of_eof_mem h
  by_cases ht : t = .keyword .orderBy
  · subst ht
    refine (takeIdents_same (hrest (by simp))).bind fun columns rest h => ?_
    obtain ⟨t, rest, rfl, hlater⟩ := exists_cons_of_eof_mem h
    cases t with
    | keyword k =>
        cases k with
        | asc => exact .take _ (hlater (by simp))
        | desc => exact .take _ (hlater (by simp))
        | _ => exact .take _ h
    | _ => exact .take _ h
  · have hnone : ∀ rest, takeOrder (t :: rest) = .ok (none, t :: rest) := by
      intro rest
      rw [takeOrder.eq_def]
      split
      next heq => exact absurd (List.cons.inj heq).1 ht
      · rfl
    rw [List.cons_append, hnone, hnone]
    exact .take _ h

theorem takeLimit_same (e : Extraction) (h : .eof ∈ ts) :
    SameStep beyond (takeLimit e ts) (takeLimit e (ts ++ beyond)) := by
  obtain ⟨t, rest, rfl, hrest⟩ := exists_cons_of_eof_mem h
  by_cases ht : t = .keyword .limit
  · subst ht
    refine (takeValue_same e (hrest (by simp))).bind fun v rest h => ?_
    simp only
    split
    · exact .take _ h
    · exact .refuse _
  · have hnone : ∀ rest, takeLimit e (t :: rest) = .ok (none, t :: rest) := by
      intro rest
      rw [takeLimit.eq_def]
      split
      next heq => exact absurd (List.cons.inj heq).1 ht
      · rfl
    rw [List.cons_append, hnone, hnone]
    exact .take _ h

theorem takeColumns_same (h : .eof ∈ ts) :
    SameStep beyond (takeColumns ts) (takeColumns (ts ++ beyond)) := by
  obtain ⟨t, rest, rfl, hrest⟩ := exists_cons_of_eof_mem h
  cases t with
  | star => exact .take _ (hrest (by simp))
  | _ => exact (takeIdents_same h).bind fun _ _ h => .take _ h

theorem takeSelect_same (e : Extraction) (h : .eof ∈ ts) :
    SameStep beyond (takeSelect e ts) (takeSelect e (ts ++ beyond)) :=
  (takeColumns_same h).bind fun _ _ h => expect_same (by simp) h fun _ h =>
    (takePath_same h).bind fun _ _ h => (takeCondition_same e h).bind fun _ _ h =>
      (takeOrder_same h).bind fun _ _ h => (takeLimit_same e h).bind fun _ _ h => .take _ h

theorem takeInsert_same (e : Extraction) (h : .eof ∈ ts) :
    SameStep beyond (takeInsert e ts) (takeInsert e (ts ++ beyond)) := by
  refine (takePath_same h).bind fun _ _ h => expect_same (by simp) h fun _ h =>
    (takeIdents_same h).bind fun _ _ h => expect_same (by simp) h fun _ h =>
      expect_same (by simp) h fun _ h => expect_same (by simp) h fun _ h =>
        (takeValues_same e h).bind fun _ _ h => expect_same (by simp) h fun _ h => ?_
  split
  · exact .take _ h
  · exact .refuse _

theorem takeAssignment_same (e : Extraction) (h : .eof ∈ ts) :
    SameStep beyond (takeAssignment e ts) (takeAssignment e (ts ++ beyond)) :=
  (takeIdent_same h).bind fun _ _ h => expect_same (by simp) h fun _ h =>
    (takeValue_same e h).bind fun _ _ h => .take _ h

theorem takeMoreAssignments_same (e : Extraction) (h : .eof ∈ ts) :
    SameStep beyond (takeMoreAssignments e ts) (takeMoreAssignments e (ts ++ beyond)) := by
  fun_induction takeMoreAssignments e ts with
  | case1 field t ts v hv ih =>
      have ht : t ≠ .eof := by
        rintro rfl
        cases hv
      have hts : .eof ∈ ts := by simpa [ht.symm] using h
      simp only [List.cons_append, takeMoreAssignments, hv]
      exact (ih hts).bind fun more rest hrest => .take _ hrest
  | case2 field t ts hv =>
      simp only [List.cons_append, takeMoreAssignments, hv]
      exact .refuse _
  | case3 => simp at h
  | case4 field ts hfull hshort =>
      have hts : .eof ∈ ts := by simpa using h
      obtain ⟨t, rest, rfl, hrest⟩ := exists_cons_of_eof_mem hts
      cases t with
      | op c =>
          cases c with
          | eq =>
              obtain ⟨t, rest, rfl, -⟩ := exists_cons_of_eof_mem (hrest (by simp))
              exact absurd rfl (hfull t rest)
          | _ => exact .refuse _
      | _ => exact .refuse _
  | case5 ts hfull hshort hident =>
      have hts : .eof ∈ ts := by simpa using h
      obtain ⟨t, rest, rfl, hrest⟩ := exists_cons_of_eof_mem hts
      cases t with
      | ident field => exact absurd rfl (hident field rest)
      | _ => exact .refuse _
  | case6 ts hfull hshort hident hcomma =>
      obtain ⟨t, rest, rfl, hrest⟩ := exists_cons_of_eof_mem h
      cases t with
      | comma => exact absurd rfl (hcomma rest)
      | _ => exact .take _ h

theorem takeUpdate_same (e : Extraction) (h : .eof ∈ ts) :
    SameStep beyond (takeUpdate e ts) (takeUpdate e (ts ++ beyond)) :=
  (takePath_same h).bind fun _ _ h => expect_same (by simp) h fun _ h =>
    (takeAssignment_same e h).bind fun _ _ h => (takeMoreAssignments_same e h).bind fun _ _ h =>
      (takeCondition_same e h).bind fun _ _ h => .take _ h

theorem takeDelete_same (e : Extraction) (h : .eof ∈ ts) :
    SameStep beyond (takeDelete e ts) (takeDelete e (ts ++ beyond)) :=
  (takePath_same h).bind fun _ _ h => (takeCondition_same e h).bind fun _ _ h => .take _ h

theorem takeCommand_same (e : Extraction) (h : .eof ∈ ts) :
    SameStep beyond (takeCommand e ts) (takeCommand e (ts ++ beyond)) := by
  obtain ⟨t, rest, rfl, hrest⟩ := exists_cons_of_eof_mem h
  cases t with
  | keyword k =>
      cases k with
      | select => exact takeSelect_same e (hrest (by simp))
      | insertInto => exact takeInsert_same e (hrest (by simp))
      | update => exact takeUpdate_same e (hrest (by simp))
      | deleteFrom => exact takeDelete_same e (hrest (by simp))
      | _ => exact .refuse _
  | _ => exact .refuse _

/-- **What stands behind the end is never looked at.** -/
theorem ofTokens_append (e : Extraction) (h : .eof ∈ ts) (beyond : List Token) :
    ofTokens e (ts ++ beyond) = ofTokens e ts := by
  have hcommand : SameStep beyond (takeCommand e ts) (takeCommand e (ts ++ beyond)) := takeCommand_same e h
  unfold ofTokens
  generalize takeCommand e ts = x at hcommand
  generalize takeCommand e (ts ++ beyond) = y at hcommand
  cases hcommand with
  | refuse err => rfl
  | take s hrest =>
      obtain ⟨t, rest, rfl, hlater⟩ := exists_cons_of_eof_mem hrest
      cases t with
      | semicolon =>
          obtain ⟨t, rest, rfl, -⟩ := exists_cons_of_eof_mem (hlater (by simp))
          rfl
      | _ => rfl

end Statement
end TableQuery
