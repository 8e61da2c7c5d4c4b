import TableQuery.Proofs.Literal.Label
import TableQuery.Proofs.Statement.Recovery

/-! What reading a statement from its tokens can fail with: a fault in the form of the command, and
nothing else. Without quotes such a fault shows no other texts than the words of the tokens and the texts
among the values. -/

namespace TableQuery

/-- The only errors of this outcome are faults in the form of a command. -/
def FormFaultOnly {α : Type} (x : Except QueryError α) : Prop :=
  ∀ err, x = .error err → ∃ fault, err = .malformed fault

section

variable (p : String → Prop)

/-- The word of the token, if it is one, satisfies `p`. -/
def Token.WordIs : Token → Prop
  | .ident word => p word
  | _ => True

/-- The value, if it is a text, satisfies `p`. -/
def Value.TextIs : Value → Prop
  | .text s => p s
  | _ => True

/-- What the fault shows without quotes satisfies `p`. -/
def SyntaxFault.Shows : SyntaxFault → Prop
  | .openQuote quote => p quote.toString
  | .limit value => value.TextIs p
  | _ => True

/-- What the error shows without quotes satisfies `p`. -/
def QueryError.Shows : QueryError → Prop
  | .malformed fault => fault.Shows p
  | .unknownComparator symbol => p symbol
  | .unresolvedName name => p name
  | .unknownDatastore name => p name
  | .invalidSchema (.form fault) => fault.Shows p
  | _ => True

/-- The error is a fault in the form of a command, and what it shows without quotes satisfies `p`. -/
def QueryError.FaultShows : QueryError → Prop
  | .malformed fault => fault.Shows p
  | _ => False

theorem QueryError.FaultShows.shows {err : QueryError} (h : err.FaultShows p) : err.Shows p := by
  cases err with
  | malformed fault => exact h
  | _ => cases h

end

/-! ### Clauses -/

namespace ClausePart

variable (p : String → Prop)

mutual

theorem chainRest_shows {ps : List ClausePart} {fault : SyntaxFault} (h : chainRest ps = .error fault) :
    fault.Shows p := by
  match ps with
  | [] =>
      rw [chainRest_nil] at h
      cases h
      trivial
  | .term t :: rest =>
      rw [chainRest_term] at h
      exact operandRest_shows h
  | .openGroup :: rest =>
      rw [chainRest_open] at h
      cases hinside : chainRest rest with
      | error e =>
          rw [hinside] at h
          cases h
          exact chainRest_shows hinside
      | ok inside =>
          rw [hinside] at h
          obtain ⟨group, hgroup, -⟩ := exists_chain_of_chainRest hinside
          match inside with
          | [] | .term _ :: _ | .and :: _ | .or :: _ | .openGroup :: _ =>
              cases h
              trivial
          | .closeGroup :: after =>
              have hshort : after.length < rest.length := by
                rw [hgroup, List.length_append, List.length_cons]
                omega
              exact operandRest_shows h
  | .and :: rest | .or :: rest | .closeGroup :: rest =>
      rw [chainRest, afterChain] at h
      · cases h
        trivial
      all_goals simp
termination_by (ps.length, 0)

theorem operandRest_shows {ps : List ClausePart} {fault : SyntaxFault} (h : operandRest ps = .error fault) :
    fault.Shows p := by
  by_cases hps : Continues ps
  · obtain ⟨j, rest, rfl⟩ := hps
    rw [operandRest_joiner] at h
    exact chainRest_shows h
  · rw [operandRest_of_not_continues hps] at h
    cases h
termination_by (ps.length, 1)

end

theorem ofParts_shows {ps : List ClausePart} {fault : SyntaxFault} (h : Clause.ofParts ps = .error fault) :
    fault.Shows p := by
  rw [Clause.ofParts] at h
  split at h
  next err hchain =>
    cases h
    exact chainRest_shows p (by rw [chainRest, hchain]; rfl)
  · cases h
    trivial
  · cases h

end ClausePart

/-! ### Statements -/

namespace Statement

variable {p : String → Prop} {e : Extraction} {ts : List Token}

/-- The words of these tokens satisfy `p`. -/
def WordsAre (p : String → Prop) (ts : List Token) : Prop := ∀ t ∈ ts, t.WordIs p

theorem WordsAre.cons {t : Token} (h : WordsAre p (t :: ts)) : t.WordIs p ∧ WordsAre p ts :=
  List.forall_mem_cons.1 h

theorem WordsAre.current (h : WordsAre p ts) : (current ts).WordIs p := by
  cases ts with
  | nil => trivial
  | cons t ts => exact h.cons.1

theorem WordsAre.tail (h : WordsAre p ts) : WordsAre p ts.tail :=
  fun t ht => h t (List.mem_of_mem_tail ht)

theorem takeIdent_yields (hts : WordsAre p ts) :
    Yields (·.FaultShows p) (fun r => p r.1 ∧ WordsAre p r.2) (takeIdent ts) := by
  rw [takeIdent.eq_def]
  split
  · exact hts.cons
  · exact trivial

theorem expect_yields (wanted : Token) (hts : WordsAre p ts) :
    Yields (·.FaultShows p) (WordsAre p) (expect wanted ts) := by
  rw [expect]
  split
  · exact hts.tail
  · exact trivial

theorem takeMoreIdents_yields (hts : WordsAre p ts) :
    Yields (·.FaultShows p) (fun r => WordsAre p r.2) (takeMoreIdents ts) := by
  fun_induction takeMoreIdents ts with
  | case1 word ts ih => exact (ih hts.tail.tail).bind fun _ h => h
  | case2 => exact trivial
  | case3 => exact hts

theorem takeIdents_yields (hts : WordsAre p ts) :
    Yields (·.FaultShows p) (fun r => WordsAre p r.2) (takeIdents ts) :=
  (takeIdent_yields hts).bind fun _ h => (takeMoreIdents_yields h.2).bind fun _ h => h

/-- The name of the datastore, if the path gives one, satisfies `p`. -/
def PathIs (p : String → Prop) (path : TablePath) : Prop := ∀ name, path.datastore = some name → p name

theorem takePath_yields (hts : WordsAre p ts) :
    Yields (·.FaultShows p) (fun r => PathIs p r.1 ∧ WordsAre p r.2) (takePath ts) := by
  refine (takeIdent_yields hts).bind ?_
  rintro ⟨first, ts⟩ ⟨hfirst, hts⟩
  simp only
  split
  · refine (takeIdent_yields hts.tail).bind fun r h => ⟨?_, h.2⟩
    rintro name ⟨⟩
    exact hfirst
  · refine ⟨?_, hts⟩
    rintro name ⟨⟩

theorem takeMoreValues_yields (hts : WordsAre p ts) :
    Yields (·.FaultShows p) (fun r => WordsAre p r.2) (takeMoreValues e ts) := by
  fun_induction takeMoreValues e ts with
  | case1 t ts v hv ih => exact (ih hts.tail.tail).bind fun _ h => h
  | case2 => exact trivial
  | case3 => exact trivial
  | case4 => exact hts

theorem takeParts_yields (hts : WordsAre p ts) :
    Yields (·.FaultShows p) (fun r => WordsAre p r.2) (takeParts e ts) := by
  fun_induction takeParts e ts with
  | case1 ts ih | case2 ts ih | case3 ts ih | case4 ts ih => exact (ih hts.tail).bind fun _ h => h
  | case5 _ _ _ ts _ _ ih => exact (ih hts.tail.tail.tail).bind fun _ h => h
  | case9 | case10 | case11 | case12 | case13 => exact hts
  | _ => exact trivial

theorem takeCondition_yields (hts : WordsAre p ts) :
    Yields (·.FaultShows p) (fun r => WordsAre p r.2) (takeCondition e ts) := by
  rw [takeCondition.eq_def]
  split
  · refine (takeParts_yields hts.tail).bind ?_
    rintro ⟨parts, ts⟩ hts
    simp only
    split
    · exact hts
    next fault hfault => exact ClausePart.ofParts_shows p hfault
  · exact hts

theorem takeOrder_yields (hts : WordsAre p ts) :
    Yields (·.FaultShows p) (fun r => WordsAre p r.2) (takeOrder ts) := by
  rw [takeOrder.eq_def]
  split
  · refine (takeIdents_yields hts.tail).bind ?_
    rintro ⟨columns, ts⟩ hts
    simp only
    split
    · exact hts.tail
    · exact hts.tail
    · exact hts
  · exact hts

theorem takeColumns_yields (hts : WordsAre p ts) :
    Yields (·.FaultShows p) (fun r => WordsAre p r.2) (takeColumns ts) := by
  rw [takeColumns.eq_def]
  split
  · exact hts.tail
  · exact (takeIdents_yields hts).bind fun _ h => h

theorem takeMoreAssignments_yields (hts : WordsAre p ts) :
    Yields (·.FaultShows p) (fun r => WordsAre p r.2) (takeMoreAssignments e ts) := by
  fun_induction takeMoreAssignments e ts with
  | case1 field t ts v hv ih => exact (ih hts.tail.tail.tail.tail).bind fun _ h => h
  | case6 => exact hts
  | _ => exact trivial

theorem takeDelete_yields (hts : WordsAre p ts) :
    Yields (·.FaultShows p) (fun r => PathIs p r.1.table ∧ WordsAre p r.2) (takeDelete e ts) :=
  (takePath_yields hts).bind fun _ htable => (takeCondition_yields htable.2).bind fun _ h =>
    ⟨htable.1, h⟩

theorem bareWord_textIs {word : String} (h : p word) : (bareWord word).TextIs p := by
  unfold bareWord
  extract_lets small
  split
  · trivial
  split
  · trivial
  split
  · trivial
  · exact h

section Values

variable (he : ∀ v ∈ e.values, v.TextIs p)

include he

theorem value?_textIs {t : Token} {v : Value} (ht : t.WordIs p) (h : value? e t = some v) : v.TextIs p := by
  cases t with
  | ident word =>
      rw [value?] at h
      cases hvalue : e.resolve? word with
      | none =>
          rw [hvalue] at h
          cases h
          exact bareWord_textIs ht
      | some value =>
          rw [hvalue] at h
          cases h
          obtain ⟨k, hk, -⟩ := Extraction.exists_of_resolve? hvalue
          exact he _ (List.mem_of_getElem? hk)
  | _ => cases h <;> trivial

theorem takeValue_yields (hts : WordsAre p ts) :
    Yields (·.FaultShows p) (fun r => r.1.TextIs p ∧ WordsAre p r.2) (takeValue e ts) := by
  rw [takeValue]
  split
  next v hv => exact ⟨value?_textIs he hts.current hv, hts.tail⟩
  · exact trivial

theorem takeValues_yields (hts : WordsAre p ts) :
    Yields (·.FaultShows p) (fun r => WordsAre p r.2) (takeValues e ts) :=
  (takeValue_yields he hts).bind fun _ h => (takeMoreValues_yields h.2).bind fun _ h => h

/-- A limit that is none is shown as the value that it is. -/
theorem takeLimit_yields (hts : WordsAre p ts) :
    Yields (·.FaultShows p) (fun r => WordsAre p r.2) (takeLimit e ts) := by
  rw [takeLimit.eq_def]
  split
  · refine (takeValue_yields he hts.tail).bind ?_
    rintro ⟨v, ts⟩ ⟨hv, hts⟩
    simp only
    split
    · exact hts
    · exact hv
  · exact hts

theorem takeSelect_yields (hts : WordsAre p ts) :
    Yields (·.FaultShows p) (fun r => PathIs p r.1.table ∧ WordsAre p r.2) (takeSelect e ts) :=
  (takeColumns_yields hts).bind fun _ h => (expect_yields _ h).bind fun _ h =>
    (takePath_yields h).bind fun _ htable => (takeCondition_yields htable.2).bind fun _ h =>
      (takeOrder_yields h).bind fun _ h => (takeLimit_yields he h).bind fun _ h => ⟨htable.1, h⟩

theorem takeInsert_yields (hts : WordsAre p ts) :
    Yields (·.FaultShows p) (fun r => PathIs p r.1.table ∧ WordsAre p r.2) (takeInsert e ts) := by
  refine (takePath_yields hts).bind fun _ htable => (expect_yields _ htable.2).bind fun _ h =>
    (takeIdents_yields h).bind fun _ h => (expect_yields _ h).bind fun _ h =>
      (expect_yields _ h).bind fun _ h => (expect_yields _ h).bind fun _ h =>
        (takeValues_yields he h).bind fun _ h => (expect_yields _ h).bind fun _ h => ?_
  split
  · exact ⟨htable.1, h⟩
  · exact trivial

theorem takeAssignment_yields (hts : WordsAre p ts) :
    Yields (·.FaultShows p) (fun r => WordsAre p r.2) (takeAssignment e ts) :=
  (takeIdent_yields hts).bind fun _ h => (expect_yields _ h.2).bind fun _ h =>
    (takeValue_yields he h).bind fun _ h => h.2

theorem takeUpdate_yields (hts : WordsAre p ts) :
    Yields (·.FaultShows p) (fun r => PathIs p r.1.table ∧ WordsAre p r.2) (takeUpdate e ts) :=
  (takePath_yields hts).bind fun _ htable => (expect_yields _ htable.2).bind fun _ h =>
    (takeAssignment_yields he h).bind fun _ h => (takeMoreAssignments_yields h).bind fun _ h =>
      (takeCondition_yields h).bind fun _ h => ⟨htable.1, h⟩

theorem takeCommand_yields (hts : WordsAre p ts) :
    Yields (·.FaultShows p) (fun r => PathIs p r.1.table ∧ WordsAre p r.2) (takeCommand e ts) := by
  rw [takeCommand.eq_def]
  split
  · exact takeSelect_yields he hts.tail
  · exact takeInsert_yields he hts.tail
  · exact takeUpdate_yields he hts.tail
  · exact takeDelete_yields hts.tail
  · exact trivial

/-- Tokens are read as a statement whose datastore is one of their words, or they are refused for their
form. -/
theorem ofTokens_yields (hts : WordsAre p ts) : Yields (·.FaultShows p) (fun s => PathIs p s.table) (ofTokens e ts) := by
  refine (takeCommand_yields he hts).bind fun r h => ?_
  simp only
  split <;> split
  all_goals first | exact h.1 | exact trivial

end Values

/-- **Tokens that are no statement are refused for their form.** -/
theorem ofTokens_fault (e : Extraction) (ts : List Token) : FormFaultOnly (ofTokens e ts) := by
  have hvalues : ∀ v ∈ e.values, v.TextIs fun _ => True := fun v _ => by cases v <;> trivial
  have hwords : WordsAre (fun _ => True) ts := fun t _ => by cases t <;> trivial
  intro err herr
  have hshows : err.FaultShows fun _ => True := (ofTokens_yields hvalues hwords).error herr
  cases err with
  | malformed fault => exact ⟨fault, rfl⟩
  | _ => cases hshows

end Statement
end TableQuery
