import TableQuery.Proofs.Literal.Steps
import TableQuery.Proofs.Statement.Fault
import TableQuery.Proofs.Text.OneLine
import TableQuery.Proofs.Token.Beginning

/-! What the error about a command shows of the command. Words and operators have no line feed, and the
texts among the values have none if the command has none, so the text of the error is one line. -/

namespace TableQuery

/-! ### Messages -/

theorem SyntaxFault.oneLine_message {fault : SyntaxFault} (h : fault.Shows OneLine) :
    OneLine fault.message := by
  cases fault with
  | openQuote quote => exact .append (.append (by decide) h) (by decide)
  | unsupported c => exact .append (.append (by decide) (Text.oneLine_quotedChar c)) (by decide)
  | secondPoint | unbalanced | incompleteClause => decide
  | unknownCommand found | afterStatement found | expectedIdent found | expectedValue found
  | expectedComparator found => exact .append (by decide) found.oneLine_tagged
  | expected wanted found =>
      exact .append (.append (.append (by decide) wanted.oneLine_tagged) (by decide)) found.oneLine_tagged
  | notInWhere found => exact .append (.append (by decide) found.oneLine_tagged) (by decide)
  | expectedComparison found => exact .append (by decide) found.oneLine_tagged
  | notInClause found => exact .append (.append (by decide) found.oneLine_tagged) (by decide)
  | limit value =>
      refine .append (by decide) (Value.oneLine_display ?_)
      rintro s rfl
      exact h
  | fieldCount fields values =>
      exact .append (.append (.append (oneLine_repr fields) (by decide)) (oneLine_repr values)) (by decide)
  | path text => exact .append (by decide) (Text.oneLine_quotedString text)

theorem oneLine_malformedMessage {fault : SyntaxFault} (h : fault.Shows OneLine) :
    OneLine (malformedMessage fault) :=
  .append (by decide) (fault.oneLine_message h)

theorem SchemaFault.oneLine_message {fault : SchemaFault} (h : (QueryError.invalidSchema fault).Shows OneLine) :
    OneLine fault.message := by
  cases fault with
  | form fault => exact oneLine_malformedMessage h
  | missingDefault field => exact .append (by decide) (Text.oneLine_quotedString field)
  | unknownAttribute word field =>
      exact .append (.append (.append (by decide) (Text.oneLine_quotedString word)) (by decide))
        (Text.oneLine_quotedString field)
  | declaredTwice field => exact .append (.append (by decide) (Text.oneLine_quotedString field)) (by decide)

/-- The text of an error is one line if what it shows without quotes is. -/
theorem QueryError.oneLine_message {err : QueryError} (h : err.Shows OneLine) : OneLine err.message := by
  cases err with
  | malformed fault => exact oneLine_malformedMessage h
  | unknownComparator name | unresolvedName name | unknownDatastore name => exact .append (by decide) h
  | unresolvedPosition given => exact .append (.append (by decide) (oneLine_repr given)) (by decide)
  | unusedPositions left => exact .append (oneLine_repr left) (by decide)
  | invalidSchema fault => exact .append (by decide) (fault.oneLine_message h)

/-! ### Literals and placeholders -/

theorem takeQuoted_subset {quote : Char} {cs content rest : List Char}
    (h : takeQuoted quote cs = some (content, rest)) : content ⊆ cs ∧ rest ⊆ cs := by
  fun_induction takeQuoted quote cs generalizing content rest with
  | case1 => cases h
  | case2 c cs _ ih =>
      obtain ⟨p, hp, heq⟩ := Option.map_eq_some_iff.1 h
      obtain ⟨hcontent, hrest⟩ := ih hp
      cases heq
      exact ⟨List.subset_cons_of_subset _ (List.cons_subset_cons _ hcontent),
        List.subset_cons_of_subset _ (List.subset_cons_of_subset _ hrest)⟩
  | case3 c cs _ ih =>
      obtain ⟨p, hp, heq⟩ := Option.map_eq_some_iff.1 h
      obtain ⟨hcontent, hrest⟩ := ih hp
      cases heq
      exact ⟨List.cons_subset_cons _ hcontent, List.subset_cons_of_subset _ hrest⟩
  | case4 cs =>
      cases h
      exact ⟨List.nil_subset _, List.subset_cons_self _ _⟩
  | case5 c cs _ _ ih =>
      obtain ⟨p, hp, heq⟩ := Option.map_eq_some_iff.1 h
      obtain ⟨hcontent, hrest⟩ := ih hp
      cases heq
      exact ⟨List.cons_subset_cons _ hcontent, List.subset_cons_of_subset _ hrest⟩

theorem replaceQuoted_yields (count : Nat) {cs : List Char} (h : '\n' ∉ cs) :
    Yields (·.Shows OneLine) (fun r => ∀ v ∈ r.2, v.TextIs OneLine) (replaceQuoted count cs) := by
  fun_induction replaceQuoted count cs with
  | case1 => exact List.forall_mem_nil _
  | case2 _ c cs hquote =>
      have hc : c = '\'' ∨ c = '"' := by simpa using hquote
      have hshown : OneLine c.toString := by
        rcases hc with rfl | rfl <;> decide
      exact hshown
  | case3 _ c cs hquote content rest hcontent _ ih =>
      obtain ⟨hsubset, hrest⟩ := takeQuoted_subset hcontent
      have hcs : '\n' ∉ cs := List.not_mem_of_not_mem_cons h
      refine (ih (mt (hrest ·) hcs)).bind fun r hr => List.forall_mem_cons.2 ⟨?_, hr⟩
      exact oneLine_ofList.2 (mt (hsubset ·) hcs)
  | case4 _ c cs _ ih => exact (ih (List.not_mem_of_not_mem_cons h)).bind fun r hr => hr

/-- Without substitutions no placeholder has a value. -/
theorem replacePlaceholders_yields (given count : Nat) (cs : List Char) :
    Yields (·.Shows OneLine) (fun r => r.2 = []) (replacePlaceholders none given count [] cs) := by
  induction cs using placeholder_induction with
  | nil =>
      rw [replacePlaceholders_nil]
      exact rfl
  | name cs hname _ =>
      rw [replacePlaceholders_name none given count hname]
      exact oneLine_of_isWordChar fun c hc => List.mem_takeWhile_imp hc
  | position cs _ =>
      rw [replacePlaceholders_position]
      trivial
  | plain c cs hplain ih =>
      rw [replacePlaceholders_plain none given count hplain]
      exact ih.map fun r hr => hr

/-- The values of a command on one line have no line feed. -/
theorem extraction_yields {text : String} (h : OneLine text) :
    Yields (·.Shows OneLine) (fun e => ∀ v ∈ e.values, v.TextIs OneLine) (Extraction.ofText text none) := by
  refine (replaceQuoted_yields 0 h).bind fun quoted hquoted => ?_
  refine (replacePlaceholders_yields _ _ quoted.1).bind fun filled hfilled => ?_
  intro v hv
  rw [hfilled, List.append_nil] at hv
  exact hquoted v hv

/-! ### Tokens -/

namespace Token

theorem takeNumber_yields (negative : Bool) (cs : List Char) :
    Yields (·.Shows OneLine) (fun r => r.1.WordIs OneLine) (takeNumber negative cs) := by
  have hnumeral : ∀ n (rest : List Char), Yields (QueryError.Shows OneLine)
      (fun r : Token × List Char => r.1.WordIs OneLine) (.ok (ofNumeral n, rest)) := by
    intro n rest
    show (ofNumeral n).WordIs OneLine
    rcases ofNumeral_cases n with ⟨k, hk⟩ | ⟨x, hx⟩
    · rw [hk]
      trivial
    · rw [hx]
      trivial
  cases numberShape cs with
  | whole hnone =>
      rw [takeNumber_whole hnone]
      exact hnumeral _ _
  | point hfraction hnone =>
      rw [takeNumber_point hfraction hnone]
      exact hnumeral _ _
  | secondPoint hfraction hafter =>
      rw [takeNumber_second_point hfraction hafter]
      trivial

theorem takeWord_wordIs (cs : List Char) : (takeWord cs).1.WordIs OneLine := by
  have h : takeWord cs = ((takeWord cs).1, (takeWord cs).2) := rfl
  rcases takeWord_cases h with ⟨hident, -⟩ | ⟨k, hk, -⟩ | ⟨k, second, hk, -⟩
  · rw [hident]
    exact oneLine_of_isWordChar fun c hc => List.mem_takeWhile_imp hc
  · rw [hk]
    trivial
  · rw [hk]
    trivial

theorem take_yields (c : Char) (cs : List Char) :
    Yields (·.Shows OneLine) (fun r => r.1.WordIs OneLine) (take c cs) := by
  cases beginning c cs with
  | word hword =>
      rw [take_of_isWordStart hword]
      exact takeWord_wordIs (c :: cs)
  | mark _ hmark =>
      rw [take_mark hmark]
      unfold ofChar? at hmark
      split at hmark <;> cases hmark <;> trivial
  | operator _ hmark hop =>
      rw [take_operator hmark hop]
      split
      · trivial
      · exact oneLine_ofList.2 (not_mem_of_forall (fun c hc => List.mem_takeWhile_imp hc) rfl)
  | number _ hdigit =>
      rw [take_digit hdigit]
      exact takeNumber_yields false (c :: cs)
  | @negative d cs hdigit =>
      rw [take_minus hdigit]
      exact takeNumber_yields true (d :: cs)
  | unsupported hword hmark hop hminus hdigit =>
      rw [take_unsupported hmark hop hminus hdigit hword]
      trivial

/-- The words and operators of any text have no line feed. -/
theorem scan_yields (cs : List Char) :
    Yields (·.Shows OneLine) (Statement.WordsAre OneLine) (scan cs) := by
  fun_induction scan cs with
  | case1 => exact List.forall_mem_singleton.2 trivial
  | case2 c cs _ ih => exact ih
  | case3 c cs _ err herr => exact (take_yields c cs).error herr
  | case4 c cs _ t rest ht _ ih =>
      exact ih.bind fun ts hts => List.forall_mem_cons.2 ⟨(take_yields c cs).ok ht, hts⟩

end Token

/-! ### Commands -/

/-- A command on one line is read as a statement whose datastore is named on one line, or the error shows
only what has no line feed. -/
theorem Statement.ofText_yields {text : String} (h : OneLine text) :
    Yields (·.Shows OneLine) (fun s => PathIs OneLine s.table) (ofText text none) := by
  refine (extraction_yields h).bind fun e he => (Token.scan_yields e.text).bind fun ts hts => ?_
  exact (ofTokens_yields he hts).imp (fun _ herr => herr.shows) fun _ hs => hs

theorem Datastore.ofName_yields {name : String} (h : OneLine name) :
    Yields (·.Shows OneLine) (fun _ => True) (ofName name) := by
  rw [ofName]
  split
  · trivial
  · exact h

end TableQuery
