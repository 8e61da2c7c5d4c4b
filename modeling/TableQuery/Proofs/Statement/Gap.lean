import TableQuery.Proofs.Literal.Quotation
import TableQuery.Proofs.Statement.Derivation
import TableQuery.Proofs.Token.Spacing

/-! Commands with a gap. What is written in front of the gap and behind it is fixed, with its tokens, and what
stands in the gap is read between them. -/

namespace TableQuery

open Text Token

instance (c : Char) : Decidable (Plain c) := inferInstanceAs (Decidable (_ ∧ _))

instance (c : Char) : Decidable (IsLoose c) :=
  decidable_of_iff (isWordChar c = false ∧ isOperatorChar c = false ∧ c ≠ '.' ∧ c ≠ '-')
    ⟨fun ⟨hword, hoperator, hpoint, hminus⟩ => ⟨hword, hoperator, hpoint, hminus⟩,
      fun h => ⟨h.word, h.operator, h.point, h.minus⟩⟩

/-- A command with a gap: what is written in front of it and behind it, each with its tokens. What stands beside
the gap belongs to no word. -/
structure Gap where
  front : String
  tail : String
  before : List Token
  after : List Token
  scan_front : scan front.toList = .ok (before ++ [.eof]) := by decide +kernel
  scan_tail : scan tail.toList = .ok after := by decide +kernel
  plain_front : front.toList.all (Plain ·) := by decide
  plain_tail : tail.toList.all (Plain ·) := by decide
  front_ends : front.toList.getLast?.all (IsLoose ·) := by decide
  tail_starts : tail.toList.head?.all (IsLoose ·) := by decide
  complete : ∀ w, .ident w ∉ before.getLast? := by rintro w ⟨⟩

namespace Gap

variable (g : Gap) {w : String} {ts : List Token} {c : Char}

theorem plain (hc : c ∈ g.front.toList ∨ c ∈ g.tail.toList) : Plain c :=
  of_decide_eq_true (hc.elim (List.all_eq_true.1 g.plain_front c) (List.all_eq_true.1 g.plain_tail c))

theorem isLoose (hc : c ∈ g.front.toList.getLast? ∨ c ∈ g.tail.toList.head?) : IsLoose c :=
  of_decide_eq_true
    (hc.elim ((Option.all_eq_true _ _).1 g.front_ends c) ((Option.all_eq_true _ _).1 g.tail_starts c))

/-- The command with this in its gap. -/
def text (w : String) : String := g.front ++ w ++ g.tail

theorem toList_text : (g.text w).toList = g.front.toList ++ (w.toList ++ g.tail.toList) := by
  rw [text, String.toList_append, String.toList_append, List.append_assoc]

theorem extraction (hw : ∀ c ∈ w.toList, Plain c) :
    Extraction.ofText (g.text w) none = .ok ⟨(g.text w).toList, []⟩ := by
  have hplain : ∀ c ∈ (g.text w).toList, Plain c := by
    rw [toList_text, List.forall_mem_append, List.forall_mem_append]
    exact ⟨fun c hc => g.plain (Or.inl hc), hw, fun c hc => g.plain (Or.inr hc)⟩
  have hquoted := replaceQuoted_of_plain (fun c hc => (hplain c hc).1) 0 []
  rw [List.append_nil, replaceQuoted_nil] at hquoted
  rw [Extraction.ofText, hquoted]
  simp only [Except.map, ok_bind, List.append_nil, Substitutions.positions]
  rw [replacePlaceholders_plain_text hplain]
  rfl

/-- The tokens in front of the gap come first, whatever begins in it. -/
theorem scan_text (h : scan (w.toList ++ g.tail.toList) = .ok ts) :
    scan (g.text w).toList = .ok (g.before ++ ts) := by
  have hboundary : Boundary g.front.toList (w.toList ++ g.tail.toList) := fun d hd c _ =>
    (g.isLoose (Or.inl hd)).joins_left c
  have hcomplete : Complete g.before (w.toList ++ g.tail.toList) := fun name hname =>
    absurd hname (g.complete name)
  rw [toList_text, scan_append _ hboundary g.scan_front hcomplete, h]
  rfl

theorem ofText_text (hw : ∀ c ∈ w.toList, Plain c) (h : scan (w.toList ++ g.tail.toList) = .ok ts) :
    Statement.ofText (g.text w) none = Statement.ofTokens ⟨(g.text w).toList, []⟩ (g.before ++ ts) := by
  rw [Statement.ofText, g.extraction hw, ok_bind, g.scan_text h, ok_bind]

/-- A command whose tokens are those of a form is read as the statement of the form. -/
theorem ofText_of_form (form : Form Scalar) {s : Statement} (hw : ∀ c ∈ w.toList, Plain c)
    (h : scan (w.toList ++ g.tail.toList) = .ok ts) (hform : g.before ++ ts = form.tokens ++ [.eof])
    (hs : (form.map (Scalar.value ⟨(g.text w).toList, []⟩)).statement = .ok s) :
    Statement.ofText (g.text w) none = .ok s := by
  rw [g.ofText_text hw h, hform]
  exact (Derivation.ofTokens_tokens ⟨form, false⟩).trans hs

end Gap
end TableQuery
