import TableQuery.Proofs.Literal.Source
import TableQuery.Proofs.Statement.Fault

/-! Substitutions fill places and do nothing else. Two sets of the same shape lead to the same tokens,
and to statements of one form in which each place holds what its own set binds to the placeholder
there. -/

namespace TableQuery

/-- The tokens of a command whose placeholders are filled. -/
def Statement.tokens (text : String) (subs : Option Substitutions) :
    Except QueryError (List Token) := do
  let e ← Extraction.ofText text subs
  Token.scan e.text

/-- Whether two errors are of one kind, whatever they tell about it. -/
def QueryError.SameKind : QueryError → QueryError → Prop
  | .malformed _, .malformed _ => True
  | .unknownComparator _, .unknownComparator _ => True
  | .unresolvedName _, .unresolvedName _ => True
  | .unresolvedPosition _, .unresolvedPosition _ => True
  | .unusedPositions _, .unusedPositions _ => True
  | .unknownDatastore _, .unknownDatastore _ => True
  | .invalidSchema _, .invalidSchema _ => True
  | _, _ => False

theorem QueryError.SameKind.refl (err : QueryError) : err.SameKind err := by
  cases err <;> trivial

/-! ### The form of a command with the sources of its values -/

/-- The source of the value that a token stands for in the command. -/
def Source.ofToken? (text : String) : Token → Option Source
  | .number n => some (.fixed (.int n))
  | .float x => some (.fixed (.float x))
  | .ident word =>
    some ((find? 1 word.toList (ofText text)).getD (.fixed (Statement.bareWord word)))
  | _ => none

/-- The token stands in the command for a value from this source. -/
def Source.Marks (text : String) (source : Source) (t : Token) : Prop :=
  Source.ofToken? text t = some source

/-- The statement has this form, with the values that the substitutions bind in its places. -/
def Form.Filled (form : Form Source) (subs : Substitutions) (s : Statement) : Prop :=
  ∃ f : Form Value, form.map (Source.value? subs) = f.map some ∧ f.statement = .ok s

/-- The scalar's source in the command. -/
def Scalar.source (text : String) : Scalar → Source
  | .number n => .fixed (.int n)
  | .float x => .fixed (.float x)
  | .word w => (Source.find? 1 w.toList (Source.ofText text)).getD (.fixed (Statement.bareWord w))

theorem Scalar.marks_of_stands (text : String) (x : Scalar) (t : Token) (h : x.Stands t) :
    Source.Marks text (x.source text) t := by
  cases h
  cases x <;> rfl

theorem Scalar.value?_source {text : String} {subs : Substitutions} {e : Extraction}
    (h : Extraction.ofText text subs = .ok e) (x : Scalar) :
    (x.source text).value? subs = some (x.value e) := by
  cases x with
  | number n => rfl
  | float x => rfl
  | word w =>
      have hfind := Source.find?_eq (Source.value?_ofText h) 1 w.toList
      rw [Scalar.source, Scalar.value, Extraction.resolve?]
      cases hsource : Source.find? 1 w.toList (Source.ofText text) with
      | none =>
          rw [hsource] at hfind
          rw [Option.map_eq_none_iff.1 hfind.symm]
          rfl
      | some source =>
          rw [hsource] at hfind
          obtain ⟨v, hv, hvalue⟩ := Option.map_eq_some_iff.1 hfind.symm
          rw [hv, Option.getD_some, Option.getD_some, hvalue]

/-! ### Two runs -/

/-- An error that is not about the value of a limit comes with an error of the same kind. -/
def RefusedAlike (x y : Except QueryError Statement) : Prop :=
  ∀ err, x = .error err → (∀ v, err ≠ .malformed (.limit v)) →
    ∃ err', y = .error err' ∧ err.SameKind err'

/-- What two substitution sets have in common on a command. -/
structure Substitutions.SameReading (text : String) (a b : Substitutions) : Prop where
  /-- The literals and placeholders are refused alike, or leave the same text and as many labels. -/
  labelling : (Extraction.ofText text a).map Extraction.labelling =
    (Extraction.ofText text b).map Extraction.labelling
  tokens : Statement.tokens text a = Statement.tokens text b
  /-- Two statements differ only in the places of placeholders. -/
  statements : ∀ s t, Statement.ofText text a = .ok s → Statement.ofText text b = .ok t →
    ∃ (form : Form Source) (ts rest : List Token), Statement.tokens text a = .ok ts ∧
      Leads (Source.Marks text) form.symbols ts rest ∧ Statement.Ends rest ∧
      form.Filled a s ∧ form.Filled b t
  errors : RefusedAlike (Statement.ofText text a) (Statement.ofText text b) ∧
    RefusedAlike (Statement.ofText text b) (Statement.ofText text a)

namespace Substitutions.SameShape

variable {a b : Substitutions} {text : String}

theorem text_eq {e f : Extraction} (h : a.SameShape b) (he : Extraction.ofText text a = .ok e)
    (hf : Extraction.ofText text b = .ok f) : e.text = f.text := by
  have hlabelling := Extraction.ofText_labelling h text
  rw [he, hf] at hlabelling
  exact congrArg Prod.fst (Except.ok.inj hlabelling)

theorem exists_extraction {e : Extraction} (h : a.SameShape b)
    (he : Extraction.ofText text a = .ok e) :
    ∃ f, Extraction.ofText text b = .ok f ∧ f.text = e.text := by
  have hlabelling := Extraction.ofText_labelling h text
  rw [he] at hlabelling
  obtain ⟨f, hf, hlabels⟩ := map_eq_ok_iff.1 hlabelling.symm
  exact ⟨f, hf, congrArg Prod.fst hlabels⟩

theorem error_of_error {err : QueryError} (h : a.SameShape b)
    (he : Extraction.ofText text a = .error err) : Extraction.ofText text b = .error err := by
  have hlabelling := Extraction.ofText_labelling h text
  rw [he] at hlabelling
  exact map_eq_error_iff.1 hlabelling.symm

theorem tokens_eq (h : a.SameShape b) : Statement.tokens text a = Statement.tokens text b := by
  cases he : Extraction.ofText text a with
  | error err => rw [Statement.tokens, Statement.tokens, he, h.error_of_error he]
  | ok e =>
      obtain ⟨f, hf, htext⟩ := h.exists_extraction he
      rw [Statement.tokens, Statement.tokens, he, hf, ok_bind, ok_bind, htext]

end Substitutions.SameShape

namespace Statement

variable {text : String} {subs : Option Substitutions}

theorem ofText_eq_ok_iff {s : Statement} : ofText text subs = .ok s ↔
    ∃ e ts, Extraction.ofText text subs = .ok e ∧ Token.scan e.text = .ok ts ∧ ofTokens e ts = .ok s := by
  constructor
  · intro h
    obtain ⟨e, he, h⟩ := bind_eq_ok_iff.1 h
    obtain ⟨ts, hts, h⟩ := bind_eq_ok_iff.1 h
    exact ⟨e, ts, he, hts, h⟩
  · rintro ⟨e, ts, he, hts, h⟩
    exact bind_eq_ok_iff.2 ⟨e, he, bind_eq_ok_iff.2 ⟨ts, hts, h⟩⟩

end Statement

theorem Form.filled_of_scalars {text : String} {subs : Substitutions} {e : Extraction}
    (he : Extraction.ofText text subs = .ok e) {form : Form Scalar} {s : Statement}
    (hs : (form.map (Scalar.value e)).statement = .ok s) :
    (form.map (Scalar.source text)).Filled subs s := by
  refine ⟨form.map (Scalar.value e), ?_, hs⟩
  have hvalues : Source.value? subs ∘ Scalar.source text = some ∘ Scalar.value e :=
    funext (Scalar.value?_source he)
  rw [Form.map_map, Form.map_map, hvalues]

/-- What is refused with some values, and not for its limit, is refused with all values. -/
theorem Statement.exists_error_of_ofTokens {e : Extraction} {ts : List Token} {err : QueryError}
    (h : ofTokens e ts = .error err) (hlimit : ∀ v, err ≠ .malformed (.limit v)) (f : Extraction) :
    ∃ err', ofTokens f ts = .error err' := by
  cases hf : ofTokens f ts with
  | error err' => exact ⟨err', rfl⟩
  | ok s =>
      obtain ⟨form, rest, hleads, hrest, -⟩ := form_of_ofTokens hf
      rw [ofTokens_of_stands hleads hrest] at h
      obtain ⟨v, hv⟩ := Form.statement_eq_error h
      exact absurd hv (hlimit v)

namespace Substitutions

theorem SameShape.refusedAlike {a b : Substitutions} (h : a.SameShape b) (text : String) :
    RefusedAlike (Statement.ofText text a) (Statement.ofText text b) := by
  intro err herr hlimit
  cases he : Extraction.ofText text a with
  | error err' =>
      rw [Statement.ofText, he] at herr
      cases herr
      exact ⟨err, by rw [Statement.ofText, h.error_of_error he]; rfl, .refl err⟩
  | ok e =>
      obtain ⟨f, hf, htext⟩ := h.exists_extraction he
      rw [Statement.ofText, he, ok_bind] at herr
      rw [Statement.ofText, hf, ok_bind, htext]
      cases hts : Token.scan e.text with
      | error err' =>
          rw [hts] at herr
          cases herr
          exact ⟨err, rfl, .refl err⟩
      | ok ts =>
          rw [hts, ok_bind] at herr
          obtain ⟨err', herr'⟩ := Statement.exists_error_of_ofTokens herr hlimit f
          obtain ⟨fault, rfl⟩ := Statement.ofTokens_fault e ts err herr
          obtain ⟨fault', rfl⟩ := Statement.ofTokens_fault f ts err' herr'
          exact ⟨_, herr', trivial⟩

/-- **Substitutions fill the places of placeholders and change nothing else.** -/
theorem sameReading_of_sameShape {a b : Substitutions} (h : a.SameShape b) (text : String) :
    SameReading text a b where
  labelling := Extraction.ofText_labelling h text
  tokens := h.tokens_eq
  statements := by
    intro s t hs ht
    obtain ⟨e, ts, he, hts, hs⟩ := Statement.ofText_eq_ok_iff.1 hs
    obtain ⟨f, ts', hf, hts', ht⟩ := Statement.ofText_eq_ok_iff.1 ht
    rw [← h.text_eq he hf, hts] at hts'
    cases hts'
    obtain ⟨form, rest, hleads, hrest, hstatement⟩ := Statement.form_of_ofTokens hs
    rw [Statement.ofTokens_of_stands hleads hrest] at ht
    refine ⟨form.map (Scalar.source text), ts, rest, ?_, ?_, hrest, ?_, ?_⟩
    · rw [Statement.tokens, he, ok_bind, hts]
    · rw [Form.symbols_map]
      exact hleads.map (Scalar.marks_of_stands text)
    · exact Form.filled_of_scalars he hstatement
    · exact Form.filled_of_scalars hf ht
  errors := ⟨h.refusedAlike text, h.symm.refusedAlike text⟩

/-- Texts that look like parts of a command are read like any other value. -/
theorem sameReading_of_hostile_texts :
    SameShape (.positional [.text "x' OR a = a", .text "?"]) (.positional [.null, .int 3]) ∧
      SameReading "UPDATE t SET a = ? WHERE b = 'it\\'s ?' AND a = ?;"
        (.positional [.text "x' OR a = a", .text "?"]) (.positional [.null, .int 3]) := by
  have hshape : SameShape (.positional [.text "x' OR a = a", .text "?"])
      (.positional [.null, .int 3]) := .positional rfl
  exact ⟨hshape, sameReading_of_sameShape hshape _⟩

end Substitutions
end TableQuery
