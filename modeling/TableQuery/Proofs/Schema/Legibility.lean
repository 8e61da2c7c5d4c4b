import TableQuery.Proofs.Database.Place
import TableQuery.Proofs.Literal.Quotation
import TableQuery.Proofs.Literal.Source
import TableQuery.Proofs.Token.Stray

/-! What the descriptions of fields are refused for. A description that has tokens is read, or it is refused
as a fault of the schema. Where a quote stays open, a placeholder stands or no token begins, it is refused as a
command would be. -/

namespace TableQuery

open Token

/-- The only errors of this outcome are faults of a schema. -/
def SchemaFaultOnly {α : Type} (x : Except QueryError α) : Prop :=
  ∀ err, x = .error err → ∃ fault, err = .invalidSchema fault

/-! ### Placeholders without values -/

/-- What a placeholder is refused for where there are no values. -/
def Source.refusal : Source → QueryError
  | .named name => .unresolvedName name
  | _ => .unresolvedPosition 0

/-- Without substitutions the first placeholder of a text is refused; a text without any is left as it is. -/
theorem replacePlaceholders_none (count used : Nat) (cs : List Char) :
    replacePlaceholders none 0 count [] cs =
      match (placeholders used cs).head? with
      | none => .ok (cs, [])
      | some source => .error source.refusal := by
  induction cs using placeholder_induction with
  | nil =>
      rw [replacePlaceholders_nil, placeholders]
      rfl
  | name cs hname _ =>
      rw [replacePlaceholders_name _ _ _ hname, placeholders_name hname]
      rfl
  | position cs _ =>
      rw [replacePlaceholders_position, placeholders]
      rfl
  | plain c cs hplain ih =>
      rw [replacePlaceholders_plain _ _ _ hplain, placeholders_plain hplain, ih]
      cases (placeholders used cs).head? <;> rfl

theorem Extraction.ofText_none {text : String} {quoted : List Char} {literals : List Value}
    (hquoted : replaceQuoted 0 text.toList = .ok (quoted, literals)) :
    ofText text none = match (placeholders 0 quoted).head? with
      | none => .ok ⟨quoted, literals⟩
      | some source => .error source.refusal := by
  rw [ofText, hquoted, ok_bind]
  dsimp only [Substitutions.positions, List.length_nil]
  rw [replacePlaceholders_none _ 0]
  cases (placeholders 0 quoted).head? with
  | none => exact congrArg (fun values => Except.ok (⟨quoted, values⟩ : Extraction)) (List.append_nil literals)
  | some source => rfl

/-! ### Descriptions of fields -/

namespace FieldDef

variable {text : String} {err : QueryError}

/-- The description has no tokens, for this reason. -/
inductive Illegible (text : String) : QueryError → Prop
  | quote {quote : Char} (h : LeavesOpen quote text.toList) : Illegible text (.malformed (.openQuote quote))
  | placeholder {quoted : List Char} {literals : List Value} {source : Source}
      (hquoted : replaceQuoted 0 text.toList = .ok (quoted, literals))
      (h : source ∈ (placeholders 0 quoted).head?) : Illegible text source.refusal
  | stray {quoted : List Char} {literals : List Value} {err : QueryError}
      (hquoted : replaceQuoted 0 text.toList = .ok (quoted, literals)) (hnone : placeholders 0 quoted = [])
      (h : Stray err quoted) : Illegible text err

/-- The description has tokens. -/
def Legible (text : String) : Prop := ∀ err, ¬ Illegible text err

theorem schemaFaultOnly_fail {α : Type} (fault : SchemaFault) :
    SchemaFaultOnly (fail fault : Except QueryError α) := by
  rintro err ⟨⟩
  exact ⟨fault, rfl⟩

theorem takeBehaviors_schemaFaultOnly (e : Extraction) (field : String) (ts : List Token) :
    SchemaFaultOnly (takeBehaviors e field ts) := by
  fun_induction takeBehaviors e field ts with
  | case1 word ts small hsmall ih => exact fun err h => ih err (map_eq_error_iff.1 h)
  | case2 word ts small _ hsmall ih => exact fun err h => ih err (map_eq_error_iff.1 h)
  | case3 => exact schemaFaultOnly_fail _
  | case4 word small _ _ hsmall t ts v hv ih => exact fun err h => ih err (map_eq_error_iff.1 h)
  | case5 => exact schemaFaultOnly_fail _
  | case6 => exact schemaFaultOnly_fail _
  | case7 => nofun
  | case8 => exact schemaFaultOnly_fail _

/-- What has tokens is read, or refused as a fault of the schema. -/
theorem ofTokens_schemaFaultOnly (e : Extraction) (ts : List Token) : SchemaFaultOnly (ofTokens e ts) := by
  unfold ofTokens
  split
  · exact fun err h => takeBehaviors_schemaFaultOnly e _ _ err (map_eq_error_iff.1 h)
  · exact schemaFaultOnly_fail _

theorem Illegible.ofText_eq (h : Illegible text err) : ofText text = .error err := by
  cases h with
  | quote hopen =>
      have hextract : Extraction.ofText text none = .error (.malformed (.openQuote _)) :=
        Extraction.ofText_malformed_iff.2 ⟨_, rfl, hopen⟩
      rw [ofText, hextract]
      rfl
  | placeholder hquoted hsource =>
      have hextract := Extraction.ofText_none hquoted
      rw [Option.mem_def.1 hsource] at hextract
      rw [ofText, hextract]
      rfl
  | @stray quoted literals _ hquoted hnone hstray =>
      have hextract : Extraction.ofText text none = .ok ⟨quoted, literals⟩ := by
        rw [Extraction.ofText_none hquoted, hnone]
        rfl
      rw [ofText, hextract, ok_bind, scan_eq_error_iff.2 hstray]
      rfl

theorem Illegible.ne_invalidSchema (h : Illegible text err) (fault : SchemaFault) :
    err ≠ .invalidSchema fault := by
  cases h with
  | quote => nofun
  | @placeholder _ _ source => cases source <;> nofun
  | stray _ _ hstray => exact hstray.ne_invalidSchema fault

theorem Legible.exists_tokens (h : Legible text) :
    ∃ e ts, Extraction.ofText text none = .ok e ∧ scan e.text = .ok ts := by
  cases hquoted : replaceQuoted 0 text.toList with
  | error err =>
      obtain ⟨quote, -, hopen⟩ := exists_leavesOpen hquoted
      exact absurd (.quote hopen) (h _)
  | ok p =>
      have hextract := Extraction.ofText_none hquoted
      cases hsource : (placeholders 0 p.1).head? with
      | some source => exact absurd (.placeholder hquoted hsource) (h _)
      | none =>
          rw [hsource] at hextract
          cases hscan : scan p.1 with
          | error err =>
              have hnone := List.head?_eq_none_iff.1 hsource
              exact absurd (.stray hquoted hnone (scan_eq_error_iff.1 hscan)) (h _)
          | ok ts => exact ⟨_, ts, hextract, hscan⟩

/-- **A description is read or refused as a fault of the schema exactly if it has tokens.** -/
theorem ofText_schemaFaultOnly_iff : SchemaFaultOnly (ofText text) ↔ Legible text := by
  constructor
  · intro h err hillegible
    obtain ⟨fault, hfault⟩ := h err hillegible.ofText_eq
    exact hillegible.ne_invalidSchema fault hfault
  · intro h
    obtain ⟨e, ts, hextract, hscan⟩ := h.exists_tokens
    rw [ofText, hextract, ok_bind, hscan]
    exact ofTokens_schemaFaultOnly e ts

end FieldDef

/-! ### Definitions of tables -/

theorem Schema.ofFields_schemaFaultOnly (fields : List FieldDef) : SchemaFaultOnly (ofFields fields) := by
  unfold ofFields
  split
  · exact FieldDef.schemaFaultOnly_fail _
  · nofun

/-- The first description that is not read has tokens. -/
def FirstUnreadLegible (fields : List String) : Prop :=
  ∀ front text back, fields = front ++ text :: back → (∀ t ∈ front, ∃ f, FieldDef.ofText t = .ok f) →
    FieldDef.Legible text

theorem Schema.ofTexts_schemaFaultOnly_iff (fields : List String) :
    SchemaFaultOnly (ofTexts fields) ↔ FirstUnreadLegible fields := by
  constructor
  · intro h front text back hfields hfront
    rw [← FieldDef.ofText_schemaFaultOnly_iff]
    intro err herr
    exact h err (bind_eq_error_iff.2 (Or.inl (mapM_eq_error_iff.2 ⟨front, text, back, hfields, hfront, herr⟩)))
  · intro h err herr
    rcases bind_eq_error_iff.1 herr with hfields | ⟨defs, -, hschema⟩
    · obtain ⟨front, text, back, heq, hfront, htext⟩ := mapM_eq_error_iff.1 hfields
      exact FieldDef.ofText_schemaFaultOnly_iff.2 (h front text back heq hfront) err htext
    · exact ofFields_schemaFaultOnly defs err hschema

namespace Database

variable {σ : Type} [Persistence σ]

theorem define_schemaFaultOnly_iff {db : Database σ} {path : String} {ds : Datastore} {name : String}
    (hplace : db.resolve path = .ok (ds, name)) (fields : List String) :
    SchemaFaultOnly (db.define path fields) ↔
      (db.store.table? ds name).isSome ∨ FirstUnreadLegible fields := by
  rw [define_eq hplace]
  cases db.store.table? ds name with
  | some t => exact iff_of_true (fun err h => nomatch h) (Or.inl rfl)
  | none =>
      have hmap : SchemaFaultOnly ((Schema.ofTexts fields).map fun schema =>
          commit { db with store := db.store.put ds name (.ofSchema schema) }) ↔
          SchemaFaultOnly (Schema.ofTexts fields) := by
        simp only [SchemaFaultOnly, map_eq_error_iff]
      simpa using hmap.trans (Schema.ofTexts_schemaFaultOnly_iff fields)

/-- **Descriptions are refused as faults of the schema exactly where they have tokens.** What has none is
refused for the quote, the placeholder or the character that is the reason; of several descriptions the first
that is not read decides. -/
theorem descriptions_refused :
    (∀ text, SchemaFaultOnly (FieldDef.ofText text) ↔ FieldDef.Legible text) ∧
    (∀ text err, FieldDef.Illegible text err → FieldDef.ofText text = .error err) ∧
    ∀ (db : Database σ) path ds name fields, db.resolve path = .ok (ds, name) →
      (SchemaFaultOnly (db.define path fields) ↔
        (db.store.table? ds name).isSome ∨ FirstUnreadLegible fields) :=
  ⟨fun _ => FieldDef.ofText_schemaFaultOnly_iff, fun _ _ h => h.ofText_eq,
    fun _ _ _ _ fields hplace => define_schemaFaultOnly_iff hplace fields⟩

/-- An attribute that does not exist is a fault of the schema, and no description behind it is looked at. -/
theorem descriptions_refused_unknown_attribute :
    let db : Database Unit := start .standard
    FieldDef.Legible "id unique" ∧ FieldDef.Illegible "a default :x" (.unresolvedName "x") ∧
      FieldDef.ofText "a default :x" = .error (.unresolvedName "x") ∧
      db.resolve "t" = .ok (.localStore, "t") ∧
      SchemaFaultOnly (db.define "t" ["id unique", "a default :x"]) := by
  intro db
  obtain ⟨hread, hillegible, hdefine⟩ := @descriptions_refused Unit _
  have hunique : FieldDef.ofText "id unique" = .error (.invalidSchema (.unknownAttribute "unique" "id")) := by
    decide +kernel
  have hlegible : FieldDef.Legible "id unique" := by
    refine (hread _).1 fun err herr => ?_
    rw [hunique] at herr
    exact ⟨_, (Except.error.inj herr).symm⟩
  have hquoted : replaceQuoted 0 "a default :x".toList = .ok ("a default :x".toList, []) := by
    decide +kernel
  have hsource : Source.named "x" ∈ (placeholders 0 "a default :x".toList).head? := by
    cbv
  have hplaceholder : FieldDef.Illegible "a default :x" (.unresolvedName "x") := .placeholder hquoted hsource
  have hplace : db.resolve "t" = .ok (.localStore, "t") := rfl
  refine ⟨hlegible, hplaceholder, hillegible _ _ hplaceholder, hplace, ?_⟩
  refine (hdefine db _ _ _ _ hplace).2 (Or.inr ?_)
  intro front text back hfields hfront
  cases front with
  | nil =>
      cases hfields
      exact hlegible
  | cons t front =>
      obtain ⟨f, hf⟩ := hfront t List.mem_cons_self
      rw [← (List.cons.inj hfields).1, hunique] at hf
      cases hf

/-- An open quote is a fault in the form of a command, also where a table is defined. -/
theorem open_quote_refused_as_command :
    FieldDef.ofText "a default 'x" = .error (.malformed (.openQuote '\'')) ∧
      ((start .standard : Database Unit).define "t" ["a default 'x"]).map (fun _ => ()) =
        .error (.malformed (.openQuote '\'')) := by
  decide +kernel

end Database
end TableQuery
