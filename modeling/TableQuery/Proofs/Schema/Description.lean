import TableQuery.Proofs.Statement.Insertion
import TableQuery.Proofs.Statement.RoundTrip
import TableQuery.Proofs.Token.LetterCase
import TableQuery.Schema.Parser

/-! How fields are described. A description is the name of a field with the words of its behaviors behind it,
and a default has its value behind its word. Whatever letter case, spacing and quotes are chosen, and whatever
the texts among the defaults contain, it is read as that field. -/

namespace TableQuery

open Text Token

/-! ### Words in any letter case -/

theorem Text.IsWord.of_smallLetters {v w : List Char} (hv : IsWord v) (h : smallLetters w = smallLetters v) :
    IsWord w := by
  have hclass : ∀ {p : Char → Bool}, (∀ c, c.isAlpha → p c = true) → ∀ {c d : Char}, c.toLower = d.toLower →
      p d → p c := by
    intro p hp c d heq hd
    rwa [← class_toLower hp, heq, class_toLower hp]
  constructor
  · obtain ⟨d, v, rfl, hstart⟩ := hv.start
    cases w with
    | nil => cases h
    | cons c w => exact ⟨c, w, rfl, hclass isWordStart_of_isAlpha (List.cons.inj h).1 hstart⟩
  · intro c hc
    have hmem : c.toLower ∈ smallLetters v := h ▸ List.mem_map_of_mem hc
    obtain ⟨d, hd, heq⟩ := List.mem_map.1 hmem
    exact hclass isWordChar_of_isAlpha heq.symm (hv.all d hd)

theorem IsName.of_smallLetters {name name' : String} (hname' : IsName name')
    (h : smallLetters name.toList = smallLetters name'.toList) : IsName name := by
  have hupper : upper name.toList = upper name'.toList := by
    rw [← upper_smallLetters, h, upper_smallLetters]
  exact ⟨hname'.word.of_smallLetters h, hupper ▸ hname'.keyword, hupper ▸ hname'.compound⟩

namespace FieldDef

/-! ### Descriptions -/

/-- The word of a behavior in small letters. -/
def behaviorWord : Behavior → String
  | .autoIncrement => "auto_inc"
  | .timestamp => "timestamp"
  | .default _ => "default"

/-- The text is the word of the behavior in some letter case. -/
def Names (b : Behavior) (word : String) : Prop := smallLetters word.toList = (behaviorWord b).toList

/-- The symbols write the behaviors in their order; a default is followed by its value. -/
inductive Writes : List Behavior → List (Symbol Supplied) → Prop
  | nil : Writes [] []
  | word {b : Behavior} {word : String} {bs : List Behavior} {symbols : List (Symbol Supplied)}
      (hb : ∀ v, b ≠ .default v) (hword : Names b word) (rest : Writes bs symbols) :
      Writes (b :: bs) (.sign (.ident word) :: symbols)
  | default {x : Supplied} {word : String} {bs : List Behavior} {symbols : List (Symbol Supplied)}
      (hx : x.filling? = none) (hword : Names (.default x.value) word) (rest : Writes bs symbols) :
      Writes (.default x.value :: bs) (.sign (.ident word) :: .value x :: symbols)

/-- The text describes the field: its name, and then its behaviors, with blanks between all of them. -/
def WrittenAs (f : FieldDef) (text : String) : Prop :=
  ∃ bs cs symbols, text.toList = bs ++ (f.name.toList ++ cs) ∧ (∀ c ∈ bs, isBlank c) ∧ Parted cs ∧
    Writes f.behaviors symbols ∧ Layout Written symbols cs

/-- A field that can be described: its name is an identifier, and it has no float for a default. -/
structure WellFormed (f : FieldDef) : Prop where
  name : IsIdentifier f.name
  defaults : ∀ v, .default v ∈ f.behaviors → v.float? = none

variable {bs : List Behavior} {symbols : List (Symbol Supplied)}

theorem Names.smallLetters_eq {b : Behavior} {word : String} (h : Names b word) :
    smallLetters word.toList = (behaviorWord b).toList := h

theorem isName_behaviorWord (b : Behavior) : IsName (behaviorWord b) := by
  cases b with
  | autoIncrement => exact ⟨⟨⟨'a', "uto_inc".toList, rfl, rfl⟩, List.all_eq_true.1 rfl⟩, rfl, rfl⟩
  | timestamp => exact .of_isAlpha (by decide) (List.all_eq_true.1 rfl) rfl rfl
  | default v =>
      show IsName "default"
      exact .of_isAlpha (by decide) (List.all_eq_true.1 rfl) rfl rfl

theorem names_behaviorWord (b : Behavior) : Names b (behaviorWord b) := by
  unfold Names
  cases b <;> simp only [behaviorWord] <;> decide

theorem Names.isName {b : Behavior} {word : String} (h : Names b word) : IsName word := by
  refine (isName_behaviorWord b).of_smallLetters ?_
  rw [h.smallLetters_eq, (names_behaviorWord b).smallLetters_eq]

theorem Writes.namesIn (h : Writes bs symbols) : NamesIn symbols := by
  induction h with
  | nil => exact fun name hname => absurd hname List.not_mem_nil
  | word hb hword _ ih =>
      intro name hname
      rcases List.mem_cons.1 hname with heq | hlater
      · cases heq
        exact hword.isName
      · exact ih name hlater
  | default hx hword _ ih =>
      intro name hname
      rcases List.mem_cons.1 hname with heq | hlater
      · cases heq
        exact hword.isName
      · rcases List.mem_cons.1 hlater with heq | hlater
        · cases heq
        · exact ih name hlater

/-- All values are written out. -/
theorem Writes.filling? (h : Writes bs symbols) : ∀ x ∈ valuesIn symbols, x.filling? = none := by
  induction h with
  | nil => exact List.forall_mem_nil _
  | word _ _ _ ih => exact ih
  | default hx _ _ ih => exact List.forall_mem_cons.2 ⟨hx, ih⟩

theorem Writes.fill (h : Writes bs symbols) : Substitutions.Fill none (valuesIn symbols) where
  positions := by
    refine (List.filterMap_eq_nil_iff.2 fun x hx => ?_).symm
    have hfilling := h.filling? x hx
    cases x with
    | position v => cases hfilling
    | _ => rfl
  named := by
    intro name v hmem
    cases h.filling? _ hmem

/-! ### Reading a description -/

theorem Spells.eq_toList {name : String} {w : List Char} (h : Spells (.ident name) w) : w = name.toList := by
  generalize ht : Token.ident name = t at h
  cases h with
  | ident name' =>
      cases ht
      rfl
  | mark h =>
      rw [← ht, ofChar?.eq_def] at h
      split at h <;> cases h
  | _ => cases ht

theorem length_second {word : String} {r : String × Keyword} (h : Keyword.compound? word = some r) :
    r.1.toList.length ≤ 4 := by
  rw [Keyword.compound?.eq_def] at h
  split at h <;> cases h <;> decide

theorem Names.length_toList {b : Behavior} {word : String} (h : Names b word) : 7 ≤ word.toList.length := by
  have hlength := congrArg List.length h.smallLetters_eq
  rw [smallLetters, List.length_map] at hlength
  rw [hlength]
  cases b <;> simp only [behaviorWord] <;> decide

theorem takeSecond_of_names {b : Behavior} {word first : String} (hword : Names b word) {r : String × Keyword}
    (hr : Keyword.compound? first = some r) {cs : List Char} (hcs : Parted cs) :
    takeSecond r.1 (word.toList ++ cs) = none := by
  refine takeSecond_eq_none hword.isName.word (fun c hc => isWordChar_of_isBlank (hcs c hc)) fun heq => ?_
  have hlength := congrArg List.length heq
  rw [List.length_map] at hlength
  have hlong := hword.length_toList
  have hshort := length_second hr
  omega

/-- The words of behaviors complete no keyword that a name begins. -/
theorem takeSecond_of_writes {W : Supplied → List Char → Prop} (h : Writes bs symbols) {cs : List Char}
    (hlayout : Layout W symbols cs) {first : String} {r : String × Keyword}
    (hr : Keyword.compound? first = some r) : takeSecond r.1 cs = none := by
  cases h with
  | nil =>
      cases hlayout with
      | nil hbs =>
          rw [← List.append_nil cs, takeSecond_blanks_append hbs]
          rfl
  | word hb hword rest =>
      cases hlayout with
      | sign hbs hw hcs hrest =>
          rw [Spells.eq_toList hw, takeSecond_blanks_append hbs]
          exact takeSecond_of_names hword hr hcs
  | default hx hword rest =>
      cases hlayout with
      | sign hbs hw hcs hrest =>
          rw [Spells.eq_toList hw, takeSecond_blanks_append hbs]
          exact takeSecond_of_names hword hr hcs

section Behaviors

variable {e : Extraction} {field word : String} {ts : List Token}

theorem takeBehaviors_word {b : Behavior} (hb : ∀ v, b ≠ .default v) (hword : Names b word) :
    takeBehaviors e field (.ident word :: ts) = (takeBehaviors e field ts).map (b :: ·) := by
  have hsmall := hword.smallLetters_eq
  cases b with
  | autoIncrement =>
      rw [takeBehaviors.eq_def]
      exact if_pos hsmall
  | timestamp =>
      have hne : smallLetters word.toList ≠ "auto_inc".toList := hsmall ▸ by decide
      rw [takeBehaviors.eq_def]
      exact (if_neg hne).trans (if_pos hsmall)
  | default v => exact absurd rfl (hb v)

theorem takeBehaviors_default {v : Value} {t : Token} (hword : Names (.default v) word)
    (hv : Statement.value? e t = some v) :
    takeBehaviors e field (.ident word :: t :: ts) = (takeBehaviors e field ts).map (.default v :: ·) := by
  have hsmall : smallLetters word.toList = "default".toList := hword
  have hauto : smallLetters word.toList ≠ "auto_inc".toList := hsmall ▸ by decide
  have hstamp : smallLetters word.toList ≠ "timestamp".toList := hsmall ▸ by decide
  rw [takeBehaviors.eq_def]
  refine (if_neg hauto).trans ((if_neg hstamp).trans ((if_pos hsmall).trans ?_))
  simp only [hv]

theorem takeBehaviors_of_leads (h : Writes bs symbols)
    (hleads : Leads e.Means (symbols.map (Symbol.map Supplied.value)) ts [.eof]) :
    takeBehaviors e field ts = .ok bs := by
  induction h generalizing ts with
  | nil =>
      cases hleads
      rfl
  | word hb hword _ ih =>
      cases hleads with
      | sign hleads =>
          rw [takeBehaviors_word hb hword, ih hleads]
          rfl
  | default hx hword _ ih =>
      cases hleads with
      | sign hleads =>
          cases hleads with
          | value hv hleads =>
              rw [takeBehaviors_default hword hv, ih hleads]
              rfl

end Behaviors

/-! ### Writing a description -/

theorem exists_written {v : Value} (hv : v.float? = none) :
    ∃ x w, Written x w ∧ x.filling? = none ∧ x.value = v := by
  cases v with
  | null => exact ⟨.null, _, .null (inSomeCase_self (List.all_eq_true.1 rfl)), rfl, rfl⟩
  | bool b =>
      have hword : InSomeCase (if b then "TRUE" else "FALSE") (if b then "TRUE" else "FALSE").toList := by
        cases b <;> exact inSomeCase_self (List.all_eq_true.1 rfl)
      exact ⟨.bool b, _, .bool hword, rfl, rfl⟩
  | int n => exact ⟨.int n, _, .int n, rfl, rfl⟩
  | float x => cases hv
  | text s => exact ⟨.text '\'' s, _, .text rfl s, rfl, rfl⟩

theorem exists_writes (bs : List Behavior) (h : ∀ v, .default v ∈ bs → v.float? = none) :
    ∃ symbols cs, Writes bs symbols ∧ Layout Written symbols cs ∧ Parted cs := by
  induction bs with
  | nil => exact ⟨[], [], .nil, .nil (List.forall_mem_nil _), parted_nil⟩
  | cons b bs ih =>
      obtain ⟨symbols, cs, hwrites, hlayout, hcs⟩ := ih fun v hv => h v (List.mem_cons_of_mem b hv)
      have hword := names_behaviorWord b
      by_cases hb : ∃ v, b = .default v
      · obtain ⟨v, rfl⟩ := hb
        obtain ⟨x, w, hw, hx, rfl⟩ := exists_written (h v List.mem_cons_self)
        exact ⟨_, _, .default hx hword hwrites, .sign isBlank_of_mem_space (.ident _) (parted_space _)
          (.value isBlank_of_mem_space hw hcs hlayout), parted_space _⟩
      · exact ⟨_, _, .word (not_exists.1 hb) hword hwrites,
          .sign isBlank_of_mem_space (.ident _) hcs hlayout, parted_space _⟩

theorem WellFormed.exists_text {f : FieldDef} (hf : f.WellFormed) : ∃ text, f.WrittenAs text := by
  obtain ⟨symbols, cs, hwrites, hlayout, hcs⟩ := exists_writes f.behaviors hf.defaults
  refine ⟨String.ofList (f.name.toList ++ cs), [], cs, symbols, ?_, List.forall_mem_nil _, hcs, hwrites,
    hlayout⟩
  rw [String.toList_ofList, List.nil_append]

/-- **A field can be described, and all its descriptions are read as that field.** -/
theorem descriptions_read {f : FieldDef} (hf : f.WellFormed) :
    (∃ text, f.WrittenAs text) ∧ ∀ text, f.WrittenAs text → ofText text = .ok f := by
  refine ⟨hf.exists_text, ?_⟩
  rintro text ⟨bs, cs, symbols, htext, hbs, hcs, hwrites, hlayout⟩
  have hfront : ∀ c ∈ bs ++ f.name.toList, Plain c :=
    List.forall_mem_append.2 ⟨fun c hc => plain_of_isBlank (hbs c hc), hf.name.plain⟩
  rw [← List.append_assoc] at htext
  obtain ⟨labelled, values, hextraction, hlabelled, hparted⟩ :=
    Extraction.exists_of_layout htext hfront hwrites.namesIn hwrites.fill hlayout
  have hend : ∀ c ∈ labelled.head?, isWordChar c = false := fun c hc =>
    isWordChar_of_isBlank (hparted hcs c hc)
  obtain ⟨ts, hts, hleads⟩ :=
    scan_layout (e := ⟨bs ++ f.name.toList ++ labelled, values⟩) hlabelled hwrites.namesIn
  have hname := scan_apart hf.name.word hf.name.keyword hend fun r hr =>
    takeSecond_of_writes hwrites hlabelled hr
  have hscan : scan (bs ++ f.name.toList ++ labelled) = .ok (.ident f.name :: ts) := by
    rw [List.append_assoc, scan_blanks hbs, hname, hts, String.ofList_toList]
    rfl
  rw [ofText, hextraction, ok_bind, hscan, ok_bind, ofTokens, takeBehaviors_of_leads hwrites hleads]
  rfl

/-- A name that begins a keyword, and a default that looks like one, like placeholders and like a behavior. -/
def hostileField : FieldDef :=
  ⟨"order", [.default (.text "by ? :x ' timestamp"), .timestamp, .default .null, .autoIncrement]⟩

theorem descriptions_read_hostile : hostileField.WellFormed ∧
    hostileField.WrittenAs "order Default 'by ? :x \\' timestamp' TIMESTAMP\tdefault null auto_Inc" ∧
    ofText "order Default 'by ? :x \\' timestamp' TIMESTAMP\tdefault null auto_Inc" = .ok hostileField := by
  have hf : hostileField.WellFormed := by
    refine ⟨isIdentifier_of_isAlpha (by decide) (by decide) rfl, fun v hv => ?_⟩
    have hmem : Behavior.default v ∈
        [.default (.text "by ? :x ' timestamp"), .timestamp, .default .null, .autoIncrement] := hv
    simp at hmem
    rcases hmem with rfl | rfl <;> rfl
  have hwritten : hostileField.WrittenAs
      "order Default 'by ? :x \\' timestamp' TIMESTAMP\tdefault null auto_Inc" := by
    have hblank := isBlank_of_mem_space
    have htab : ∀ c ∈ ['\t'], isBlank c := List.all_eq_true.1 rfl
    have hparted : ∀ cs, Parted ('\t' :: cs) := by
      rintro cs c ⟨⟩
      rfl
    have hstamp : ∀ v, Behavior.timestamp ≠ .default v := nofun
    have hauto : ∀ v, Behavior.autoIncrement ≠ .default v := nofun
    have hwrites : Writes hostileField.behaviors [.sign (.ident "Default"),
        .value (.text '\'' "by ? :x ' timestamp"), .sign (.ident "TIMESTAMP"), .sign (.ident "default"),
        .value .null, .sign (.ident "auto_Inc")] := by
      refine .default (x := .text '\'' "by ? :x ' timestamp") rfl ?_
        (.word hstamp ?_ (.default (x := .null) rfl ?_ (.word hauto ?_ .nil)))
      all_goals
        unfold Names
        rfl
    refine ⟨[], [' '] ++ ("Default".toList ++ ([' '] ++
      (('\'' :: (escaped '\'' "by ? :x ' timestamp".toList ++ ['\''])) ++ ([' '] ++ ("TIMESTAMP".toList ++
      (['\t'] ++ ("default".toList ++ ([' '] ++ ("null".toList ++ ([' '] ++
      ("auto_Inc".toList ++ []))))))))))), _, by decide, List.forall_mem_nil _, parted_space _, hwrites, ?_⟩
    refine .sign hblank (.ident "Default") (parted_space _) ?_
    refine .value hblank (.text rfl _) (parted_space _) ?_
    refine .sign hblank (.ident "TIMESTAMP") (hparted _) ?_
    refine .sign htab (.ident "default") (parted_space _) ?_
    refine .value hblank (.null rfl) (parted_space _) ?_
    exact .sign hblank (.ident "auto_Inc") parted_nil (.nil (List.forall_mem_nil _))
  exact ⟨hf, hwritten, (descriptions_read hf).2 _ hwritten⟩

end FieldDef
end TableQuery
