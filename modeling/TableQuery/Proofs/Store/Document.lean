import TableQuery.Persistence
import TableQuery.Proofs.Json.Integer

/-! Stores are read back from their text. Names, the order of rows, fields and behaviors, and the
counters come back as they were; a value comes back as what its own document is read as. -/

namespace TableQuery

open Json

/-! ### The values of a store -/

def Behavior.mapValue (r : Value → Value) : Behavior → Behavior
  | .default v => .default (r v)
  | b => b

def Behavior.value? : Behavior → Option Value
  | .default v => some v
  | _ => none

def FieldDef.mapValues (r : Value → Value) (f : FieldDef) : FieldDef :=
  ⟨f.name, f.behaviors.map (Behavior.mapValue r)⟩

namespace Schema

def mapValues (r : Value → Value) (s : Schema) : Schema := ⟨s.fields.map (FieldDef.mapValues r)⟩

/-- The default values of the fields. -/
def defaults (s : Schema) : List Value := s.fields.flatMap fun f => f.behaviors.filterMap Behavior.value?

end Schema

namespace Table

def mapValues (r : Value → Value) (t : Table) : Table :=
  ⟨t.rows.map (Dict.mapValues r), t.schema.mapValues r, t.counters⟩

/-- The values in the rows and the default values. -/
def values (t : Table) : List Value :=
  t.rows.flatMap (fun row => row.entries.map Prod.snd) ++ t.schema.defaults

end Table

namespace Store

def mapValues (r : Value → Value) (s : Store) : Store :=
  ⟨s.localTables.mapValues (Table.mapValues r), s.sessionTables.mapValues (Table.mapValues r)⟩

def values (s : Store) : List Value :=
  (s.localTables.entries ++ s.sessionTables.entries).flatMap fun e => e.2.values

/-- There is no float in a row, nor as a default. -/
def FloatFree (s : Store) : Prop := ∀ v ∈ s.values, v.float? = none

instance (s : Store) : Decidable s.FloatFree := inferInstanceAs (Decidable (∀ v ∈ s.values, v.float? = none))

end Store

/-! ### From the document to the store -/

variable {r : Value → Value}

theorem Behavior.readsAs {b : Behavior}
    (h : ∀ v ∈ b.value?, ReadsAs Value.toJson Value.ofJson? v (r v)) :
    ReadsAs toJson ofJson? b (b.mapValue r) := by
  cases b with
  | autoIncrement => exact ⟨.text _, rfl⟩
  | timestamp => exact ⟨.text _, rfl⟩
  | default v =>
      obtain ⟨hlegible, hback⟩ := h v rfl
      refine ⟨legible_record fun m hm => ?_, ?_⟩
      · rw [List.mem_singleton.1 hm]
        exact hlegible
      · exact congrArg (Option.map Behavior.default) hback

theorem FieldDef.readsAs {f : FieldDef}
    (h : ∀ b ∈ f.behaviors, ∀ v ∈ b.value?, ReadsAs Value.toJson Value.ofJson? v (r v)) :
    ReadsAs toJson ofJson? f (f.mapValues r) := by
  have hname := readsAs_string f.name
  have hbehaviors := readsAs_list fun b hb => Behavior.readsAs (h b hb)
  have hrecord : f.toJson.record? ["name", "behaviors"] =
      some [some (.ofString f.name), some (.ofList Behavior.toJson f.behaviors)] :=
    record?_record [("name", Json.ofString f.name),
      ("behaviors", .ofList Behavior.toJson f.behaviors)] (by simp)
  refine ⟨legible_record fun m hm => ?_, ?_⟩
  · rcases List.mem_pair.1 hm with rfl | rfl
    · exact hname.legible
    · exact hbehaviors.legible
  · simp only [ofJson?, hrecord, hname.back, hbehaviors.back, Option.bind_eq_bind, Option.bind_some]
    rfl

theorem Schema.readsAs {s : Schema}
    (h : ∀ v ∈ s.defaults, ReadsAs Value.toJson Value.ofJson? v (r v)) :
    ReadsAs toJson ofJson? s (s.mapValues r) := by
  have hfields := readsAs_list fun f hf => FieldDef.readsAs (f := f) (r := r) fun b hb v hv =>
    h v (List.mem_flatMap.2 ⟨f, hf, List.mem_filterMap.2 ⟨b, hb, hv⟩⟩)
  have hrecord : s.toJson.record? ["fields"] = some [some (.ofList FieldDef.toJson s.fields)] :=
    record?_record [("fields", .ofList FieldDef.toJson s.fields)] (by simp)
  refine ⟨legible_record fun m hm => ?_, ?_⟩
  · rw [List.mem_singleton.1 hm]
    exact hfields.legible
  · simp only [ofJson?, hrecord, hfields.back, Option.bind_eq_bind, Option.bind_some]
    rfl

theorem Table.readsAs {t : Table} (h : ∀ v ∈ t.values, ReadsAs Value.toJson Value.ofJson? v (r v)) :
    ReadsAs toJson ofJson? t (t.mapValues r) := by
  obtain ⟨hrowValues, hdefaults⟩ := List.forall_mem_append.1 h
  have hrows : ReadsAs (.ofList Row.toJson) (list? Row.ofJson?) t.rows (t.rows.map (Dict.mapValues r)) :=
    readsAs_list fun row hrow => readsAs_dict fun e he =>
      hrowValues e.2 (List.mem_flatMap.2 ⟨row, hrow, List.mem_map_of_mem he⟩)
  have hschema := Schema.readsAs hdefaults
  have hautoInc := readsAs_word t.counters.autoInc
  have hlastTimestamp := readsAs_int t.counters.lastTimestamp
  have hrecord : t.toJson.record? ["rows", "schema", "auto_inc", "last_timestamp"] =
      some [some (.ofList Row.toJson t.rows), some t.schema.toJson,
        some (.ofInt t.counters.autoInc.toNat), some (.ofInt t.counters.lastTimestamp.toInt)] :=
    record?_record [("rows", .ofList Row.toJson t.rows), ("schema", t.schema.toJson),
      ("auto_inc", .ofInt t.counters.autoInc.toNat),
      ("last_timestamp", .ofInt t.counters.lastTimestamp.toInt)] (by simp)
  refine ⟨legible_record fun m hm => ?_, ?_⟩
  · simp only [List.mem_cons, List.not_mem_nil, or_false] at hm
    rcases hm with rfl | rfl | rfl | rfl
    · exact hrows.legible
    · exact hschema.legible
    · exact hautoInc.legible
    · exact hlastTimestamp.legible
  · simp only [ofJson?, hrecord, hrows.back, hschema.back, hautoInc.back, hlastTimestamp.back,
      Option.bind_eq_bind, Option.bind_some]
    rfl

namespace Store

theorem tables_readsAs {tables : Dict Table}
    (h : ∀ e ∈ tables.entries, ∀ v ∈ e.2.values, ReadsAs Value.toJson Value.ofJson? v (r v)) :
    ReadsAs tablesToJson tablesOfJson? tables (tables.mapValues (Table.mapValues r)) := by
  have htables := readsAs_dict fun e he => Table.readsAs (h e he)
  have hrecord : (tablesToJson tables).record? ["tables"] = some [some (.ofDict Table.toJson tables)] :=
    record?_record [("tables", .ofDict Table.toJson tables)] (by simp)
  refine ⟨legible_record fun m hm => ?_, ?_⟩
  · rw [List.mem_singleton.1 hm]
    exact htables.legible
  · simp only [tablesOfJson?, hrecord, Option.bind_eq_bind, Option.bind_some]
    exact htables.back

theorem readsAs {s : Store} (h : ∀ v ∈ s.values, ReadsAs Value.toJson Value.ofJson? v (r v)) :
    ReadsAs toJson ofJson? s (s.mapValues r) := by
  have htables : ∀ e ∈ s.localTables.entries ++ s.sessionTables.entries, ∀ v ∈ e.2.values,
      ReadsAs Value.toJson Value.ofJson? v (r v) := fun e he v hv => h v (List.mem_flatMap.2 ⟨e, he, hv⟩)
  obtain ⟨hlocal, hsession⟩ := List.forall_mem_append.1 htables
  have hlocal := tables_readsAs hlocal
  have hsession := tables_readsAs hsession
  have hrecord : s.toJson.record? ["local", "session"] =
      some [some (tablesToJson s.localTables), some (tablesToJson s.sessionTables)] :=
    record?_record [("local", tablesToJson s.localTables),
      ("session", tablesToJson s.sessionTables)] (by simp)
  refine ⟨legible_record fun m hm => ?_, ?_⟩
  · rcases List.mem_pair.1 hm with rfl | rfl
    · exact hlocal.legible
    · exact hsession.legible
  · simp only [ofJson?, hrecord, hlocal.back, hsession.back, Option.bind_eq_bind, Option.bind_some]
    rfl

/-- The text of a store gives the store with every value as it is read from its own document. -/
theorem ofText?_render {s : Store} (h : ∀ v ∈ s.values, ReadsAs Value.toJson Value.ofJson? v (r v)) :
    ofText? s.render = some (s.mapValues r) := by
  obtain ⟨hlegible, hback⟩ := readsAs h
  rw [ofText?, render, parse?_render hlegible, Option.bind_some, hback]

end Store

/-! ### Stores without floats -/

theorem Behavior.mapValue_id (b : Behavior) : b.mapValue id = b := by
  cases b <;> rfl

theorem FieldDef.mapValues_id (f : FieldDef) : f.mapValues id = f := by
  rw [mapValues, List.map_congr_left fun b _ => b.mapValue_id, List.map_id']

theorem Table.mapValues_id (t : Table) : t.mapValues id = t := by
  have hrows : t.rows.map (Dict.mapValues id) = t.rows := by
    rw [List.map_congr_left fun row _ => Dict.mapValues_eq_self fun _ _ => rfl, List.map_id']
  have hfields : t.schema.fields.map (FieldDef.mapValues id) = t.schema.fields := by
    rw [List.map_congr_left fun f _ => f.mapValues_id, List.map_id']
  rw [mapValues, Schema.mapValues, hrows, hfields]

namespace Store

theorem mapValues_id (s : Store) : s.mapValues id = s := by
  have htables : ∀ tables : Dict Table, tables.mapValues (Table.mapValues id) = tables := fun _ =>
    Dict.mapValues_eq_self fun e _ => e.2.mapValues_id
  rw [mapValues, htables, htables]

/-- **A snapshot of a store without floats loses nothing.** The text that a commit keeps is read as the
store itself: the tables of both datastores under their names, the rows in their order with the same
fields, every text and every integer as it is, the fields and behaviors of the schemas in their order,
and the counters over the range of their words. -/
theorem ofText?_commit (s : Store) (snapshot : Snapshot) (h : s.FloatFree) :
    (Persistence.commit s snapshot : Snapshot).latest.bind ofText? = some s := by
  have hvalues : ∀ v ∈ s.values, ReadsAs Value.toJson Value.ofJson? v (id v) := fun v hv =>
    Value.readsAs_self (h v hv)
  have hback := ofText?_render hvalues
  rwa [mapValues_id] at hback

/-- Names and texts with quotes, backslashes, controls and characters of every width, integers and
counters at the ends of their words, and a default of every kind. -/
def awkward : Store where
  localTables := .ofList [
    ("it's \"it\"\n", ⟨[.ofList [("\\\t", .text "\x00\x1f\x7f\\u0041 é 語 😀"), ("n", .int (-9223372036854775808))],
      .ofList [("n", .int 9223372036854775807), ("b", .bool false)], ∅],
      ⟨[⟨"n", [.autoIncrement, .timestamp, .default .null]⟩,
        ⟨"b", [.default (.bool true), .default (.int (-1)), .default (.text "\"")]⟩, ⟨"\\\t", []⟩]⟩,
      ⟨18446744073709551615, -9223372036854775808⟩⟩),
    ("", ⟨[], .empty, ⟨0, 9223372036854775807⟩⟩)]
  sessionTables := .ofList [("null", ⟨[.ofList [("", .null)]], .empty, .start⟩)]

theorem ofText?_commit_awkward : awkward.FloatFree ∧
    (Persistence.commit awkward ⟨some "old", 7⟩ : Snapshot).latest.bind ofText? = some awkward :=
  have h : awkward.FloatFree := by decide +kernel
  ⟨h, ofText?_commit awkward ⟨some "old", 7⟩ h⟩

end Store
end TableQuery
