import Mathlib
import TableQuery.Schema

/-! How a row is completed: the behaviors of all fields act on it one after the other, and then the
undeclared fields go. What is left has exactly the declared fields, whose names differ. -/

namespace TableQuery

def Draft.act (d : Draft) (a : String × Behavior) : Draft := Behavior.act a.1 d a.2

/-- The behaviors of a field, which is null by default if it has none. -/
def FieldDef.acting (f : FieldDef) : List Behavior :=
  match f.behaviors with
  | [] => [.default .null]
  | behaviors => behaviors

def FieldDef.acts (f : FieldDef) : List (String × Behavior) := f.acting.map (Prod.mk f.name)

/-- What is done to a row on its way into a table: every behavior with its field. -/
def Schema.acts (s : Schema) : List (String × Behavior) := s.fields.flatMap FieldDef.acts

theorem FieldDef.acting_of_ne_nil {f : FieldDef} (h : f.behaviors ≠ []) : f.acting = f.behaviors := by
  unfold acting
  split
  · contradiction
  · rfl

theorem FieldDef.acting_ne_nil (f : FieldDef) : f.acting ≠ [] := by
  by_cases h : f.behaviors = []
  · rw [acting, h]
    exact List.cons_ne_nil _ _
  · rwa [acting_of_ne_nil h]

theorem FieldDef.act_eq (d : Draft) (f : FieldDef) :
    FieldDef.act d f = f.acts.foldl Draft.act d := by
  rw [acts, List.foldl_map]
  by_cases h : f.behaviors = []
  · rw [act, acting, h]
    rfl
  · rw [acting_of_ne_nil h, act]
    split
    · contradiction
    · rfl

namespace Schema

/-- A row is completed by the behaviors one after the other. -/
theorem complete_eq {s : Schema} (h : s.isEmpty = false) (d : Draft) :
    s.complete d =
      { s.acts.foldl Draft.act d with row := (s.acts.foldl Draft.act d).row.filterKeys s.contains } := by
  have hfold : ∀ (fields : List FieldDef) (d : Draft), fields.foldl FieldDef.act d =
      (fields.flatMap FieldDef.acts).foldl Draft.act d := by
    intro fields
    induction fields with
    | nil => exact fun d => rfl
    | cons f fields ih =>
        intro d
        rw [List.foldl_cons, List.flatMap_cons, List.foldl_append, ih, FieldDef.act_eq]
  have hprune : ∀ row : Row, s.prune row = row.filterKeys s.contains := by
    intro row
    rw [prune, h]
    rfl
  rw [complete, h, acts, ← hfold, ← hprune]
  rfl

end Schema

theorem Draft.contains_act (d : Draft) (a : String × Behavior) (k : String) :
    (d.act a).row.contains k = (k == a.1 || d.row.contains k) := by
  obtain ⟨field, b⟩ := a
  cases b with
  | autoIncrement => exact Dict.contains_insert _ _ _ _
  | timestamp => exact Dict.contains_insert _ _ _ _
  | default v => exact Dict.contains_insertNew _ _ _ _

theorem Draft.contains_foldl_act (d : Draft) (acts : List (String × Behavior)) (k : String) :
    (acts.foldl act d).row.contains k = ((acts.any fun a => k == a.1) || d.row.contains k) := by
  induction acts generalizing d with
  | nil => rfl
  | cons a acts ih =>
      rw [List.foldl_cons, ih, contains_act, List.any_cons, Bool.or_left_comm, Bool.or_assoc]

theorem Schema.any_acts (s : Schema) (k : String) : (s.acts.any fun a => k == a.1) = s.contains k := by
  rw [acts, contains, List.any_flatMap]
  congr 1
  funext f
  obtain ⟨b, bs, hacting⟩ := List.exists_cons_of_ne_nil f.acting_ne_nil
  rw [FieldDef.acts, List.any_map, Bool.eq_iff_iff, List.any_eq_true, beq_iff_eq]
  constructor
  · rintro ⟨b', -, hb⟩
    exact (beq_iff_eq.1 hb).symm
  · intro heq
    exact ⟨b, hacting ▸ List.mem_cons_self, beq_iff_eq.2 heq.symm⟩

/-- **A completed row has exactly the declared fields.** -/
theorem Schema.contains_complete {s : Schema} (h : s.isEmpty = false) (d : Draft) (k : String) :
    (s.complete d).row.contains k = s.contains k := by
  rw [complete_eq h, Dict.contains_filterKeys, Draft.contains_foldl_act, any_acts]
  cases s.contains k <;> rfl

theorem Schema.repeated?_eq_none {seen names : List String} (h : repeated? seen names = none) :
    names.Nodup ∧ ∀ name ∈ names, name ∉ seen := by
  induction names generalizing seen with
  | nil => exact ⟨List.nodup_nil, fun _ hname => absurd hname List.not_mem_nil⟩
  | cons name names ih =>
      rw [repeated?] at h
      split at h
      · cases h
      next hname =>
        obtain ⟨hnodup, hseen⟩ := ih h
        refine ⟨List.nodup_cons.2 ⟨fun hmem => hseen name hmem List.mem_cons_self, hnodup⟩, ?_⟩
        intro other hother
        rcases List.mem_cons.1 hother with rfl | hmem
        · exact hname
        · exact fun hin => hseen other hmem (List.mem_cons_of_mem _ hin)

theorem Schema.nodup_of_ofFields {fields : List FieldDef} {s : Schema} (h : ofFields fields = .ok s) :
    (s.fields.map FieldDef.name).Nodup := by
  rw [ofFields] at h
  split at h
  · cases h
  next hnone =>
    cases h
    exact (repeated?_eq_none hnone).1

end TableQuery
