import TableQuery.Proofs.Clause.Resolution
import TableQuery.Proofs.Database.Commit
import TableQuery.Proofs.Json.Float
import TableQuery.Proofs.Store.Document

/-! Restoring a store from the snapshot of its last commit. Every value comes back as one of its own
kind, except for infinities and what is not a number: a document has no form for them, they are written
as null, and as null they come back. -/

namespace TableQuery

open Json

/-! ### Kinds -/

inductive Value.Kind
  | null | bool | int | float | text
  deriving DecidableEq

namespace Value

def kind : Value → Kind
  | .null => .null
  | .bool _ => .bool
  | .int _ => .int
  | .float _ => .float
  | .text _ => .text

/-- Whether a document has a form for the value. -/
def hasForm : Value → Bool
  | .float x => x.isFinite
  | _ => true

/-- What the document of a value is read as. -/
def reread (v : Value) : Value := (ofJson? v.toJson).getD .null

theorem reread_eq {v w : Value} (h : ReadsAs toJson ofJson? v w) : v.reread = w := by
  rw [reread, h.back, Option.getD_some]

theorem readsAs_null {v : Value} (h : v.hasForm = false) : ReadsAs toJson ofJson? v .null := by
  cases v with
  | float x =>
      have hjson : toJson (.float x) = .null := if_neg (Bool.eq_false_iff.1 h)
      refine ⟨?_, ?_⟩ <;> rw [hjson]
      · exact .null
      · rfl
  | _ => cases h

/-- A value that has a form is read as one of its kind. -/
theorem exists_readsAs {v : Value} (h : v.hasForm) : ∃ w, ReadsAs toJson ofJson? v w ∧ w.kind = v.kind := by
  cases v with
  | float x =>
      obtain ⟨y, hy⟩ := readsAs_float h
      exact ⟨.float y, hy, rfl⟩
  | _ => exact ⟨_, readsAs_self rfl, rfl⟩

theorem readsAs_reread (v : Value) : ReadsAs toJson ofJson? v v.reread := by
  cases h : v.hasForm with
  | false =>
      have hnull := readsAs_null h
      exact reread_eq hnull ▸ hnull
  | true =>
      obtain ⟨w, hw, -⟩ := exists_readsAs h
      exact reread_eq hw ▸ hw

theorem kind_eq_null_iff {v : Value} : v.kind = .null ↔ v = .null := by
  cases v <;> simp [kind]

theorem kind_reread_iff (v : Value) : v.reread.kind = v.kind ↔ v.hasForm := by
  cases h : v.hasForm with
  | false =>
      have hne : v.kind ≠ .null := fun hnull => by
        rw [kind_eq_null_iff.1 hnull] at h
        cases h
      rw [reread_eq (readsAs_null h)]
      exact iff_of_false hne.symm Bool.false_ne_true
  | true =>
      obtain ⟨w, hw, hkind⟩ := exists_readsAs h
      rw [reread_eq hw]
      exact iff_of_true hkind rfl

theorem reread_eq_null_iff (v : Value) : v.reread = .null ↔ v = .null ∨ v.hasForm = false := by
  cases h : v.hasForm with
  | false => exact iff_of_true (reread_eq (readsAs_null h)) (Or.inr rfl)
  | true =>
      rw [← kind_eq_null_iff, (kind_reread_iff v).2 h, kind_eq_null_iff]
      exact (or_iff_left Bool.noConfusion).symm

theorem isNull_reread_iff (v : Value) : v.reread.isNull = v.isNull ↔ v.hasForm := by
  have hnull : ∀ w : Value, w.isNull = true ↔ w = .null := fun w => by cases w <;> simp [isNull]
  have hform : v = .null → v.hasForm = true := by
    rintro rfl
    rfl
  rw [Bool.eq_iff_iff, hnull, hnull, reread_eq_null_iff]
  cases h : v.hasForm with
  | false =>
      have hne : v ≠ .null := fun hv => by
        rw [hform hv] at h
        cases h
      simp [hne]
  | true => simp

end Value

/-! ### Stores -/

theorem Dict.get?_mapValues {α β : Type} (f : α → β) (d : Dict α) (k : String) :
    (d.mapValues f).get? k = (d.get? k).map f := by
  obtain ⟨entries, ordered⟩ := d
  simp only [mapValues, get?]
  induction entries with
  | nil => rfl
  | cons e entries ih =>
      rw [List.map_cons, List.lookup_cons, List.lookup_cons]
      cases k == e.1 with
      | true => rfl
      | false => exact ih (List.pairwise_cons.1 ordered).2

namespace Store

/-- The value of a field of the row at a position. -/
def cell? (s : Store) (ds : Datastore) (name : String) (i : Nat) (field : String) : Option Value :=
  (s.table? ds name).bind fun t => t.rows[i]?.bind fun row => row.get? field

theorem table?_mapValues (r : Value → Value) (s : Store) (ds : Datastore) (name : String) :
    (s.mapValues r).table? ds name = (s.table? ds name).map (Table.mapValues r) := by
  cases ds <;> exact Dict.get?_mapValues _ _ _

theorem cell?_mapValues (r : Value → Value) (s : Store) (ds : Datastore) (name : String) (i : Nat)
    (field : String) : (s.mapValues r).cell? ds name i field = (s.cell? ds name i field).map r := by
  rw [cell?, cell?, table?_mapValues]
  cases s.table? ds name with
  | none => rfl
  | some t =>
      simp only [Option.map_some, Option.bind_some, Table.mapValues, List.getElem?_map]
      cases t.rows[i]? with
      | none => rfl
      | some row => exact Dict.get?_mapValues r row field

end Store

/-! ### Rows whose field is null -/

namespace Table

/-- The positions of the rows for which `field = null` holds. -/
def nullRows (t : Table) (field : String) (mode : ChainMode) : List Nat :=
  (matching t.rows (some ⟨[.term ⟨field, .eq, .null⟩]⟩) mode).map Prod.snd

theorem holds_eq_null (field : String) (row : Row) (mode : ChainMode) :
    Clause.holds ⟨[.term ⟨field, .eq, .null⟩]⟩ row mode = ((row.get? field).getD .null).isNull := by
  have hterm : Term.matches ⟨field, .eq, .null⟩ row = ((row.get? field).getD .null).isNull := by
    rw [Term.matches]
    cases row.get? field with
    | none => rfl
    | some v => cases v <;> rfl
  have hslots : Clause.innermost? [.term ⟨field, .eq, .null⟩] = none :=
    Clause.innermost?_eq_none (by simp)
  rw [Clause.holds]
  refine (Clause.resolve_of_none mode row hslots).trans ?_
  rw [← hterm]
  cases mode with
  | sequential => exact Clause.evalSequential_last row _
  | precedence => exact Bool.true_and _

/-- The positions show which elements were chosen. -/
theorem positions_eq_iff {α : Type} {l : List α} {p q : α → Bool} :
    (l.zipIdx.filter fun r => p r.1).map Prod.snd = (l.zipIdx.filter fun r => q r.1).map Prod.snd ↔
      ∀ x ∈ l, p x = q x := by
  constructor
  · intro h x hx
    obtain ⟨i, hi⟩ := List.mem_iff_getElem?.1 hx
    have hmem : ∀ p : α → Bool, i ∈ (l.zipIdx.filter fun r => p r.1).map Prod.snd ↔ p x = true := by
      intro p
      simp only [List.mem_map, List.mem_filter, Prod.exists, exists_eq_right,
        List.mk_mem_zipIdx_iff_getElem?, hi, Option.some.injEq]
      exact ⟨fun ⟨_, heq, hp⟩ => heq ▸ hp, fun hp => ⟨x, rfl, hp⟩⟩
    rw [Bool.eq_iff_iff, ← hmem, ← hmem, h]
  · intro h
    refine congrArg (List.map Prod.snd) (List.filter_congr fun r hr => ?_)
    exact h r.1 (List.fst_mem_of_mem_zipIdx hr)

theorem nullRows_mapValues (r : Value → Value) (t : Table) (field : String) (mode : ChainMode) :
    (t.mapValues r).nullRows field mode =
      (t.rows.zipIdx.filter fun x => ((x.1.mapValues r).get? field |>.getD .null).isNull).map Prod.snd := by
  rw [nullRows, matching, Table.mapValues, List.zipIdx_map, List.filter_map, List.map_map]
  refine congrArg (List.map Prod.snd) (List.filter_congr fun x _ => ?_)
  exact holds_eq_null field (x.1.mapValues r) mode

/-- The same rows are found exactly if every value of the field has a form. -/
theorem nullRows_reread_iff (t : Table) (field : String) (mode : ChainMode) :
    (t.mapValues Value.reread).nullRows field mode = t.nullRows field mode ↔
      ∀ row ∈ t.rows, ∀ v ∈ row.get? field, v.hasForm := by
  have hlive : t.nullRows field mode =
      (t.rows.zipIdx.filter fun x => ((x.1.get? field).getD .null).isNull).map Prod.snd :=
    congrArg (List.map Prod.snd) (List.filter_congr fun x _ => holds_eq_null field x.1 mode)
  rw [nullRows_mapValues, hlive]
  refine (positions_eq_iff (p := fun row : Row => ((row.mapValues Value.reread).get? field |>.getD .null).isNull)
    (q := fun row : Row => ((row.get? field).getD .null).isNull)).trans ?_
  refine forall₂_congr fun row _ => ?_
  rw [Dict.get?_mapValues]
  cases row.get? field with
  | none => simp
  | some v => simpa using v.isNull_reread_iff

end Table

namespace Store

/-- A store comes back with every value as it is reread. -/
theorem ofText?_render_reread (s : Store) : ofText? s.render = some (s.mapValues Value.reread) :=
  ofText?_render fun v _ => v.readsAs_reread

theorem kind_cell?_reread_iff (s : Store) (ds : Datastore) (name : String) (i : Nat) (field : String) :
    ((s.mapValues Value.reread).cell? ds name i field).map Value.kind =
        (s.cell? ds name i field).map Value.kind ↔
      ∀ v ∈ s.cell? ds name i field, v.hasForm := by
  rw [cell?_mapValues]
  cases s.cell? ds name i field with
  | none => simp
  | some v => simpa using v.kind_reread_iff

theorem cell?_reread_eq_null_iff (s : Store) (ds : Datastore) (name : String) (i : Nat) (field : String) :
    (s.mapValues Value.reread).cell? ds name i field = some .null ↔
      ∃ v ∈ s.cell? ds name i field, v = .null ∨ v.hasForm = false := by
  rw [cell?_mapValues]
  cases s.cell? ds name i field with
  | none => simp
  | some v => simpa using v.reread_eq_null_iff

end Store

/-! ### Runs -/

namespace Database

/-- After an operation that commits, the snapshot is the text of the store. -/
theorem latest_after (db : Database Snapshot) (o : Clock × Operation)
    (h : db.persistence.commits < (db.after o).persistence.commits) :
    (db.after o).persistence.latest = some (db.after o).store.render := by
  have heffect := effect_after db o
  generalize db.after o = db' at h heffect
  cases heffect with
  | none => exact absurd h (lt_irrefl _)
  | commit => rfl
  | silent => exact absurd h (lt_irrefl _)

/-- **A store that is restored from a snapshot has a value of the same kind in every place whose value
has a form, and null in the places whose value has none.** So exactly the infinities and what is not a
number change their kind, and the rows whose field is null are the same as before exactly if none of
these is among the values of the field. -/
theorem restored_kinds (config : Configuration) (before : List (Clock × Operation))
    (o : Clock × Operation) :
    let earlier := (start config : Database Snapshot).runAll before
    let db := (start config : Database Snapshot).runAll (before ++ [o])
    earlier.persistence.commits < db.persistence.commits →
    ∃ restored, db.persistence.latest.bind Store.ofText? = some restored ∧
      (∀ ds name i field, (restored.cell? ds name i field).map Value.kind =
          (db.store.cell? ds name i field).map Value.kind ↔
        ∀ v ∈ db.store.cell? ds name i field, v.hasForm) ∧
      (∀ ds name i field, restored.cell? ds name i field = some .null ↔
        ∃ v ∈ db.store.cell? ds name i field, v = .null ∨ v.hasForm = false) ∧
      ∀ ds name t, db.store.table? ds name = some t → ∃ t', restored.table? ds name = some t' ∧
        ∀ field mode, t'.nullRows field mode = t.nullRows field mode ↔
          ∀ row ∈ t.rows, ∀ v ∈ row.get? field, v.hasForm := by
  intro earlier db hcommits
  have hdb : db = earlier.after o := runAll_concat _ before o
  have hlatest : db.persistence.latest = some db.store.render := by
    rw [hdb] at hcommits ⊢
    exact latest_after earlier o hcommits
  refine ⟨db.store.mapValues Value.reread, ?_, db.store.kind_cell?_reread_iff,
    db.store.cell?_reread_eq_null_iff, fun ds name t ht => ?_⟩
  · rw [hlatest, Option.bind_some, Store.ofText?_render_reread]
  · refine ⟨t.mapValues Value.reread, ?_, t.nullRows_reread_iff⟩
    rw [Store.table?_mapValues, ht, Option.map_some]

/-- The largest finite number comes back as a float, and infinity as null. -/
theorem restored_kinds_extremes :
    let row : Row := .ofList [("a", .float .infinity), ("b", .float ⟨0x7FEFFFFFFFFFFFFF⟩)]
    let o : Clock × Operation := (⟨fun _ => 0⟩, .insert "t" [row])
    let db := (start .standard : Database Snapshot).runAll ([] ++ [o])
    0 < db.persistence.commits ∧ ∃ restored, db.persistence.latest.bind Store.ofText? = some restored ∧
      (restored.cell? .localStore "t" 0 "b").map Value.kind = some .float ∧
        restored.cell? .localStore "t" 0 "a" = some .null := by
  intro row o db
  have hcommits : 0 < db.persistence.commits := by decide
  obtain ⟨restored, hrestored, hkinds, hnull, -⟩ := restored_kinds .standard [] o hcommits
  have ha : db.store.cell? .localStore "t" 0 "a" = some (.float .infinity) := by decide
  have hb : db.store.cell? .localStore "t" 0 "b" = some (.float ⟨0x7FEFFFFFFFFFFFFF⟩) := by decide
  refine ⟨hcommits, restored, hrestored, ?_, ?_⟩
  · refine ((hkinds .localStore "t" 0 "b").2 fun v hv => ?_).trans (congrArg (Option.map Value.kind) hb)
    rw [hb] at hv
    cases hv
    decide
  · exact (hnull .localStore "t" 0 "a").2 ⟨_, ha, Or.inr (by decide)⟩

/-- An infinity is stored and committed, and comes back as null. -/
theorem infinity_restored_as_null :
    let o : Clock × Operation := (⟨fun _ => 0⟩, .insert "t" [.ofList [("a", .float .infinity)]])
    let db := (start .standard : Database Snapshot).runAll [o]
    db.persistence.commits = 1 ∧ db.store.cell? .localStore "t" 0 "a" = some (.float .infinity) ∧
      ∃ restored, db.persistence.latest.bind Store.ofText? = some restored ∧
        restored.cell? .localStore "t" 0 "a" = some .null := by
  intro o db
  have hcommits : db.persistence.commits = 1 := by decide
  have hcell : db.store.cell? .localStore "t" 0 "a" = some (.float .infinity) := by decide
  have hlatest : db.persistence.latest = some db.store.render :=
    latest_after (start .standard) o (hcommits ▸ Nat.zero_lt_one)
  refine ⟨hcommits, hcell, db.store.mapValues Value.reread, ?_, ?_⟩
  · rw [hlatest, Option.bind_some, Store.ofText?_render_reread]
  · rw [Store.cell?_mapValues, hcell]
    exact congrArg some (Value.reread_eq (Value.readsAs_null (by decide)))

end Database
end TableQuery
