import TableQuery.Proofs.Database.InPlace

/-! Sessions: calls made one after the other on a database that each of them changes in place. The calls
that fail can be left out. -/

namespace TableQuery

/-! ### Inputs that can be left out -/

section Trace

variable {S I O : Type}

/-- Steps through inputs: the outputs, and the state after the last one. -/
def trace (step : S → I → O × S) (s : S) : List I → List O × S
  | [] => ([], s)
  | i :: rest =>
    let (o, s) := step s i
    let (os, s) := trace step s rest
    (o :: os, s)

/-- The inputs whose outputs are of a kind. -/
def inputsFor (p : O → Bool) (step : S → I → O × S) (s : S) (inputs : List I) : List I :=
  ((inputs.zip (trace step s inputs).1).filter fun i => p i.2).map Prod.fst

variable {p : O → Bool} {step : S → I → O × S}

theorem trace_cons (step : S → I → O × S) (s : S) (i : I) (rest : List I) :
    trace step s (i :: rest) =
      ((step s i).1 :: (trace step (step s i).2 rest).1, (trace step (step s i).2 rest).2) := rfl

theorem inputsFor_cons (p : O → Bool) (step : S → I → O × S) (s : S) (i : I) (rest : List I) :
    inputsFor p step s (i :: rest) =
      if p (step s i).1 then i :: inputsFor p step (step s i).2 rest
      else inputsFor p step (step s i).2 rest := by
  rw [inputsFor, trace_cons, List.zip_cons_cons, List.filter_cons]
  cases p (step s i).1 <;> rfl

theorem mem_of_mem_inputsFor {s : S} {inputs : List I} {i : I} (h : i ∈ inputsFor p step s inputs) :
    i ∈ inputs := by
  obtain ⟨⟨i, o⟩, ho, rfl⟩ := List.mem_map.1 h
  exact (List.of_mem_zip (List.mem_filter.1 ho).1).1

/-- An input whose step changes nothing can be left out. -/
theorem trace_inputsFor (h : ∀ s i, p (step s i).1 = false → (step s i).2 = s) (s : S) (inputs : List I) :
    trace step s (inputsFor p step s inputs) =
      ((trace step s inputs).1.filter p, (trace step s inputs).2) := by
  induction inputs generalizing s with
  | nil => rfl
  | cons i rest ih =>
      rw [inputsFor_cons, trace_cons step s i rest, List.filter_cons]
      cases hp : p (step s i).1 with
      | true => rw [if_pos rfl, if_pos rfl, trace_cons, ih]
      | false =>
          rw [if_neg Bool.false_ne_true, if_neg Bool.false_ne_true, h s i hp]
          exact ih s

end Trace

/-! ### Calls -/

/-- A call of the database: an operation, or a question that changes nothing. -/
inductive Call
  | operation (op : Operation)
  | find (path : String)

inductive Reply
  | rows (rows : List Row)
  | found (is : Bool)

variable {σ : Type} [Persistence σ]

def Operation.inPlace (clock : Clock) : Operation → Action σ (List Row)
  | .query text subs => Action.query clock text subs
  | .insert path rows => Action.insert clock path rows
  | .define path fields => (fun _ => []) <$> Action.define path fields
  | .drop path => (fun _ => []) <$> Action.drop path

def Call.inPlace (clock : Clock) : Call → Action σ Reply
  | .operation op => .rows <$> op.inPlace clock
  | .find path => do
    let place ← Action.read fun db => db.resolve path
    let t ← Action.read fun db => .ok (db.store.table? place.1 place.2)
    pure (.found t.isSome)

def Call.run (db : Database σ) (clock : Clock) : Call → Except QueryError (Reply × Database σ)
  | .operation op => (op.run db clock).map (Prod.map .rows id)
  | .find path => (db.table? path).map fun t => (.found t.isSome, db)

theorem Operation.perform_inPlace (db : Database σ) (clock : Clock) (op : Operation) :
    db.perform (op.inPlace clock) = db.settle (op.run db clock) := by
  cases op with
  | query text subs => exact Action.perform_query db clock text subs
  | insert path rows => exact Action.perform_insert db clock path rows
  | define path fields =>
      rw [inPlace, Action.perform_map, Action.perform_define, run]
      cases db.define path fields <;> rfl
  | drop path =>
      rw [inPlace, Action.perform_map, Action.perform_drop, run]
      cases db.drop path <;> rfl

/-- **A call made in place has the result of the call, and leaves the database as it was if it fails.** -/
theorem Call.perform_inPlace (db : Database σ) (clock : Clock) (c : Call) :
    db.perform (c.inPlace clock) = db.settle (c.run db clock) := by
  cases c with
  | operation op =>
      rw [inPlace, Action.perform_map, op.perform_inPlace, run]
      cases op.run db clock <;> rfl
  | find path =>
      rw [inPlace, Action.perform_read_bind, run, Database.table?]
      cases db.resolve path <;> rfl

namespace Database

/-- Makes one call, with its readings of the clock. -/
def call (db : Database σ) (c : Clock × Call) : Except QueryError Reply × Database σ :=
  db.perform (c.2.inPlace c.1)

/-- Makes calls one after the other. -/
def session (db : Database σ) (calls : List (Clock × Call)) :
    List (Except QueryError Reply) × Database σ :=
  trace call db calls

/-- A call that fails leaves the database as it was. -/
theorem call_of_not_isOk {db : Database σ} {c : Clock × Call} (h : (db.call c).1.isOk = false) :
    (db.call c).2 = db := by
  rw [call, Call.perform_inPlace] at h ⊢
  cases hrun : c.2.run db c.1 with
  | error err => rfl
  | ok r =>
      rw [hrun] at h
      cases h

/-- A session of operations ends as their run does. -/
theorem session_operations (db : Database σ) (ops : List (Clock × Operation)) :
    (db.session (ops.map (Prod.map id .operation))).2 = db.runAll ops := by
  induction ops generalizing db with
  | nil => rfl
  | cons o ops ih =>
      have hafter : (db.call (o.1, .operation o.2)).2 = db.after o := by
        rw [call, Call.perform_inPlace, Call.run, after]
        cases o.2.run db o.1 <;> rfl
      rw [runAll_cons, ← hafter]
      exact ih _

/-- Calls that fail can be left out of a session. -/
theorem session_inputsFor (db : Database σ) (calls : List (Clock × Call)) :
    db.session (inputsFor Except.isOk call db calls) =
      ((db.session calls).1.filter Except.isOk, (db.session calls).2) :=
  trace_inputsFor (fun _ _ => call_of_not_isOk) db calls

end Database
end TableQuery
