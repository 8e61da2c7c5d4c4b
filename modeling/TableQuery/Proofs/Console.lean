import TableQuery.Console
import TableQuery.Proofs.Database.Session

/-! The console on a database that its commands change in place. A line that prints an error can be left
out of the input, and what the other lines print stays the same. -/

namespace TableQuery

variable {σ : Type} [Persistence σ]

namespace Console

/-- What is printed for the result of a command. -/
def Answer.ofResult : Except QueryError (List Row) → Answer
  | .ok rows => .result (Json.ofList Row.toJson rows).render
  | .error err => .failure ("error: " ++ err.message)

/-- Runs one line in place. -/
def answer (db : Database σ) (line : Clock × String) : Option Answer × Database σ :=
  match command? line.2 with
  | none => (none, db)
  | some text =>
    let (result, db) := db.perform (Action.query line.1 text none)
    (some (.ofResult result), db)

theorem step_eq (db : Database σ) (clock : Clock) (line : String) :
    step db clock line = answer db (clock, line) := by
  rw [step, answer]
  cases command? line with
  | none => rfl
  | some text =>
      simp only [Action.perform_query]
      cases db.query clock text none <;> rfl

theorem run_eq (db : Database σ) (input : List (Clock × String)) :
    run db input = (trace answer db input).1.reduceOption := by
  induction input generalizing db with
  | nil => rfl
  | cons line rest ih =>
      obtain ⟨clock, line⟩ := line
      have hcons : run db ((clock, line) :: rest) =
          (answer db (clock, line)).1.toList ++ run (answer db (clock, line)).2 rest := by
        rw [run, step_eq]
      rw [hcons, trace_cons, ih]
      cases (answer db (clock, line)).1 <;> rfl

/-- The line does not print an error. -/
def isQuiet : Option Answer → Bool
  | some (.failure _) => false
  | _ => true

theorem answer_of_not_isQuiet {db : Database σ} {line : Clock × String}
    (h : isQuiet (answer db line).1 = false) : (answer db line).2 = db := by
  rw [answer] at h ⊢
  cases hcommand : command? line.2 with
  | none => rfl
  | some text =>
      simp only [hcommand, Action.perform_query] at h ⊢
      cases hquery : db.query line.1 text none with
      | error err => rfl
      | ok r =>
          rw [hquery] at h
          cases h

/-- The lines on standard output. -/
def stdout (answers : List Answer) : List String :=
  answers.filterMap fun
    | .result text => some text
    | .failure _ => none

theorem stdout_filter_isQuiet (answers : List (Option Answer)) :
    stdout (answers.filter isQuiet).reduceOption = stdout answers.reduceOption := by
  induction answers with
  | nil => rfl
  | cons a answers ih =>
      match a with
      | none => exact ih
      | some (.result text) => exact congrArg (text :: ·) ih
      | some (.failure text) => exact ih

theorem stdout_run_inputsFor (db : Database σ) (input : List (Clock × String)) :
    stdout (run db (inputsFor isQuiet answer db input)) = stdout (run db input) := by
  have hquiet : trace answer db (inputsFor isQuiet answer db input) =
      ((trace answer db input).1.filter isQuiet, (trace answer db input).2) :=
    trace_inputsFor (fun _ _ => answer_of_not_isQuiet) db input
  calc stdout (run db (inputsFor isQuiet answer db input))
    _ = stdout (trace answer db (inputsFor isQuiet answer db input)).1.reduceOption := by rw [run_eq]
    _ = stdout ((trace answer db input).1.filter isQuiet).reduceOption := by rw [hquiet]
    _ = stdout (trace answer db input).1.reduceOption := stdout_filter_isQuiet _
    _ = stdout (run db input) := by rw [run_eq]

/-! ### Lines of a text -/

/-- The lines of a text, each with its own readings of the clock. -/
def timedLines (clocks : Nat → Clock) (text : String) : List (Clock × String) :=
  (lines text).zipIdx.map fun line => (clocks line.2, line.1)

theorem mem_lines_of_mem_timedLines {clocks : Nat → Clock} {text : String} {line : Clock × String}
    (h : line ∈ timedLines clocks text) : line.2 ∈ lines text := by
  obtain ⟨⟨l, n⟩, hl, rfl⟩ := List.mem_map.1 h
  exact List.fst_mem_of_mem_zipIdx hl

theorem map_snd_timedLines (clocks : Nat → Clock) (text : String) :
    (timedLines clocks text).map Prod.snd = lines text := by
  rw [timedLines, List.map_map]
  exact List.zipIdx_map_fst 0 (lines text)

theorem timedLines_const (clock : Clock) (text : String) :
    timedLines (fun _ => clock) text = (lines text).map (clock, ·) := by
  have hfst : (lines text).zipIdx.map Prod.fst = lines text := List.zipIdx_map_fst 0 _
  rw [timedLines, ← hfst, List.map_map, hfst]
  rfl

/-- The lines are the pieces between the line feeds. -/
theorem splitLines_eq_splitOn (cs : List Char) : splitLines cs = cs.splitOn '\n' := by
  induction cs with
  | nil => rfl
  | cons c cs ih =>
      rw [List.splitOn, List.splitOnP_cons_eq_if_modifyHead, ← List.splitOn, splitLines, ih]
      by_cases hc : c = '\n'
      · simp [hc]
      · cases hsplit : cs.splitOn '\n' with
        | nil => exact absurd hsplit (List.splitOn_ne_nil _ _)
        | cons line rest => simp [hc]

theorem splitLines_append {l : List Char} (h : '\n' ∉ l) (cs : List Char) :
    splitLines (l ++ '\n' :: cs) = l :: splitLines cs := by
  induction l with
  | nil => rfl
  | cons c l ih =>
      rw [List.cons_append, splitLines, if_neg (List.ne_of_not_mem_cons h).symm,
        ih (List.not_mem_of_not_mem_cons h)]

theorem not_mem_of_mem_splitLines {cs l : List Char} (h : l ∈ splitLines cs) : '\n' ∉ l := by
  induction cs generalizing l with
  | nil =>
      rw [List.mem_singleton.1 h]
      exact List.not_mem_nil
  | cons c cs ih =>
      rw [splitLines] at h
      by_cases hc : c = '\n'
      · rw [if_pos hc] at h
        rcases List.mem_cons.1 h with rfl | h
        · exact List.not_mem_nil
        · exact ih h
      · rw [if_neg hc] at h
        have hcons : ∀ {l : List Char}, '\n' ∉ l → '\n' ∉ c :: l := fun hl =>
          List.not_mem_cons_of_ne_of_not_mem (Ne.symm hc) hl
        cases hsplit : splitLines cs with
        | nil =>
            simp only [hsplit] at h
            rw [List.mem_singleton.1 h]
            exact hcons List.not_mem_nil
        | cons line rest =>
            simp only [hsplit] at h ih
            rcases List.mem_cons.1 h with rfl | h
            · exact hcons (ih List.mem_cons_self)
            · exact ih (List.mem_cons_of_mem _ h)

theorem map_toList_lines (text : String) : (lines text).map String.toList = splitLines text.toList := by
  rw [lines, List.map_map]
  exact (List.map_congr_left fun _ _ => String.toList_ofList).trans (List.map_id _)

/-- The lines of a text, put together again, are the text. -/
theorem intercalate_lines (text : String) : "\n".intercalate (lines text) = text := by
  have htext : ("\n".intercalate (lines text)).toList = ['\n'].intercalate ((lines text).map String.toList) :=
    String.toList_intercalate
  rw [map_toList_lines, splitLines_eq_splitOn, List.intercalate_splitOn] at htext
  exact String.toList_inj.1 htext

theorem not_mem_of_mem_lines {text line : String} (h : line ∈ lines text) : '\n' ∉ line.toList := by
  obtain ⟨cs, hcs, rfl⟩ := List.mem_map.1 h
  rw [String.toList_ofList]
  exact not_mem_of_mem_splitLines hcs

/-- Lines that are put together are the lines of the text that they make. -/
theorem lines_intercalate {ls : List String} (h : ∀ line ∈ ls, '\n' ∉ line.toList) (hne : ls ≠ []) :
    lines ("\n".intercalate ls) = ls := by
  have hls : ∀ l ∈ ls.map String.toList, '\n' ∉ l := List.forall_mem_map.2 h
  have hmap : ls.map String.toList ≠ [] := mt List.map_eq_nil_iff.1 hne
  have htext : ("\n".intercalate ls).toList = ['\n'].intercalate (ls.map String.toList) :=
    String.toList_intercalate
  have hback : String.ofList ∘ String.toList = id := by
    funext l
    exact String.ofList_toList
  rw [lines, htext, splitLines_eq_splitOn, List.splitOn_intercalate _ hls hmap, List.map_map, hback, List.map_id]

theorem zip_lines_intercalate {text : String} {input : List (Clock × String)}
    (h : ∀ line ∈ input, line.2 ∈ lines text) :
    (input.map Prod.fst).zip (lines ("\n".intercalate (input.map Prod.snd))) = input := by
  by_cases hne : input = []
  · rw [hne]
    rfl
  · have hlines : ∀ l ∈ input.map Prod.snd, '\n' ∉ l.toList :=
      List.forall_mem_map.2 fun line hline => not_mem_of_mem_lines (h line hline)
    rw [lines_intercalate hlines (mt List.map_eq_nil_iff.1 hne)]
    exact (List.zip_of_prod rfl rfl).symm

end Console

/-- **Calls that fail can be left out of a session.** A call, and a line of the console, that works on the
database in place leaves it as it was if it fails. So a session without the calls that fail has the other
replies and ends with the same database, and what the console writes to standard output for a text is the
same without the lines that print an error. -/
theorem failures_left_out (db : Database σ) (calls : List (Clock × Call)) (clocks : Nat → Clock)
    (text : String) :
    let kept := inputsFor Except.isOk Database.call db calls
    let input := Console.timedLines clocks text
    let quiet := inputsFor Console.isQuiet Console.answer db input
    let quietText := "\n".intercalate (quiet.map Prod.snd)
    (∀ c : Clock × Call, db.call c = db.settle (c.2.run db c.1)) ∧
    (∀ line : Clock × String, Console.answer db line = Console.step db line.1 line.2) ∧
    db.session kept = ((db.session calls).1.filter Except.isOk, (db.session calls).2) ∧
    Console.stdout (Console.run db ((quiet.map Prod.fst).zip (Console.lines quietText))) =
      Console.stdout (Console.run db input) := by
  intro kept input quiet quietText
  refine ⟨fun c => Call.perform_inPlace db c.1 c.2, fun line => (Console.step_eq db line.1 line.2).symm,
    db.session_inputsFor calls, ?_⟩
  have hquiet : ∀ line ∈ quiet, line.2 ∈ Console.lines text := fun line hline =>
    Console.mem_lines_of_mem_timedLines (mem_of_mem_inputsFor hline)
  rw [Console.zip_lines_intercalate hquiet]
  exact Console.stdout_run_inputsFor db input

end TableQuery
