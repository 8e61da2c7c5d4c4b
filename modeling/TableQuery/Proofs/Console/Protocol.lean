import TableQuery.Proofs.Console
import TableQuery.Proofs.Database.Integers
import TableQuery.Proofs.Database.Sorter
import TableQuery.Proofs.Statement.Shown

/-! The console keeps to lines, as long as its commands sort only rows in a consistent order. Each line with a
command is answered by one line, on standard output or on standard error, and lines without a command are not
answered and change nothing. Where a command sorts other rows the sort may give up, and the program ends there. -/

namespace TableQuery

variable {σ : Type} [Persistence σ]

/-- A command on one line that fails is told why on one line. -/
theorem Database.oneLine_query (db : Database σ) (clock : Clock) {text : String} (h : OneLine text)
    {err : QueryError} (herr : db.query clock text none = .error err) : OneLine err.message := by
  have hdatastore : ∀ path, Statement.PathIs OneLine path →
      Yields (·.Shows OneLine) (fun _ => True) (db.datastore path) := by
    intro path hpath
    rw [datastore]
    split
    next name hname => exact Datastore.ofName_yields (hpath name hname)
    · trivial
  have hquery : Yields (·.Shows OneLine) (fun _ => True) (db.query clock text none) :=
    (Statement.ofText_yields h).bind fun s hs => (hdatastore s.table hs).bind fun ds _ => trivial
  exact QueryError.oneLine_message (hquery.error herr)

namespace Console

/-- Whether the line, without blanks at its ends, is neither empty nor a comment. -/
def isEffective (line : Clock × String) : Bool :=
  let cs := Text.trimChars line.2.toList
  !cs.isEmpty && !List.isPrefixOf ['-', '-'] cs

/-- The command on a line, without blanks at its ends, as an operation. -/
def operation (line : Clock × String) : Clock × Operation := (line.1, .query (Text.trim line.2) none)

def Answer.text : Answer → String
  | .result text => text
  | .failure text => text

/-- The lines on standard error. -/
def stderr (answers : List Answer) : List String :=
  answers.filterMap fun
    | .result _ => none
    | .failure text => some text

/-- The text that is written for some lines. -/
def written (ls : List String) : String := String.join (ls.map (· ++ "\n"))

/-- The text is these lines, with a line feed between each two. -/
structure LinesOf (text : String) (ls : List String) : Prop where
  oneLine : ∀ l ∈ ls, OneLine l
  intercalate : "\n".intercalate ls = text

/-- Runs lines one after the other with this sort. Where it gives up, the program ends. -/
def runBy (sorter : Sorter) (db : Database σ) : List (Clock × String) → List Answer
  | [] => []
  | (clock, line) :: rest =>
    match command? line with
    | none => runBy sorter db rest
    | some text =>
      match sorter.query db clock text none with
      | none => []
      | some result => .ofResult (db.settle result).1 :: runBy sorter (db.settle result).2 rest

/-- Each of these lines, when its turn comes, sorts only rows in a consistent order. -/
def Orderly (db : Database σ) (effective : List (Clock × String)) : Prop :=
  ∀ k line, effective[k]? = some line →
    (db.runAll ((effective.take k).map operation)).Sortable (Text.trim line.2) none

/-- Each of these lines, one after the other on the same database, is answered by the rows of its result or
by its error, and the answer is one line. -/
structure AnswersEach (db : Database σ) (effective : List (Clock × String)) (answers : List Answer) : Prop where
  length_eq : answers.length = effective.length
  succeeds : ∀ k line, effective[k]? = some line → ∀ rows after,
    (db.runAll ((effective.take k).map operation)).query line.1 (Text.trim line.2) none = .ok (rows, after) →
      ∃ text, answers[k]? = some (.result text) ∧ text = (Json.ofList Row.toJson rows).render ∧
        Json.parse? text = some (Json.ofList Row.toJson rows)
  fails : ∀ k line, effective[k]? = some line → ∀ err,
    (db.runAll ((effective.take k).map operation)).query line.1 (Text.trim line.2) none = .error err →
      answers[k]? = some (.failure ("error: " ++ err.message))
  oneLine : ∀ a ∈ answers, OneLine a.text

/-- The console keeps to the lines of this input with this sort. -/
structure KeepsLines (sorter : Sorter) (db : Database σ) (input : List (Clock × String)) : Prop where
  answers : runBy sorter db input = run db input
  answersEach : AnswersEach db (input.filter isEffective) (runBy sorter db input)
  length_eq : (stdout (runBy sorter db input)).length + (stderr (runBy sorter db input)).length =
    (input.filter isEffective).length
  lines_stdout : lines (written (stdout (runBy sorter db input))) = stdout (runBy sorter db input) ++ [""]
  lines_stderr : lines (written (stderr (runBy sorter db input))) = stderr (runBy sorter db input) ++ [""]
  /-- Lines without a command can be put in and left out anywhere. -/
  effective : ∀ input' : List (Clock × String), input'.filter isEffective = input.filter isEffective →
    stdout (runBy sorter db input') = stdout (runBy sorter db input) ∧
      stderr (runBy sorter db input') = stderr (runBy sorter db input)
  /-- What is written for the first lines is the beginning of what is written for all. -/
  begins : ∀ n, stdout (runBy sorter db (input.take n)) <+: stdout (runBy sorter db input) ∧
    stderr (runBy sorter db (input.take n)) <+: stderr (runBy sorter db input)

/-! ### One line after the other -/

theorem command?_eq (line : Clock × String) :
    command? line.2 = if isEffective line then some (Text.trim line.2) else none := by
  rw [command?, isEffective, Text.trim]
  split
  next hempty => simp [hempty]
  next rest hcomment => simp [hcomment]
  next hempty hcomment =>
    have hbegins : ¬ ['-', '-'] <+: Text.trimChars line.2.toList := by
      rintro ⟨rest, hrest⟩
      exact hcomment rest hrest.symm
    have hne : Text.trimChars line.2.toList ≠ [] := hempty
    rw [← List.isPrefixOf_iff_prefix, Bool.not_eq_true] at hbegins
    simp [hne, hbegins]

theorem run_cons_of_not_isEffective {line : Clock × String} (h : isEffective line = false) (db : Database σ)
    (rest : List (Clock × String)) : run db (line :: rest) = run db rest := by
  obtain ⟨clock, line⟩ := line
  have hcommand : command? line = none := (command?_eq (clock, line)).trans (if_neg (by simp [h]))
  simp only [run, step, hcommand]
  rfl

theorem run_cons_of_isEffective {line : Clock × String} (h : isEffective line) (db : Database σ)
    (rest : List (Clock × String)) :
    run db (line :: rest) = .ofResult ((db.query line.1 (Text.trim line.2) none).map Prod.fst) ::
      run (db.after (operation line)) rest := by
  obtain ⟨clock, line⟩ := line
  have hcommand : command? line = some (Text.trim line) := (command?_eq (clock, line)).trans (if_pos h)
  simp only [run, step, hcommand, Database.after, operation, Operation.run]
  cases db.query clock (Text.trim line) none <;> rfl

/-- Lines without a command can be left out. -/
theorem run_filter_isEffective (db : Database σ) (input : List (Clock × String)) :
    run db (input.filter isEffective) = run db input := by
  induction input generalizing db with
  | nil => rfl
  | cons line rest ih =>
      by_cases hline : isEffective line
      · rw [List.filter_cons_of_pos hline, run_cons_of_isEffective hline, run_cons_of_isEffective hline, ih]
      · rw [List.filter_cons_of_neg hline]
        rw [Bool.not_eq_true] at hline
        rw [run_cons_of_not_isEffective hline, ih]

/-- What follows some lines is run on the database that their commands leave. -/
theorem run_append (db : Database σ) (first second : List (Clock × String)) :
    run db (first ++ second) =
      run db first ++ run (db.runAll ((first.filter isEffective).map operation)) second := by
  induction first generalizing db with
  | nil => rfl
  | cons line rest ih =>
      rw [List.cons_append]
      by_cases hline : isEffective line
      · rw [run_cons_of_isEffective hline, run_cons_of_isEffective hline, List.filter_cons_of_pos hline,
          List.map_cons, Database.runAll_cons, ih, List.cons_append]
      · rw [List.filter_cons_of_neg hline]
        rw [Bool.not_eq_true] at hline
        rw [run_cons_of_not_isEffective hline, run_cons_of_not_isEffective hline, ih]

theorem run_take (db : Database σ) (input : List (Clock × String)) (n : Nat) :
    run db (input.take n) <+: run db input := by
  have happend := run_append db (input.take n) (input.drop n)
  rw [List.take_append_drop] at happend
  exact ⟨_, happend.symm⟩

/-! ### The answers -/

theorem getElem?_run {effective : List (Clock × String)} (h : ∀ line ∈ effective, isEffective line)
    (db : Database σ) (k : Nat) :
    (run db effective)[k]? = effective[k]?.map fun line =>
      .ofResult (((db.runAll ((effective.take k).map operation)).query line.1 (Text.trim line.2) none).map
        Prod.fst) := by
  induction effective generalizing db k with
  | nil => rfl
  | cons line rest ih =>
      obtain ⟨hline, hrest⟩ := List.forall_mem_cons.1 h
      rw [run_cons_of_isEffective hline]
      cases k with
      | zero => rfl
      | succ k => exact ih hrest (db.after (operation line)) k

theorem length_run {effective : List (Clock × String)} (h : ∀ line ∈ effective, isEffective line)
    (db : Database σ) : (run db effective).length = effective.length := by
  induction effective generalizing db with
  | nil => rfl
  | cons line rest ih =>
      obtain ⟨hline, hrest⟩ := List.forall_mem_cons.1 h
      rw [run_cons_of_isEffective hline, List.length_cons, List.length_cons, ih hrest]

theorem oneLine_trim {line : String} (h : OneLine line) : OneLine (Text.trim line) := by
  have hsubset : Text.trimChars line.toList ⊆ line.toList := by
    intro c hc
    rw [Text.trimChars, List.mem_reverse] at hc
    have hmem := (List.dropWhile_sublist _).subset hc
    rw [List.mem_reverse] at hmem
    exact (List.dropWhile_sublist _).subset hmem
  exact oneLine_ofList.2 (mt (hsubset ·) h)

theorem oneLine_ofResult (db : Database σ) (clock : Clock) {text : String} (h : OneLine text) :
    OneLine (Answer.ofResult ((db.query clock text none).map Prod.fst)).text := by
  cases hquery : db.query clock text none with
  | ok r => exact Row.oneLine_rows r.1
  | error err => exact .append (by decide) (db.oneLine_query clock h hquery)

theorem answersEach_run {effective : List (Clock × String)} (h : ∀ line ∈ effective, isEffective line)
    (hlines : ∀ line ∈ effective, OneLine line.2) (db : Database σ) :
    AnswersEach db effective (run db effective) where
  length_eq := length_run h db
  succeeds := by
    intro k line hline rows after hquery
    rw [getElem?_run h, hline, Option.map_some, hquery]
    exact ⟨_, rfl, rfl, Json.parse?_render (Row.legible_rows rows)⟩
  fails := by
    intro k line hline err hquery
    rw [getElem?_run h, hline, Option.map_some, hquery]
    rfl
  oneLine := by
    intro a ha
    obtain ⟨k, hk⟩ := List.mem_iff_getElem?.1 ha
    rw [getElem?_run h] at hk
    obtain ⟨line, hline, rfl⟩ := Option.map_eq_some_iff.1 hk
    exact oneLine_ofResult _ _ (oneLine_trim (hlines line (List.mem_of_getElem? hline)))

/-! ### The two outputs -/

theorem length_stdout_add_length_stderr (answers : List Answer) :
    (stdout answers).length + (stderr answers).length = answers.length := by
  induction answers with
  | nil => rfl
  | cons a answers ih =>
      cases a with
      | result text =>
          change (stdout answers).length + 1 + (stderr answers).length = answers.length + 1
          omega
      | failure text =>
          change (stdout answers).length + ((stderr answers).length + 1) = answers.length + 1
          omega

theorem exists_text_of_mem {answers : List Answer} {l : String}
    (h : l ∈ stdout answers ∨ l ∈ stderr answers) : ∃ a ∈ answers, a.text = l := by
  rcases h with h | h
  · obtain ⟨a, ha, hal⟩ := List.mem_filterMap.1 h
    refine ⟨a, ha, ?_⟩
    cases a <;> cases hal
    rfl
  · obtain ⟨a, ha, hal⟩ := List.mem_filterMap.1 h
    refine ⟨a, ha, ?_⟩
    cases a <;> cases hal
    rfl

theorem lines_written {ls : List String} (h : ∀ l ∈ ls, OneLine l) : lines (written ls) = ls ++ [""] := by
  induction ls with
  | nil => rfl
  | cons l ls ih =>
      obtain ⟨hl, hls⟩ := List.forall_mem_cons.1 h
      have hwritten : (written (l :: ls)).toList = l.toList ++ '\n' :: (written ls).toList := by
        rw [written, List.map_cons, String.join_cons, String.toList_append, String.toList_append,
          List.append_assoc]
        rfl
      rw [lines, hwritten, splitLines_append hl, List.map_cons, String.ofList_toList, ← lines, ih hls]
      rfl

/-! ### Lines of a text -/

theorem linesOf_timedLines (clocks : Nat → Clock) (text : String) :
    LinesOf text ((timedLines clocks text).map Prod.snd) := by
  rw [map_snd_timedLines]
  exact ⟨fun _ => not_mem_of_mem_lines, intercalate_lines text⟩

theorem trimChars_concat {c : Char} (hc : Text.isBlank c) (cs : List Char) :
    Text.trimChars (cs ++ [c]) = Text.trimChars cs := by
  rw [Text.trimChars, Text.trimChars, List.dropWhile_append]
  split
  next hempty => simp [List.isEmpty_iff.1 hempty, hc]
  next => rw [List.reverse_append, List.reverse_singleton, List.singleton_append, List.dropWhile_cons_of_pos hc]

/-- A line that is read with its line feed is answered as without. -/
theorem step_lineFeed (db : Database σ) (clock : Clock) (line : String) :
    step db clock (line ++ "\n") = step db clock line := by
  have hcommand : command? (line ++ "\n") = command? line := by
    have hchars : (line ++ "\n").toList = line.toList ++ ['\n'] := String.toList_append
    rw [command?, command?, hchars, trimChars_concat (by decide)]
  rw [step, step, hcommand]

/-! ### Any sort -/

section AnySort

variable {sorter : Sorter} {db : Database σ}

theorem orderly_cons {line : Clock × String} {rest : List (Clock × String)} :
    Orderly db (line :: rest) ↔
      db.Sortable (Text.trim line.2) none ∧ Orderly (db.after (operation line)) rest := by
  constructor
  · exact fun h => ⟨h 0 line rfl, fun k line' hline' => h (k + 1) line' hline'⟩
  · rintro ⟨hline, hrest⟩ k line' hline'
    cases k with
    | zero =>
        cases hline'
        exact hline
    | succ k => exact hrest k line' hline'

theorem Orderly.of_prefix {first all : List (Clock × String)} (h : Orderly db all) (hfirst : first <+: all) :
    Orderly db first := by
  obtain ⟨rest, rfl⟩ := hfirst
  intro k line hline
  have hk : k < first.length := (List.getElem?_eq_some_iff.1 hline).1
  have hsortable := h k line (by rw [List.getElem?_append_left hk, hline])
  rwa [List.take_append_of_le_length hk.le] at hsortable

theorem Orderly.sortable_last {first : List (Clock × String)} {line : Clock × String}
    (h : Orderly db (first ++ [line])) : (db.runAll (first.map operation)).Sortable (Text.trim line.2) none := by
  have hlast := h first.length line List.getElem?_concat_length
  rwa [List.take_left] at hlast

theorem runBy_cons_of_not_isEffective {line : Clock × String} (h : isEffective line = false)
    (rest : List (Clock × String)) : runBy sorter db (line :: rest) = runBy sorter db rest := by
  have hcommand : command? line.2 = none := (command?_eq line).trans (if_neg (by simp [h]))
  rw [runBy, hcommand]

theorem runBy_cons_of_isEffective {line : Clock × String} (h : isEffective line)
    (rest : List (Clock × String)) :
    runBy sorter db (line :: rest) = match sorter.query db line.1 (Text.trim line.2) none with
      | none => []
      | some result => .ofResult (db.settle result).1 :: runBy sorter (db.settle result).2 rest := by
  have hcommand : command? line.2 = some (Text.trim line.2) := (command?_eq line).trans (if_pos h)
  rw [runBy, hcommand]

theorem runBy_cons_of_sortable {line : Clock × String} (h : isEffective line)
    (hsortable : db.Sortable (Text.trim line.2) none) (rest : List (Clock × String)) :
    runBy sorter db (line :: rest) = .ofResult ((db.query line.1 (Text.trim line.2) none).map Prod.fst) ::
      runBy sorter (db.after (operation line)) rest := by
  rw [runBy_cons_of_isEffective h, Sorter.query_of_sortable hsortable]
  simp only [Database.after, operation, Operation.run]
  cases db.query line.1 (Text.trim line.2) none <;> rfl

/-- Every sort runs the lines in the same way while the rows are in a consistent order. -/
theorem runBy_eq_run {input : List (Clock × String)} (h : Orderly db (input.filter isEffective)) :
    runBy sorter db input = run db input := by
  induction input generalizing db with
  | nil => rfl
  | cons line rest ih =>
      by_cases hline : isEffective line
      · rw [List.filter_cons_of_pos hline, orderly_cons] at h
        rw [runBy_cons_of_sortable hline h.1, run_cons_of_isEffective hline, ih h.2]
      · rw [List.filter_cons_of_neg hline] at h
        rw [Bool.not_eq_true] at hline
        rw [runBy_cons_of_not_isEffective hline, run_cons_of_not_isEffective hline, ih h]

/-- A sort that gives up leaves a line without an answer. -/
theorem length_runBy_cautious_lt {input : List (Clock × String)}
    (h : ¬ Orderly db (input.filter isEffective)) :
    (runBy .cautious db input).length < (input.filter isEffective).length := by
  induction input generalizing db with
  | nil => exact absurd (fun k line hline => by cases hline) h
  | cons line rest ih =>
      by_cases hline : isEffective line
      · rw [List.filter_cons_of_pos hline] at h ⊢
        by_cases hsortable : db.Sortable (Text.trim line.2) none
        · have hrest := ih fun hrest => h (orderly_cons.2 ⟨hsortable, hrest⟩)
          rw [runBy_cons_of_sortable hline hsortable, List.length_cons, List.length_cons]
          omega
        · -- The run ends with the first such line, whatever follows.
          rw [runBy_cons_of_isEffective hline, Sorter.query_cautious_of_not_sortable hsortable, List.length_cons]
          exact Nat.zero_lt_succ _
      · rw [List.filter_cons_of_neg hline] at h ⊢
        rw [Bool.not_eq_true] at hline
        rw [runBy_cons_of_not_isEffective hline]
        exact ih h

theorem keepsLines_of_orderly {input : List (Clock × String)} (hlines : ∀ line ∈ input, OneLine line.2)
    (h : Orderly db (input.filter isEffective)) : KeepsLines sorter db input := by
  have heffective : ∀ line ∈ input.filter isEffective, isEffective line := fun _ hline =>
    (List.mem_filter.1 hline).2
  have heach : AnswersEach db (input.filter isEffective) (run db input) := by
    have hrun := answersEach_run heffective (fun line hline => hlines line (List.mem_filter.1 hline).1) db
    rwa [run_filter_isEffective] at hrun
  have hwritten : ∀ l, l ∈ stdout (run db input) ∨ l ∈ stderr (run db input) → OneLine l := by
    intro l hl
    obtain ⟨a, ha, rfl⟩ := exists_text_of_mem hl
    exact heach.oneLine a ha
  have hrun : runBy sorter db input = run db input := runBy_eq_run h
  constructor
  case answers => exact hrun
  case answersEach => rwa [hrun]
  case length_eq => rw [hrun, length_stdout_add_length_stderr, heach.length_eq]
  case lines_stdout =>
    rw [hrun]
    exact lines_written fun l hl => hwritten l (Or.inl hl)
  case lines_stderr =>
    rw [hrun]
    exact lines_written fun l hl => hwritten l (Or.inr hl)
  case effective =>
    intro input' hinput'
    rw [hrun, runBy_eq_run (hinput' ▸ h), ← run_filter_isEffective db input', hinput', run_filter_isEffective]
    exact ⟨rfl, rfl⟩
  case begins =>
    intro n
    have htake : (input.take n).filter isEffective <+: input.filter isEffective :=
      (List.take_prefix n input).filter _
    rw [hrun, runBy_eq_run (h.of_prefix htake)]
    have hbegins := run_take db input n
    exact ⟨hbegins.filterMap _, hbegins.filterMap _⟩

end AnySort

/-! ### Integers and floats in one column -/

/-- Two integers, the float that is nearest to both, and a smaller integer, as they are written. -/
def mixedNumbers : List (String × Scalar) :=
  let nearest : String × Scalar := ("9007199254740992.0", .float ⟨0x4340000000000000⟩)
  [("9007199254740993", .number 9007199254740993)] ++ List.replicate 3 nearest ++
    [("9007199254740992", .number 9007199254740992)] ++ List.replicate 3 nearest ++
      List.replicate 13 ("5", .number 5)

/-- The commands that store the numbers one after the other and sort them. -/
def mixedCommands : List String :=
  mixedNumbers.map (Gap.stored.text ·.1) ++ ["SELECT * FROM t ORDER BY a"]

def mixedInsertion (number : String × Scalar) : Statement :=
  .insert ⟨⟨none, "t"⟩, ["a"], [number.2.value ⟨(Gap.stored.text number.1).toList, []⟩]⟩

/-- The database when the numbers are stored. -/
def mixedDatabase : Database Unit :=
  mixedNumbers.foldl (fun db number => (db.settle (db.execute ⟨fun _ => 0⟩ (mixedInsertion number))).2)
    (Database.start .standard)

theorem ofText_mixedNumbers {number : String × Scalar} (h : number ∈ mixedNumbers) :
    Statement.ofText (Gap.stored.text number.1) none = .ok (mixedInsertion number) := by
  have hplain : ∀ number ∈ mixedNumbers, number.1.toList.all (Plain ·) := by decide +kernel
  have hscan : ∀ number ∈ mixedNumbers, Token.scan (number.1.toList ++ Gap.stored.tail.toList) =
      .ok (number.2.token :: Gap.stored.after) := by decide +kernel
  exact Gap.stored.ofText_of_form (.insert ⟨none, "t"⟩ ⟨("a", number.2), []⟩)
    (fun c hc => of_decide_eq_true (List.all_eq_true.1 (hplain number h) c hc)) (hscan number h) rfl rfl

theorem runAll_mixedNumbers :
    (Database.start .standard : Database Unit).runAll
      (mixedNumbers.map fun number => (⟨fun _ => 0⟩, .query (Gap.stored.text number.1) none)) = mixedDatabase := by
  rw [Database.runAll, List.foldl_map]
  refine List.foldl_ext _ _ _ fun db number hnumber => ?_
  rw [Database.after, Operation.run, Database.query, ofText_mixedNumbers hnumber, ok_bind]
  cases db.execute ⟨fun _ => 0⟩ (mixedInsertion number) <;> rfl

theorem not_sortable_mixedDatabase : ¬ mixedDatabase.Sortable "SELECT * FROM t ORDER BY a" none := by
  let d : Derivation := ⟨.select none ⟨none, "t"⟩ none (some ⟨⟨"a", []⟩, none⟩) none, false⟩
  have he : Extraction.ofText "SELECT * FROM t ORDER BY a" none =
      .ok ⟨"SELECT * FROM t ORDER BY a".toList, []⟩ := by
    cbv
  have hscan : Token.scan "SELECT * FROM t ORDER BY a".toList = .ok d.tokens := by
    decide +kernel
  have hread : Statement.ofText "SELECT * FROM t ORDER BY a" none =
      .ok (.select ⟨.all, ⟨none, "t"⟩, none, some ⟨["a"], .ascending⟩, none⟩) := by
    rw [Statement.ofText, he, ok_bind, hscan, ok_bind]
    exact d.ofTokens_tokens
  have hdatastore : mixedDatabase.config.datastore = .localStore := by decide +kernel
  have hrows : ¬ Table.Sortable (some ⟨["a"], .ascending⟩)
      ((mixedDatabase.store.tableOrNew .localStore "t").rows.filter
        (Table.isMatch none mixedDatabase.config.mode)) := by
    decide +kernel
  exact fun h => hrows (h _ .localStore hread (congrArg Except.ok hdatastore))

theorem filter_mixedCommands (clock : Clock) :
    (timedLines (fun _ => clock) ("\n".intercalate mixedCommands)).filter isEffective =
      mixedCommands.map (clock, ·) := by
  have hlines : ∀ command ∈ mixedCommands, '\n' ∉ command.toList := by decide +kernel
  have hcommands : ∀ command ∈ mixedCommands, (command? command).isSome := by decide +kernel
  have heffective : ∀ line ∈ mixedCommands.map (clock, ·), isEffective line := by
    refine List.forall_mem_map.2 fun command hcommand => ?_
    by_contra hline
    have hsome := hcommands command hcommand
    rw [command?_eq (clock, command), if_neg hline] at hsome
    cases hsome
  rw [timedLines_const, lines_intercalate hlines (List.append_ne_nil_of_right_ne_nil _ (List.cons_ne_nil _ _)),
    List.filter_eq_self.2 heffective]

theorem not_orderly_mixedCommands :
    ¬ Orderly (Database.start .standard : Database Unit) (mixedCommands.map (⟨fun _ => 0⟩, ·)) := by
  have htrim : ∀ command ∈ mixedCommands, Text.trim command = command := by decide +kernel
  have hoperations : (mixedNumbers.map fun number => (⟨fun _ => 0⟩, Gap.stored.text number.1)).map operation =
      mixedNumbers.map fun number => (⟨fun _ => 0⟩, .query (Gap.stored.text number.1) none) := by
    rw [List.map_map]
    refine List.map_congr_left fun number hnumber => ?_
    have hcommand := htrim _ (List.mem_append_left _ (List.mem_map_of_mem hnumber))
    exact congrArg (fun text => (_, Operation.query text none)) hcommand
  intro h
  rw [mixedCommands, List.map_append, List.map_map] at h
  have hlast := h.sortable_last
  rw [Function.comp_def, hoperations, runAll_mixedNumbers] at hlast
  rw [htrim _ (List.mem_append_right _ List.mem_cons_self)] at hlast
  exact not_sortable_mixedDatabase hlast

/-- **The console keeps to the lines of a text exactly if no line sorts rows that are in no consistent order.**
Then each line that has a command is answered with one line, in order, on standard output or on standard error,
by the rows of the result or by the error, whatever the sort is. Lines without a command can be put in and left
out anywhere, and what is written for the first lines of an input is the beginning of what is written for all of
it. -/
theorem run_keeps_lines (db : Database σ) (clocks : Nat → Clock) (text : String) :
    let input := timedLines clocks text
    LinesOf text (input.map Prod.snd) ∧
    (∀ (db : Database σ) (clock : Clock) (line : String),
      step db clock (line ++ "\n") = step db clock line) ∧
    (Orderly db (input.filter isEffective) ↔ ∀ sorter, KeepsLines sorter db input) := by
  intro input
  have hlines := linesOf_timedLines clocks text
  refine ⟨hlines, step_lineFeed, fun h sorter => ?_, fun h => ?_⟩
  · exact keepsLines_of_orderly (fun line hline => hlines.oneLine _ (List.mem_map_of_mem hline)) h
  · by_contra horderly
    exact (length_runBy_cautious_lt horderly).ne (h .cautious).answersEach.length_eq

/-- A float that ties with two different integers, in a table of more rows: the sort may give up, and then the last
of the commands stays without an answer. -/
theorem unanswered_selection :
    let input := timedLines (fun _ => ⟨fun _ => 0⟩) ("\n".intercalate mixedCommands)
    (input.filter isEffective).length = 22 ∧
      ∃ sorter : Sorter, (runBy sorter (Database.start .standard : Database Unit) input).length < 22 := by
  intro input
  have heffective := filter_mixedCommands ⟨fun _ => 0⟩
  have hlength : (input.filter isEffective).length = 22 := by
    rw [heffective, List.length_map]
    decide +kernel
  have horderly : ¬ Orderly (Database.start .standard : Database Unit) (input.filter isEffective) := by
    rw [heffective]
    exact not_orderly_mixedCommands
  refine ⟨hlength, .cautious, ?_⟩
  rw [← hlength]
  exact length_runBy_cautious_lt horderly

end Console
end TableQuery
