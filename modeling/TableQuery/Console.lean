import TableQuery.Database

/-! The console: a command a line, and for each a line of output. -/
namespace TableQuery.Console

/-- The answer to a line: the rows of a result as a JSON array, or the text of an error. -/
inductive Answer
  | result (text : String)
  | failure (text : String)
  deriving DecidableEq

/-- The command on a line; blank lines and comments have none. -/
def command? (line : String) : Option String :=
  match Text.trimChars line.toList with
  | [] => none
  | '-' :: '-' :: _ => none
  | cs => some (String.ofList cs)

/-- Runs one line. -/
def step {σ : Type} [Persistence σ] (db : Database σ) (clock : Clock) (line : String) :
    Option Answer × Database σ :=
  match command? line with
  | none => (none, db)
  | some text =>
    match db.query clock text none with
    | .ok (rows, db) => (some (.result (Json.ofList Row.toJson rows).render), db)
    | .error e => (some (.failure ("error: " ++ e.message)), db)

/-- Runs lines one after the other, each with its own readings of the clock. -/
def run {σ : Type} [Persistence σ] (db : Database σ) : List (Clock × String) → List Answer
  | [] => []
  | (clock, line) :: rest =>
    let (answer, db) := step db clock line
    answer.toList ++ run db rest

/-- The lines of a text; what follows the last line feed is one more. -/
def splitLines : List Char → List (List Char)
  | [] => [[]]
  | c :: cs =>
    if c = '\n' then [] :: splitLines cs
    else match splitLines cs with
      | [] => [[c]]
      | line :: rest => (c :: line) :: rest

def lines (text : String) : List String := (splitLines text.toList).map String.ofList

end TableQuery.Console
