import Std.Time.DateTime.Timestamp
import TableQuery.Console

/-! The command line: settings from the file named by the argument, commands from standard input,
results on standard output and errors on standard error. -/

namespace TableQuery.Main

/-- The milliseconds since the epoch, read once. -/
def clockNow : IO Clock := do
  let now ← Std.Time.Timestamp.now
  let t := Int64.ofInt now.toMillisecondsSinceUnixEpoch.val
  pure ⟨fun _ => t⟩

/-- Reads one line after the other, each with its line feed, and writes its answer. -/
partial def converse (input : IO.FS.Stream) (db : Database Unit) : IO Unit := do
  let line ← input.getLine
  if line.isEmpty then pure ()
  else
    let (answer, db) := Console.step db (← clockNow) line
    match answer with
    | none => pure ()
    | some (.result text) => IO.println text
    | some (.failure text) => IO.eprintln text
    converse input db

end TableQuery.Main

open TableQuery in
def main (args : List String) : IO UInt32 := do
  let config ← match args with
    | [] => pure (some Configuration.standard)
    | path :: _ => do
      let text ← IO.FS.readFile path
      pure (Configuration.ofText? text)
  match config with
  | none =>
    IO.eprintln "Error: the configuration does not load"
    pure 1
  | some config =>
    Main.converse (← IO.getStdin) (Database.start config)
    pure 0
