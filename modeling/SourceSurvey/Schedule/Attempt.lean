import SourceSurvey.Chunk.Merge
import SourceSurvey.Memory.Monitor
import SourceSurvey.Task.Basic

/-!
# Attempts

One attempt at a task: a file that is large or whose task prefers chunks is read in chunks, every
other file is handed to the parser. A parser may answer a record, fail or break down; breaking down
is a failure of the attempt and of nothing else.
-/

namespace SourceSurvey

/-- What a parser does with a file. -/
inductive Parse where
  | answered (result : Except Failure Module)
  | brokeDown (message? : Option String)

/-- A parser: what it does with a file, given how often it was asked for that very path before. -/
abbrev Parser := Path → Nat → Parse

namespace Parse

/-- The result of a parse of a file. -/
def result (path : Path) : Parse → Except Failure Module
  | answered r => r
  | brokeDown message? => .error <| .internal <|
      "parser panicked on " ++ path.text ++ ": " ++ message?.getD "unknown panic"

end Parse

/-- What an attempt leads to: its result, whether the parser was asked, and whether it was read in
chunks. -/
structure AttemptResult where
  result : Except Failure Module
  asked : Bool := false
  chunked : Bool := false

/-- What attempts depend on beside the task. -/
structure Workplace where
  tree : Tree
  largeFiles : LargeFiles
  parser : Parser

namespace Workplace

/-- One attempt at a task, given how often the parser was asked for its path before. -/
def attempt (w : Workplace) (task : Task) (earlier : Nat) : AttemptResult :=
  let inChunks : AttemptResult :=
    { result := (w.largeFiles.parseFile w.tree task.path).1, chunked := true }
  if task.preferChunked then inChunks
  else
    match w.largeFiles.isLarge w.tree task.path with
    | .error e => { result := .error (.io e) }
    | .ok true => inChunks
    | .ok false => { result := (w.parser task.path earlier).result task.path, asked := true }

end Workplace
end SourceSurvey
