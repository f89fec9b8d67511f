import SourceSurvey.CommandLine.Arguments

/-!
# Commands

The commands of the program and the command line that names each of them.
-/

namespace SourceSurvey
namespace CommandLine

/-- What to survey, and what to do other than the settings say. -/
structure RunOptions where
  paths : List Path := []
  noCache : Bool := false
  sequential : Bool := false
  workers? : Option Nat := none
  strategy? : Option Strategy := none
  output? : Option Path := none
  deriving DecidableEq, Repr

/-- The commands. -/
inductive Command where
  | run (options : RunOptions)
  | cacheStatistics
  | cacheClean (days? : Option Nat)
  | cacheInvalidate (paths : List Path)
  | cacheClear (confirmed : Bool)
  | settingsInit (path? : Option Path) (force : Bool)
  | settingsShow
  deriving DecidableEq, Repr

/-- How a reply is written. -/
inductive Format where
  | human
  | json
  deriving DecidableEq, Repr

/-- A command with what holds for all commands. -/
structure Invocation where
  command : Command
  settings? : Option Path := none
  format : Format := .human
  deriving DecidableEq, Repr

/-! ## The levels -/

/-- The flags of every level. -/
def sharedFlags : List Flag := [
  ⟨"help", some 'h', .help⟩,
  ⟨"verbose", some 'v', .switch⟩,
  ⟨"config", some 'c', .value .path⟩,
  ⟨"format", none, .value (.choice ["human", "json"])⟩]

/-- The level of a command with flags of its own. -/
def leaf (flags : List Flag) (allowed required : Bool) : Level :=
  .paths (sharedFlags ++ flags) allowed required

/-- The levels of the commands about the cache. -/
def cacheCommands : List (String × Level) := [
  ("stats", leaf [] false false),
  ("clean", leaf [⟨"max-age-days", none, .value .number⟩] false false),
  ("invalidate", leaf [] true true),
  ("clear", leaf [⟨"yes", some 'y', .switch⟩] false false)]

/-- The levels of the commands about the settings. -/
def settingsCommands : List (String × Level) := [
  ("init", leaf [⟨"path", some 'p', .value .path⟩, ⟨"force", some 'f', .switch⟩] false false),
  ("show", leaf [] false false)]

/-- The flags of a survey. -/
def runFlags : List Flag := [
  ⟨"no-cache", none, .switch⟩,
  ⟨"sequential", none, .switch⟩,
  ⟨"workers", some 'w', .value .number⟩,
  ⟨"strategy", some 's', .value (.choice (Strategy.names.map Prod.fst))⟩,
  ⟨"output", some 'o', .value .path⟩]

/-- A whole command line. -/
def commandLine : Level :=
  .commands (⟨"version", some 'V', .version⟩ :: sharedFlags) [
    ("run", leaf runFlags true false),
    ("cache", .commands sharedFlags cacheCommands),
    ("config", .commands sharedFlags settingsCommands)]

/-! ## Reading -/

/-- A path as the value of a flag. -/
def Words.path? (w : Words) (name : String) : Option Path := (w.value? name).map Path.mk

/-- A number as the value of a flag. -/
def Words.number? (w : Words) (name : String) : Option Nat :=
  (w.value? name).bind fun value => (Settings.parseNatural 64 value).toOption

/-- The command that the names on a command line stand for. -/
def Words.command? (w : Words) : Option Command :=
  match w.names with
  | ["run"] =>
    some <| .run
      { paths := w.paths
        noCache := w.has "no-cache"
        sequential := w.has "sequential"
        workers? := w.number? "workers"
        strategy? := (w.value? "strategy").bind fun name => Strategy.names.lookup name
        output? := w.path? "output" }
  | ["cache", "stats"] => some .cacheStatistics
  | ["cache", "clean"] => some (.cacheClean (w.number? "max-age-days"))
  | ["cache", "invalidate"] => some (.cacheInvalidate w.paths)
  | ["cache", "clear"] => some (.cacheClear (w.has "yes"))
  | ["config", "init"] => some (.settingsInit (w.path? "path") (w.has "force"))
  | ["config", "show"] => some .settingsShow
  | _ => none

/-- The variable that stands for the flag `--config`. -/
def settingsVariable : String := "STRATA_CONFIG_PATH"

/-- Reads a command line. At a level without the flag `--config` its variable is read, which must
not be empty then. -/
def Invocation.parse (e : Environment) (words : List String) : Except Refusal Invocation := do
  let w ← commandLine.read words
  let named? := e.get? settingsVariable
  if named? = some "" && w.readings.any (!·.has "config") then
    .error (.misuse (settingsVariable ++ " is empty"))
  else
    match w.command? with
    | none => .error (.misuse "unknown command")
    | some command =>
      .ok
        { command
          settings? := w.path? "config" <|> named?.map Path.mk
          format := if w.value? "format" = some "json" then .json else .human }

end CommandLine
end SourceSurvey
