import SourceSurvey.CommandLine.Invocation
import SourceSurvey.Pipeline.Basic
import SourceSurvey.Settings.Store

/-!
# Carrying out commands

A command changes a tree and answers an `Outcome`: a reply, a failure, or both. What the reply looks
like is decided elsewhere.
-/

namespace SourceSurvey
namespace CommandLine

/-- What a command answers. -/
inductive Reply where
  | surveyed (survey : Survey)
  | cacheOverview (directory : Path) (entries diskBytes : Nat) (digest : String)
  | cleaned (removed days : Nat)
  | invalidated (results : List (Path × Bool))
  | cacheCleared
  | aborted
  | wroteSettings (path : Path)
  | settings (settings : Settings)

/-- How a command ended. A command that broke down has neither a reply nor a failure. -/
structure Outcome where
  reply? : Option Reply := none
  failure? : Option Report := none
  brokeDown : Bool := false

namespace Outcome

/-- A reply and nothing else. -/
def ofReply (r : Reply) : Outcome := { reply? := some r }

/-- A failure and nothing else. -/
def ofFailure (e : Failure) : Outcome := { failure? := some (.failure e) }

/-- A failure with what was being done. -/
def during (context : String) (e : Failure) : Outcome :=
  { failure? := some (.context context (.failure e)) }

/-- A failure without a cause. -/
def ofMessage (text : String) : Outcome := { failure? := some (.message text) }

end Outcome

/-! ## Surveys -/

/-- The settings with the options of a command line over them. -/
def RunOptions.apply (o : RunOptions) (s : Settings) : Settings :=
  { s with
    cache := { s.cache with enabled := s.cache.enabled && !o.noCache }
    scheduler := { s.scheduler with
      parallel := s.scheduler.parallel && !o.sequential
      maxWorkers := o.workers?.getD s.scheduler.maxWorkers
      strategy := o.strategy?.getD s.scheduler.strategy } }

/-- The roots of a survey: the given paths, else the current directory. -/
def RunOptions.roots (o : RunOptions) (t : Tree) : List Path :=
  if o.paths.isEmpty then [Tree.pathOf t.current] else o.paths

/-- The parser of a survey: every file is read at once. -/
def outlineParser (t : Tree) : Parser := fun p _ => .answered (Module.parseFile t p)

/-- Carries out a survey. -/
def survey (o : RunOptions) (s : Settings) (t : Tree) : Tree × Outcome :=
  let s := o.apply s
  match s.validate with
  | .error e => (t, .during "Invalid command-line overrides" e)
  | .ok () =>
    match Pipeline.create s t { threshold := Float.ofNat s.memory.cleanupThreshold } 0 with
    | (t, .error e) => (t, .ofFailure e)
    | (t, .ok p) =>
      let p := match o.output? with
        | some path => { p with exporter := .jsonLines path }
        | none => p
      match p.run t (outlineParser t) (o.roots t) with
      | (p, t, .error e) => (p.close t, .ofFailure e)
      | (p, t, .ok found) => (p.close t, .ofReply (.surveyed found))

/-! ## The cache -/

/-- Opens the cache and does something with it. -/
def withCache (s : Settings) (t : Tree) (act : Cache → Tree → Tree × Outcome) : Tree × Outcome :=
  match Pipeline.openCache s t with
  | (t, .error e) => (t, .during ("Failed to open cache at " ++ s.cache.directory.text) e)
  | (t, .ok c) => act c t

/-- Removes the records of files and tells for each whether there was one. -/
def invalidateEach (c : Cache) (t : Tree) : List Path → Cache × Tree × List (Path × Bool)
  | [] => (c, t, [])
  | p :: rest =>
    let (c, t, removed) := c.invalidate t p
    let (c, t, results) := invalidateEach c t rest
    (c, t, (p, removed) :: results)

/-- Clears a cache, if that is confirmed; without an answer nothing is done. -/
def clearCache (answer? : Option Bool) (c : Cache) (t : Tree) : Tree × Outcome :=
  match answer? with
  | none =>
    (t, { failure? := some (.context "Failed to get user confirmation"
            (.message "IO error: not a terminal")) })
  | some false => (t, .ofReply .aborted)
  | some true =>
    match c.clear t with
    | (_, t, .error e) => (t, .ofFailure e)
    | (_, t, .ok ()) => (t, .ofReply .cacheCleared)

/-! ## Commands -/

/-- Writes the built-in settings to a file. -/
def writeSettings (e : Environment) (path? : Option Path) (force : Bool) (t : Tree) :
    Tree × Outcome :=
  match path? <|> e.settingsPath? with
  | none => (t, .ofMessage "No configuration directory available, pass --path")
  | some path =>
    if t.exists? path && !force then
      (t, .ofMessage
        ("Configuration already exists at " ++ path.text ++ " (use --force to overwrite)"))
    else
      match (Settings.default e).save t path with
      | (t, .error e) => (t, .ofFailure e)
      | (t, .ok ()) => (t, .ofReply (.wroteSettings path))

/-- Carries out a command under settings. `answer?` is the answer to the question before the cache
is cleared, if there is someone to ask. -/
def Command.performWith (c : Command) (e : Environment) (s : Settings) (answer? : Option Bool)
    (t : Tree) : Tree × Outcome :=
  match c with
  | .run options => survey options s t
  | .cacheStatistics =>
    withCache s t fun c t =>
      (t, .ofReply (.cacheOverview c.directory c.size (c.diskBytes t) c.settingsDigest))
  | .cacheClean days? =>
    let days := days?.getD s.cache.staleMaxAgeDays
    withCache s t fun c t =>
      match c.cleanup t days with
      | none => (t, { brokeDown := true })
      | some (_, t, .error e) => (t, .ofFailure e)
      | some (_, t, .ok removed) => (t, .ofReply (.cleaned removed days))
  | .cacheInvalidate paths =>
    withCache s t fun c t =>
      let (c, t, results) := invalidateEach c t paths
      let (_, t, flushed) := c.flush t
      (t,
        { reply? := some (.invalidated results)
          failure? := match flushed with
            | .error e => some (.failure e)
            | .ok () => none })
  | .cacheClear confirmed => withCache s t (clearCache (if confirmed then some true else answer?))
  | .settingsInit path? force => writeSettings e path? force t
  | .settingsShow => (t, .ofReply (.settings s))

/-- Carries out a command; all but one of them need the settings. -/
def Invocation.perform (i : Invocation) (e : Environment) (answer? : Option Bool) (t : Tree) :
    Tree × Outcome :=
  match i.command with
  | .settingsInit path? force => writeSettings e path? force t
  | command =>
    match Settings.load t e i.settings? with
    | .error failure => (t, .ofFailure failure)
    | .ok s => command.performWith e s answer? t

end CommandLine
end SourceSurvey
