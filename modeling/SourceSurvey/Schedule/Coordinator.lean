import SourceSurvey.Progress.Basic
import SourceSurvey.Recovery
import SourceSurvey.Schedule.Attempt
import SourceSurvey.Schedule.Metrics
import SourceSurvey.Settings.Basic

/-!
# The coordinator

The coordinator owns the queue of tasks. It admits tasks from the front while there are free workers
and the ledger has room, lets workers attempt them, and deals with the results: a record is kept, a
failed task goes to the back of the queue if it is tried again and is recorded as a failure
otherwise. A task that is too large for the ledger is admitted when no other is under way.

`admit?`, `work` and `receive` are the steps. Workers may finish in any order; `run` is the order in
which the task that was admitted first also finishes first.
-/

namespace SourceSurvey

/-- A task under way with the amount that is reserved for it and, once its attempt is over, the
result. The reservation is held until then. -/
structure Job (α : Type) where
  task : Task
  amount : α
  result? : Option (Except Failure Module) := none

/-- What stays fixed during a run. -/
structure RunPlan (α : Type) where
  workers : Nat
  estimate : Task → α
  workplace : Workplace
  reading : Float
  now : Instant

/-- The state of a run. `asked` lists the paths that the parser was asked for. -/
structure Run (α Hook : Type) where
  queue : List Task
  inFlight : List (Job α) := []
  ledger : Ledger α
  recovery : Recovery
  tracker : Tracker
  monitor : Monitor Hook
  asked : List Path := []
  modules : PathMap Module := .empty
  timed : PathMap Unit := .empty
  failures : List FailureRecord := []
  peak : α
  processed : Nat := 0
  failed : Nat := 0

namespace Run

variable {α Hook : Type} [Amount α]

open Amount

/-- Admits the first task of the queue, if there is a free worker and the ledger has room for it or
holds nothing for others. -/
def admit? (plan : RunPlan α) (s : Run α Hook) : Option (Run α Hook) :=
  match s.queue with
  | [] => none
  | task :: rest =>
    if plan.workers ≤ s.inFlight.length then none
    else
      let amount := plan.estimate task
      let admitted (ledger : Ledger α) : Run α Hook :=
        { s with queue := rest, ledger, inFlight := s.inFlight ++ [{ task, amount }] }
      match s.ledger.tryReserve amount with
      | some ledger => some (admitted ledger)
      | none => if s.inFlight.isEmpty then some (admitted (s.ledger.reserve amount)) else none

/-- Admits as many tasks as possible, `most` at most. -/
def admitAll (plan : RunPlan α) (s : Run α Hook) : Nat → Run α Hook
  | 0 => s
  | most + 1 =>
    match s.admit? plan with
    | some s => admitAll plan s most
    | none => s

/-- The run after the attempt at the job at a place led to something; the reservation of the job is
released. -/
def attempted (reading : Float) (s : Run α Hook) (i : Nat) (job : Job α) (a : AttemptResult) :
    Run α Hook :=
  { s with
    inFlight := s.inFlight.set i { job with result? := some a.result }
    ledger := s.ledger.release job.amount
    tracker := s.tracker.setCurrentFile job.task.path
    monitor := if a.chunked then (s.monitor.scope reading reading).1 else s.monitor
    asked := if a.asked then s.asked ++ [job.task.path] else s.asked }

/-- Attempts the task of the job at a place. -/
def work (plan : RunPlan α) (s : Run α Hook) (i : Nat) : Run α Hook :=
  match s.inFlight[i]? with
  | none => s
  | some job =>
    s.attempted plan.reading i job
      (plan.workplace.attempt job.task (s.asked.count job.task.path))

/-- Keeps the record of a task. -/
def succeed (s : Run α Hook) (task : Task) (module : Module) : Run α Hook :=
  { s with
    modules := s.modules.insert task.path module
    timed := s.timed.insert task.path ()
    processed := s.processed + 1
    tracker := s.tracker.update 1 0 none }

/-- Queues a failed task again or records its failure. `present` tells whether its file is there. -/
def fail (now : Instant) (present : Bool) (s : Run α Hook) (task : Task) (e : Failure) :
    Run α Hook :=
  match s.recovery.handle task e present now with
  | (true, task, recovery) => { s with recovery, queue := s.queue ++ [task] }
  | (false, task, recovery) =>
    { s with
      recovery
      failures := s.failures ++ [task.givenUp e]
      failed := s.failed + 1
      tracker := s.tracker.update 0 1 none }

/-- The run without the job at a place. -/
def dropJob (s : Run α Hook) (i : Nat) : Run α Hook :=
  { s with
    inFlight := s.inFlight.eraseIdx i
    peak := larger s.peak s.ledger.peak }

/-- Takes a result of the job at a place. -/
def concluded (now : Instant) (present : Bool) (s : Run α Hook) (i : Nat) (job : Job α) :
    Except Failure Module → Run α Hook
  | .ok module => (s.dropJob i).succeed job.task module
  | .error e => (s.dropJob i).fail now present job.task e

/-- Takes the result of the job at a place, if its attempt is over. -/
def receive (plan : RunPlan α) (s : Run α Hook) (i : Nat) : Run α Hook :=
  match s.inFlight[i]? with
  | none => s
  | some job =>
    match job.result? with
    | none => s
    | some result =>
      s.concluded plan.now (plan.workplace.tree.exists? job.task.path) i job result

/-- Admits, attempts and receives until no task is left; `rounds` bounds the number of attempts. -/
def rounds (plan : RunPlan α) (s : Run α Hook) : Nat → Run α Hook
  | 0 => s
  | rounds + 1 =>
    let s := s.admitAll plan plan.workers
    if s.inFlight.isEmpty then s
    else Run.rounds plan ((s.work plan 0).receive plan 0) rounds

/-- The number of attempts that tasks may take. -/
def attemptLimit (tasks : List Task) : Nat :=
  (tasks.map fun t => t.maxRetries + 1 - t.retries + 1).foldr (· + ·) 0

end Run

/-! ## Processors -/

/-- What a run leads to. -/
structure RunOutcome (α : Type) where
  modules : PathMap Module
  failures : List FailureRecord
  timed : PathMap Unit
  metrics : Metrics α
  execution : Execution
  asked : List Path

/-- What the runs of one processor share. -/
structure Processor (α Hook : Type) where
  settings : SchedulerSettings
  largeFiles : LargeFiles
  estimate : Task → α
  cpus : Nat
  reading : Float
  ledger : Ledger α
  recovery : Recovery := {}
  tracker : Tracker
  monitor : Monitor Hook

namespace Processor

variable {α Hook : Type} [Amount α]

/-- The number of workers for some tasks. -/
def workerCap (p : Processor α Hook) (tasks : Nat) : Nat :=
  if p.settings.parallel then max (min (min p.cpus tasks) p.settings.maxWorkers) 1 else 1

/-- How tasks of some sizes are executed. -/
def execution (p : Processor α Hook) (sizes : List Nat) : Execution :=
  if p.settings.parallel then .choose sizes p.settings.strategy else .inline

/-- The task for a file; a file that cannot be looked at counts as empty. -/
def taskFor (t : Tree) (maxRetries : Nat) (p : Path) : Task :=
  .ofFile p (((t.metadata p).map Prod.fst).toOption.getD 0) maxRetries

/-- What stays fixed while the processor runs some number of tasks. -/
def plan (p : Processor α Hook) (t : Tree) (parser : Parser) (tasks : Nat) : RunPlan α :=
  { workers := p.workerCap tasks, estimate := p.estimate
    workplace := { tree := t, largeFiles := p.largeFiles, parser }
    reading := p.reading, now := t.now }

/-- The run of some tasks before anything has happened. -/
def start (p : Processor α Hook) (tasks : List Task) : Run α Hook :=
  { queue := Task.sortByPriority tasks
    ledger := p.ledger.resetPeak
    recovery := p.recovery.clear
    tracker := p.tracker.reset tasks.length
    monitor := p.monitor
    peak := Amount.zero }

/-- What a run of some tasks has led to. -/
def outcome (p : Processor α Hook) (now : Instant) (tasks : List Task) (s : Run α Hook) :
    RunOutcome α :=
  { modules := s.modules, failures := s.failures, timed := s.timed, asked := s.asked
    execution := p.execution (tasks.map Task.size)
    metrics :=
      { total := tasks.length, processed := s.processed, failed := s.failed
        startedAt := now, finishedAt? := some now
        peakMemory := Amount.larger s.peak s.ledger.peak
        recoveries := s.recovery.granted - p.recovery.granted } }

/-- Runs tasks. -/
def process (p : Processor α Hook) (t : Tree) (parser : Parser) (tasks : List Task) :
    Processor α Hook × RunOutcome α :=
  let s := (p.start tasks).rounds (p.plan t parser tasks.length) (Run.attemptLimit tasks)
  ({ p with ledger := s.ledger, recovery := s.recovery, tracker := s.tracker, monitor := s.monitor },
    p.outcome t.now tasks s)

/-- Runs the tasks for some files. -/
def processFiles (p : Processor α Hook) (t : Tree) (parser : Parser) (paths : List Path) :
    Processor α Hook × RunOutcome α :=
  p.process t parser (paths.map (taskFor t p.settings.maxRetries))

end Processor
end SourceSurvey
