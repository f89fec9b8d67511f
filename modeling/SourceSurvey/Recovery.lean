import SourceSurvey.Failure.Record
import SourceSurvey.Task.Basic
import SourceSurvey.Tree.Resolve

/-!
# Recovery from failures

Every failed attempt is recorded under the identifier of its task. Whether the task is tried again
depends on the class of the failure and on the retries that are left.
-/

namespace SourceSurvey

namespace Task

/-- The task as it goes on after a failure of some class. After running out of memory it is read in
chunks. -/
def retried (task : Task) (kind : FailureKind) : Task :=
  { task with
    retries := task.retries + 1
    preferChunked := task.preferChunked || kind = .memoryExhaustion }

/-- The record of a task that is given up after a failure. -/
def givenUp (task : Task) (e : Failure) : FailureRecord :=
  { path := task.path, kind := e.kind, message := e.message, attempts := task.attempts }

end Task

/-- The failed attempts by task and the number of retries that were granted. -/
structure Recovery where
  records : List (TaskId × ErrorRecord) := []
  granted : Nat := 0

namespace Recovery

/-- Whether a failure of some class is worth another attempt. A missing file is, if it is there by
now. -/
def isWorthRetry (kind : FailureKind) (present : Bool) : Bool :=
  match kind with
  | .syntaxError | .permissionDenied => false
  | .fileNotFound => present
  | .memoryExhaustion | .timeout | .cacheCorruption | .unknown => true

end Recovery

/-- Whether a failed task is tried again; `present` tells whether its file is there. -/
def Task.goesOn (task : Task) (e : Failure) (present : Bool) : Bool :=
  task.canRetry && Recovery.isWorthRetry e.kind present

namespace Recovery

/-- Records a failed attempt and answers whether the task is tried again, with the task as it goes
on. -/
def handle (r : Recovery) (task : Task) (e : Failure) (present : Bool) (now : Instant) :
    Bool × Task × Recovery :=
  let r := { r with records := r.records ++ [(task.id, ⟨e.kind, e.message, now⟩)] }
  if task.goesOn e present then
    (true, task.retried e.kind, { r with granted := r.granted + 1 })
  else (false, task, r)

/-- The failed attempts of a task in the order in which they happened. -/
def history (r : Recovery) (id : TaskId) : List ErrorRecord :=
  (r.records.filter fun e => e.1 == id).map Prod.snd

/-- Forgets all failed attempts. -/
def clear (r : Recovery) : Recovery := { r with records := [] }

/-- The number of failed attempts of every class that occurred, by the names of the classes. -/
def summary (r : Recovery) : List (FailureKind × Nat) :=
  ((FailureKind.all.map fun k => (k, r.records.countP fun e => e.2.kind = k)).filter
    fun e => e.2 ≠ 0).mergeSort fun a b => (compare a.1.name b.1.name).isLE

end Recovery
end SourceSurvey
