import SourceSurvey.Task.Identifier
import SourceSurvey.PathMap

/-!
# Tasks

A task is the work on one file. Tasks run in descending order of priority, which prefers small
files, entry points and configuration and puts tests last; equal priorities are ordered by path.
-/

namespace SourceSurvey

/-- The work on one file. `retries` counts the attempts after the first one; a task that prefers
chunks is read in windows whatever its size. -/
structure Task where
  id : TaskId
  path : Path
  size : Nat
  priority : Int
  dependencies : PathMap Unit := .empty
  retries : Nat := 0
  maxRetries : Nat
  preferChunked : Bool := false

namespace Task

/-- Files at which a package or a program starts. -/
def entryPoints : List String :=
  ["__init__.py", "__main__.py", "main.py", "app.py", "setup.py", "manage.py"]

/-- Files that usually configure the rest. -/
def configurationFiles : List String := ["settings.py", "config.py", "conftest.py"]

/-- Whether a file holds tests, by its name or by a directory above it. -/
def isTest (path : Path) : Bool :=
  let stem := (path.fileStem?.getD "").toList
  "test_".toList.isPrefixOf stem || "_test".toList.isSuffixOf stem ||
    (path.parent?.map fun p => p.components.any fun c => c.text = "tests" || c.text = "test").getD
      false

/-- The share of the size in the priority. -/
def sizePriority (size : Nat) : Int :=
  if size < 1024 then 30 else if size < 10 * 1024 then 20 else if size < 100 * 1024 then 10 else 0

/-- The share of the file name in the priority. -/
def namePriority (name : String) : Int :=
  if entryPoints.contains name then 50 else if configurationFiles.contains name then 40 else 0

/-- The priority of a file; higher ones run first. -/
def priorityOf (path : Path) (size : Nat) : Int :=
  sizePriority size + namePriority (path.fileName?.getD "") - if isTest path then 25 else 0

/-- A fresh task for a file of some size. -/
def ofFile (path : Path) (size maxRetries : Nat) : Task :=
  { id := .ofPath path, path, size, priority := priorityOf path size, maxRetries }

/-- The task with further dependencies. -/
def addDependencies (t : Task) (paths : List Path) : Task :=
  { t with dependencies := paths.foldl (fun m p => m.insert p ()) t.dependencies }

/-- Whether another attempt is allowed. -/
def canRetry (t : Task) : Bool := t.retries < t.maxRetries

/-- The attempts made so far, with the one that is under way. -/
def attempts (t : Task) : Nat := t.retries + 1

/-- Whether one task runs no later than another. -/
def runsBefore (a b : Task) : Bool :=
  b.priority < a.priority || (a.priority = b.priority && (a.path.order b.path).isLE)

/-- The tasks in the order in which they run. -/
def sortByPriority (tasks : List Task) : List Task := tasks.mergeSort runsBefore

end Task
end SourceSurvey
