import SourceSurvey.Failure.Basic

/-!
# Strategies

How a run spreads its tasks over workers. An adaptive run chooses by the number of tasks and the
size of the first ones (`Execution.choose`).
-/

namespace SourceSurvey

/-- The strategies that can be asked for. -/
inductive Strategy where
  | pooled
  | cpuBound
  | hybrid
  | adaptive
  deriving DecidableEq, Repr

namespace Strategy

/-- The written name. -/
def name : Strategy → String
  | pooled => "pooled"
  | cpuBound => "cpu-bound"
  | hybrid => "hybrid"
  | adaptive => "adaptive"

/-- The strategies by their written names. -/
def names : List (String × Strategy) :=
  [("pooled", pooled), ("cpu-bound", cpuBound), ("hybrid", hybrid), ("adaptive", adaptive)]

/-- Further names that a person may use. -/
def otherNames : List (String × Strategy) :=
  [("thread", pooled), ("threads", pooled), ("cpu_bound", cpuBound), ("cpu", cpuBound),
    ("process", cpuBound), ("auto", adaptive)]

/-- The strategy that a text in any case names. -/
def parse (text : String) : Except Failure Strategy :=
  match (names ++ otherNames).lookup (text.map Char.toLower) with
  | some s => .ok s
  | none => .error <| .configuration <|
      "Invalid strategy '" ++ text ++ "'. Must be one of: pooled, cpu-bound, hybrid, adaptive"

end Strategy

/-- The ways in which a run is executed. -/
inductive Execution where
  | pooled
  | cpuBound
  | hybrid
  | inline
  deriving DecidableEq, Repr

namespace Execution

/-- The written name. -/
def name : Execution → String
  | pooled => "pooled"
  | cpuBound => "cpu-bound"
  | hybrid => "hybrid"
  | inline => "inline"

/-- The executions by their written names. -/
def names : List (String × Execution) :=
  [("pooled", pooled), ("cpu-bound", cpuBound), ("hybrid", hybrid), ("inline", inline)]

/-- The size above which a file counts as large. -/
def largeFile : Nat := 100 * 1024

/-- The execution of tasks of some sizes. Fewer than ten tasks run on the pool; otherwise the mean
size of the first ten and the number of tasks decide. -/
def choose (sizes : List Nat) : Strategy → Execution
  | .pooled => pooled
  | .cpuBound => cpuBound
  | .hybrid => hybrid
  | .adaptive =>
    if sizes.length < 10 then pooled
    else if largeFile < (sizes.take 10).foldr (· + ·) 0 % UInt64.size / 10 then cpuBound
    else if 100 < sizes.length then hybrid
    else pooled

end Execution
end SourceSurvey
