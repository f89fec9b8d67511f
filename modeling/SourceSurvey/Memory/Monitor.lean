import SourceSurvey.Memory.Ledger

/-!
# The memory monitor

The monitor compares readings of the memory in use with a threshold and counts the clean-ups that
it asked for. What a clean-up does is up to the hooks, which run in the order of registration.
-/

namespace SourceSurvey

/-- The largest reading so far, the number of clean-ups and the registered hooks. -/
structure Monitor (Hook : Type) where
  threshold : Float
  peak : Float := 0
  collections : Nat := 0
  hooks : List Hook := []

namespace Monitor

variable {Hook : Type}

/-- The monitor after a reading. -/
def sample (m : Monitor Hook) (reading : Float) : Monitor Hook :=
  { m with peak := Float.larger m.peak reading }

/-- The monitor with one more hook. -/
def register (m : Monitor Hook) (hook : Hook) : Monitor Hook := { m with hooks := m.hooks ++ [hook] }

/-- The monitor after a clean-up, which runs all hooks. -/
def cleanup (m : Monitor Hook) : Monitor Hook := { m with collections := m.collections + 1 }

/-- The monitor after a piece of work with a reading before it and one after it, and whether the
work ended in a clean-up: it does when the second reading is above the threshold. -/
def scope (m : Monitor Hook) (before after : Float) : Monitor Hook × Bool :=
  let m := (m.sample before).sample after
  if m.threshold < after then (m.cleanup, true) else (m, false)

end Monitor
end SourceSurvey
