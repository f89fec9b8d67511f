import SourceSurvey.Calendar.Instant

/-!
# Metrics of a run

Counters and times of a run and what follows from them.
-/

namespace SourceSurvey

/-- The length of a span of nanoseconds in seconds. -/
def spanSeconds (nanos : Nat) : Float :=
  Float.ofNat (nanos / 1000000000) + Float.ofNat (nanos % 1000000000) / 1000000000

/-- What a run counted. Skipped files were served without parsing. -/
structure Metrics (α : Type) where
  total : Nat
  processed : Nat := 0
  failed : Nat := 0
  skipped : Nat := 0
  startedAt : Instant
  finishedAt? : Option Instant := none
  peakMemory : α
  recoveries : Nat := 0

namespace Metrics

variable {α : Type}

/-- The share of attempted files that were processed, in percent; all of none. -/
def successRate (m : Metrics α) : Float :=
  let attempted := m.processed + m.failed
  if attempted = 0 then 100 else Float.ofNat m.processed / Float.ofNat attempted * 100

/-- The nanoseconds from the start to the end, or to now for an unfinished run; none for an end
before the start. -/
def nanos (m : Metrics α) (now : Instant) : Nat :=
  ((m.finishedAt?.getD now).total - m.startedAt.total).toNat

/-- The time that a run took, in seconds. -/
def seconds (m : Metrics α) (now : Instant) : Float := spanSeconds (m.nanos now)

/-- The processed files in a second. -/
def throughput (m : Metrics α) (now : Instant) : Float :=
  let s := m.seconds now
  if 0 < s then Float.ofNat m.processed / s else 0

end Metrics
end SourceSurvey
