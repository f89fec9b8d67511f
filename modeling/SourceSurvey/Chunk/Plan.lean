/-!
# Plans for reading in chunks

How large a chunk may grow and how much of it the next one repeats.
-/

namespace SourceSurvey

/-- The limits of a chunk in bytes and lines, the number of lines that the next chunk repeats, and
whether to split at lines that start a top-level construct. -/
structure ChunkPlan where
  maxBytes : Nat
  maxLines : Nat
  overlap : Nat
  detectBoundaries : Bool
  deriving DecidableEq, Repr

end SourceSurvey
