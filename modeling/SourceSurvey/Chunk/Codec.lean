import SourceSurvey.Chunk.Plan
import SourceSurvey.Json.Decoder

/-!
# Chunk plans as JSON
-/

namespace SourceSurvey
namespace ChunkPlan

open Json (required natural? bool?)

def toJson (p : ChunkPlan) : Json :=
  .object [("max_bytes", .natural p.maxBytes), ("max_lines", .natural p.maxLines),
    ("overlap_lines", .natural p.overlap), ("detect_boundaries", .bool p.detectBoundaries)]

def ofJson? (j : Json) : Option ChunkPlan := do
  let [bytes, lines, overlap, detect] ←
    Json.record? ["max_bytes", "max_lines", "overlap_lines", "detect_boundaries"] j | none
  return {
    maxBytes := ← required natural? bytes
    maxLines := ← required natural? lines
    overlap := ← required natural? overlap
    detectBoundaries := ← required bool? detect }

end ChunkPlan
end SourceSurvey
