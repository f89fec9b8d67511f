import SourceSurvey.Failure.Basic
import SourceSurvey.Calendar.Instant
import SourceSurvey.Module.Codec

/-!
# Records of failures

A `FailureRecord` says in the result of a run that a file could not be processed, an `ErrorRecord`
in the history of a task that one attempt failed.
-/

namespace SourceSurvey

open Json (required string?)

namespace FailureKind

/-- The classes by their written names. -/
def names : List (String × FailureKind) := all.map fun k => (k.name, k)

end FailureKind

/-- A file that could not be processed, with its last failure. -/
structure FailureRecord where
  path : Path
  kind : FailureKind
  message : String
  attempts : Nat
  deriving DecidableEq, Repr

namespace FailureRecord

def toJson (r : FailureRecord) : Json :=
  .object [("path", r.path.toJson), ("kind", .string r.kind.name), ("message", .string r.message),
    ("attempts", .natural r.attempts)]

def ofJson? (j : Json) : Option FailureRecord := do
  let [path, kind, message, attempts] ← Json.record? ["path", "kind", "message", "attempts"] j | none
  return {
    path := ← required Path.ofJson? path
    kind := ← required (Json.choice? FailureKind.names) kind
    message := ← required string? message
    attempts := ← required (Json.word? 32) attempts }

end FailureRecord

namespace Instant

def toJson (t : Instant) : Json := .string t.print

def ofJson? (j : Json) : Option Instant := (string? j).bind Instant.ofString?

end Instant

/-- One failed attempt. -/
structure ErrorRecord where
  kind : FailureKind
  message : String
  time : Instant
  deriving DecidableEq, Repr

namespace ErrorRecord

def toJson (r : ErrorRecord) : Json :=
  .object [("kind", .string r.kind.name), ("message", .string r.message), ("at", r.time.toJson)]

def ofJson? (j : Json) : Option ErrorRecord := do
  let [kind, message, time] ← Json.record? ["kind", "message", "at"] j | none
  return {
    kind := ← required (Json.choice? FailureKind.names) kind
    message := ← required string? message
    time := ← required Instant.ofJson? time }

end ErrorRecord
end SourceSurvey
