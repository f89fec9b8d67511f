import SourceSurvey.Failure.System
import SourceSurvey.Path

/-!
# Failures

`Failure` says why an operation failed. An input or output failure may carry a failure of its own,
and a `Report` wraps a cause in texts of context, so the three types refer to each other.
`Failure.message` is the text that is shown, `Failure.kind` the class that decides about a retry:
the kind of a report is that of the first cause with a class under its contexts.
-/

namespace SourceSurvey

/-- The classes of failures. -/
inductive FailureKind where
  | fileNotFound
  | permissionDenied
  | syntaxError
  | memoryExhaustion
  | timeout
  | cacheCorruption
  | unknown
  deriving DecidableEq, Repr

namespace FailureKind

/-- The written name of a class. -/
def name : FailureKind → String
  | fileNotFound => "file-not-found"
  | permissionDenied => "permission-denied"
  | syntaxError => "syntax"
  | memoryExhaustion => "memory-exhaustion"
  | timeout => "timeout"
  | cacheCorruption => "cache-corruption"
  | unknown => "unknown"

/-- All classes. -/
def all : List FailureKind :=
  [fileNotFound, permissionDenied, syntaxError, memoryExhaustion, timeout, cacheCorruption, unknown]

/-- The class of a kind of input and output errors. -/
def ofIo : IoKind → FailureKind
  | .notFound => fileNotFound
  | .permissionDenied => permissionDenied
  | .timedOut => timeout
  | .outOfMemory => memoryExhaustion
  | _ => unknown

end FailureKind

mutual

/-- A failed input or output operation. -/
inductive IoFailure where
  | system (code : SystemCode)
  | plain (kind : IoKind)
  | described (kind : IoKind) (message : String)
  | wrapping (kind : IoKind) (inner : Failure)

/-- Why an operation failed. -/
inductive Failure where
  | io (failure : IoFailure)
  | serialization (detail : String)
  | configuration (message : String)
  | notFound (resource : String) (path : Path)
  | permissionDenied (path : Path)
  | syntaxError (path : Path) (line : Nat) (message : String)
  | memoryExhausted (message : String)
  | timeout (message : String)
  | cacheCorruption (message : String)
  | scheduler (message : String)
  | internal (message : String)
  | other (report : Report)

/-- A cause under any number of contexts. -/
inductive Report where
  | message (text : String)
  | io (failure : IoFailure)
  | failure (failure : Failure)
  | context (text : String) (inner : Report)

end

instance : Inhabited IoFailure := ⟨.plain .other⟩

instance : Inhabited Failure := ⟨.internal ""⟩

/-- The kind of the operation's error. -/
def IoFailure.kind : IoFailure → IoKind
  | system code => code.kind
  | plain kind => kind
  | described kind _ => kind
  | wrapping kind _ => kind

mutual

/-- The text of an input or output failure. -/
def IoFailure.message : IoFailure → String
  | .system code => code.text
  | .plain kind => kind.text
  | .described _ text => text
  | .wrapping _ inner => inner.message

/-- The text of a failure. -/
def Failure.message : Failure → String
  | .io e => "IO error: " ++ e.message
  | .serialization detail => "Serialization error: " ++ detail
  | .configuration text => "Configuration error: " ++ text
  | .notFound resource path => "Not found: " ++ resource ++ " at " ++ path.text
  | .permissionDenied path => "Permission denied: " ++ path.text
  | .syntaxError path line text =>
    "Syntax error in " ++ path.text ++ " at line " ++ toString line ++ ": " ++ text
  | .memoryExhausted text => "Memory exhausted: " ++ text
  | .timeout text => "Operation timed out: " ++ text
  | .cacheCorruption text => "Cache corruption: " ++ text
  | .scheduler text => "Scheduler error: " ++ text
  | .internal text => "Internal error: " ++ text
  | .other report => report.headline

/-- The outermost text of a report. -/
def Report.headline : Report → String
  | .message text => text
  | .io e => e.message
  | .failure e => e.message
  | .context text _ => text

end

mutual

/-- The class of a failure. -/
def Failure.kind : Failure → FailureKind
  | .io e => .ofIo e.kind
  | .notFound _ _ => .fileNotFound
  | .permissionDenied _ => .permissionDenied
  | .syntaxError _ _ _ => .syntaxError
  | .memoryExhausted _ => .memoryExhaustion
  | .timeout _ => .timeout
  | .cacheCorruption _ => .cacheCorruption
  | .other report => report.firstKind?.getD .unknown
  | .serialization _ | .configuration _ | .scheduler _ | .internal _ => .unknown

/-- The class of the first cause that has one, from the outermost context inwards. -/
def Report.firstKind? : Report → Option FailureKind
  | .message _ => none
  | .io e => some (.ofIo e.kind)
  | .failure e => some e.kind
  | .context _ inner => inner.firstKind?

end

mutual

/-- The texts of the causes below an input or output failure. -/
def IoFailure.causes : IoFailure → List String
  | .wrapping _ inner => inner.causes
  | _ => []

/-- The texts of the causes below a failure, from the nearest on. -/
def Failure.causes : Failure → List String
  | .io e => e.message :: e.causes
  | .other report => report.causes
  | .serialization detail => [detail]
  | _ => []

/-- The texts of the causes below the headline of a report. -/
def Report.causes : Report → List String
  | .message _ => []
  | .io e => e.causes
  | .failure e => e.causes
  | .context _ inner => inner.headline :: inner.causes

end

/-- The report with contexts added one after the other; the last one is the outermost. -/
def Report.withContexts (r : Report) (contexts : List String) : Report :=
  contexts.foldl (fun r text => .context text r) r

/-- The headline and all causes in one line. -/
def Report.chain (r : Report) : String := ": ".intercalate (r.headline :: r.causes)

namespace Failure

/-- Whether the failure is a missing file. -/
def isNotFound (e : Failure) : Bool := e.kind = .fileNotFound

/-- The failure to read bytes as text. -/
def invalidText : Failure :=
  .io (.described .invalidData "stream did not contain valid UTF-8")

end Failure
end SourceSurvey
