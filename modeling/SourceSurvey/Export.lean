import SourceSurvey.Module.Codec
import SourceSurvey.Json.Printer
import SourceSurvey.PathMap
import SourceSurvey.Tree.File

/-!
# Exports

The modules and edges of a survey as lines of JSON, one record a line: first the modules in the
order of their paths, then the edges. The file is written beside its place first and then moved
there.
-/

namespace SourceSurvey

/-- What was exported and where to. -/
structure ExportSummary where
  modules : Nat
  edges : Nat
  destination? : Option Path := none
  bytesWritten : Nat := 0
  deriving DecidableEq, Repr

namespace ExportSummary

def toJson (s : ExportSummary) : Json :=
  .object [("modules", .natural s.modules), ("relationships", .natural s.edges),
    ("destination", .optional Path.toJson s.destination?),
    ("bytes_written", .natural s.bytesWritten)]

end ExportSummary

/-- Where a survey is exported to: nowhere, or to a file of JSON lines. -/
inductive Exporter where
  | none
  | jsonLines (path : Path)
  deriving DecidableEq, Repr

namespace Exporter

/-- The name of the kind of export. -/
def name : Exporter → String
  | none => "null"
  | jsonLines _ => "jsonl"

/-- A record with its type in front. -/
def record (type : String) (fields : List (String × Json)) : Json :=
  .object (("type", .string type) :: fields)

/-- The records of a survey in the order in which they are written. -/
def records (modules : PathMap Module) (edges : List Edge) : List Json :=
  (modules.values.map fun m => record "module" m.jsonFields) ++
    edges.map fun e => record "relationship" e.jsonFields

/-- The lines of a survey, each with a line feed at its end. -/
def lines (modules : PathMap Module) (edges : List Edge) : List Char :=
  (records modules edges).flatMap fun j => j.print ++ ['\n']

/-- The path beside a destination at which the lines are written first. -/
def draftPath (p : Path) : Path := ⟨p.text ++ ".tmp"⟩

/-- Makes the directory of a destination. -/
def prepareParent (t : Tree) (p : Path) : Tree × Except IoFailure Unit :=
  t.createParent (·.text = "") p

/-- Exports a survey. -/
def run (e : Exporter) (t : Tree) (modules : PathMap Module) (edges : List Edge) :
    Tree × Except Failure ExportSummary :=
  let summary : ExportSummary := { modules := modules.size, edges := edges.length }
  match e with
  | none => (t, .ok summary)
  | jsonLines p =>
    match prepareParent t p with
    | (t, .error e) => (t, .error (.io e))
    | (t, .ok ()) =>
      let bytes := (String.ofList (lines modules edges)).toUTF8.toList
      match t.write (draftPath p) bytes with
      | .error e => ((t.removeFile (draftPath p)).toOption.getD t, .error (.io e))
      | .ok t =>
        match t.rename (draftPath p) p with
        | .error e => (t, .error (.io e))
        | .ok t => (t, .ok { summary with destination? := some p, bytesWritten := bytes.length })

end Exporter
end SourceSurvey
