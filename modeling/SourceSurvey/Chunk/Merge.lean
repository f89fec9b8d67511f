import SourceSurvey.Chunk.Basic
import SourceSurvey.Outline.Extract
import SourceSurvey.Tree.File

/-!
# Reading files in chunks

The records of a file that is read in chunks: every chunk is outlined on its own and the records
are put together. A method whose class header stands in an earlier chunk joins the last class of
that name.
-/

namespace SourceSurvey

/-- How far the reading has come after a chunk. -/
structure ChunkReport where
  index : Nat
  endLine : Nat
  bytesDone : Nat
  deriving DecidableEq, Repr

namespace ChunkReport

/-- The share of the file that is done, at most one. -/
def fraction (r : ChunkReport) (size : Nat) : Float :=
  let f := Float.ofNat r.bytesDone / Float.ofNat (max size 1)
  if f ≤ 1 then f else 1

end ChunkReport

namespace Module

/-- The classes with a method added to the last one of a name. -/
def addContinued (classes : List ClassDef) (name : String) (f : FunctionDef) : List ClassDef :=
  match classes.reverse.findIdx? (·.name == name) with
  | some i => Outline.addMethod classes (classes.length - 1 - i) f
  | none => classes

/-- The record of the chunks so far with the outline of a further chunk. -/
def addOutline (m : Module) (o : Outline) : Module :=
  let classes := o.continued.foldl (fun cs (name, f) => addContinued cs name f) m.classes
  { m with classes }.append o.module

end Module

namespace Chunk

/-- The outline of a chunk. -/
def outline (c : Chunk) (path : Path) : Outline :=
  Outline.extract path c.lines (c.startLine + 1) c.context c.enclosing?

/-- The record of the chunks of a file. -/
def merge (path : Path) (chunks : List Chunk) : Module :=
  let m := chunks.foldl (fun m c => m.addOutline (c.outline path)) (Module.empty path)
  { m with
    lineCount := (chunks.getLast?.map Chunk.endLine).getD 0
    chunkCount := max chunks.length 1 }

/-- The reports of the chunks of a file; `done` bytes are done before them. -/
def reports (done : Nat) : List Chunk → List ChunkReport
  | [] => []
  | c :: rest =>
    { index := c.index, endLine := c.endLine, bytesDone := done + c.ownedBytes } ::
      reports (done + c.ownedBytes) rest

end Chunk

/-- Which files are read in chunks, and how. -/
structure LargeFiles where
  plan : ChunkPlan
  threshold : Nat
  deriving DecidableEq, Repr

namespace LargeFiles

/-- Whether a file of some size is read in chunks. -/
def applies (l : LargeFiles) (size : Nat) : Bool := l.threshold < size

/-- Whether a file is read in chunks. -/
def isLarge (l : LargeFiles) (t : Tree) (path : Path) : Except IoFailure Bool :=
  (t.metadata path).map fun (size, _) => l.applies size

/-- The record of bytes that are read in chunks, with the reports on the way. -/
def parseBytes (l : LargeFiles) (path : Path) (bytes : List UInt8) :
    Except Failure Module × List ChunkReport :=
  let (chunks, ending) := l.plan.chunks bytes
  (match ending with
    | .complete => .ok (Chunk.merge path chunks)
    | .invalidText => .error .invalidText,
    Chunk.reports 0 chunks)

/-- The record of a file that is read in chunks, with the reports on the way and its size. -/
def parseFile (l : LargeFiles) (t : Tree) (path : Path) :
    Except Failure Module × List ChunkReport × Nat :=
  match t.read path with
  | .error e => (.error (.io e), [], 0)
  | .ok bytes =>
    let (result, reports) := l.parseBytes path bytes
    (result, reports, bytes.length)

end LargeFiles

namespace Module

/-- The record of a file that is read at once. -/
def parseFile (t : Tree) (path : Path) : Except Failure Module :=
  match t.readText path with
  | .error e => .error (.io e)
  | .ok text => .ok (Outline.ofText path text)

end Module
end SourceSurvey
