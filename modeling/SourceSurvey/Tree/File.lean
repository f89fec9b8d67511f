import SourceSurvey.Tree.Resolve
import SourceSurvey.Text.Lines

/-!
# Files of a tree

Reading, writing, renaming and removing. An operation that can fail changes nothing when it does,
except that `createDirectories` keeps the directories that it has already made.
-/

namespace SourceSurvey
namespace Tree

/-- The bytes of a file. -/
def read (t : Tree) (p : Path) : Except IoFailure (List UInt8) := do
  match ← t.locate p with
  | (_, .file bytes _) => .ok bytes
  | _ => .error (.system .isDirectory)

/-- The text of a file. -/
def readText (t : Tree) (p : Path) : Except IoFailure (List Char) := do
  match Text.decode? (← t.read p) with
  | some text => .ok text
  | none => .error (.described .invalidData "stream did not contain valid UTF-8")

/-- The size of a node in bytes and the time of its last change. -/
def metadata (t : Tree) (p : Path) : Except IoFailure (Nat × Instant) := do
  match ← t.locate p with
  | (_, .file bytes changed) => .ok (bytes.length, changed)
  | _ => .ok (4096, t.now)

/-- Writes a file, which replaces the bytes of a present one. -/
def write (t : Tree) (p : Path) (bytes : List UInt8) : Except IoFailure Tree := do
  match ← t.resolve true p with
  | .found place (.file _ _) => .ok (t.put place (.file bytes t.now))
  | .found _ _ => .error (.system .isDirectory)
  | .free directory name slash =>
    if slash then .error (.system .isDirectory)
    else .ok (t.put (directory ++ [name]) (.file bytes t.now))

/-- Makes a directory at a free name. -/
def createDirectory (t : Tree) (p : Path) : Except IoFailure Tree := do
  match ← t.resolve false p with
  | .found _ _ => .error (.system .alreadyExists)
  | .free directory name _ => .ok (t.put (directory ++ [name]) .directory)

/-- Makes a directory and all directories above it that are missing, and tells whether it is there
in the end. `depth` bounds the number of directories above; the number of components is enough. -/
def createUpTo (t : Tree) (p : Path) : Nat → Tree × Except IoFailure Unit
  | 0 => (t, .error (.system .noEntry))
  | depth + 1 =>
    if p.text = "" then (t, .ok ())
    else
      match t.createDirectory p with
      | .ok t => (t, .ok ())
      | .error e =>
        if e.kind = .notFound then
          match p.parent? with
          | none => (t, .error (.described .other "failed to create whole tree"))
          | some parent =>
            match t.createUpTo parent depth with
            | (t, .error e) => (t, .error e)
            | (t, .ok ()) =>
              match t.createDirectory p with
              | .ok t => (t, .ok ())
              | .error e => (t, if t.isDirectory p then .ok () else .error e)
        else (t, if t.isDirectory p then .ok () else .error e)

/-- Makes a directory and all directories above it that are missing. -/
def createDirectories (t : Tree) (p : Path) : Tree × Except IoFailure Unit :=
  t.createUpTo p (p.pieces.length + 2)

/-- Makes the directory above a path and all directories above it that are missing, unless it counts
as made. -/
def createParent (t : Tree) (made : Path → Bool) (p : Path) : Tree × Except IoFailure Unit :=
  match p.parent? with
  | some parent => if made parent then (t, .ok ()) else t.createDirectories parent
  | none => (t, .ok ())

/-- Moves a file or a link to another name and replaces what stands there, unless it is a
directory. -/
def rename (t : Tree) (source target : Path) : Except IoFailure Tree := do
  match ← t.resolve false source with
  | .free _ _ _ => .error (.system .noEntry)
  | .found _ .directory => .error (.system .invalid)
  | .found old node =>
    let goal ← t.resolve false target.withoutSlashes
    if ["", ".", ".."].contains (target.withoutSlashes.pieces.getLastD "") then .error (.system .busy)
    else if target.withoutSlashes != target then .error (.system .notDirectory)
    else
      match goal with
      | .found _ .directory => .error (.system .isDirectory)
      | .found place _ => .ok (if place = old then t else (t.remove old).put place node)
      | .free directory name _ => .ok ((t.remove old).put (directory ++ [name]) node)

/-- Removes a file or a link. -/
def removeFile (t : Tree) (p : Path) : Except IoFailure Tree := do
  match ← t.resolve false p with
  | .free _ _ _ => .error (.system .noEntry)
  | .found _ .directory => .error (.system .isDirectory)
  | .found place _ => .ok (t.remove place)

/-- Removes a directory with everything below it, or a link. -/
def removeDirectory (t : Tree) (p : Path) : Except IoFailure Tree := do
  match ← t.resolve false p with
  | .free _ _ _ => .error (.system .noEntry)
  | .found _ (.file _ _) => .error (.system .notDirectory)
  | .found place _ => .ok (t.removeBelow place)

/-- The tree with the time of the last change of a file set. -/
def touch (t : Tree) (p : Path) (time : Instant) : Tree :=
  match t.locate p with
  | .ok (place, .file bytes _) => t.put place (.file bytes time)
  | _ => t

end Tree
end SourceSurvey
