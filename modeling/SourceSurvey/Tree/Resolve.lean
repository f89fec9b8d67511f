import SourceSurvey.Tree.Basic
import SourceSurvey.Failure.Basic

/-!
# Following paths

`Tree.resolve` follows a path piece by piece through directories and symbolic links. It ends at a
node, at a free name in a directory, or at an error. The recursion is bounded by the number of
links that may be followed and, between links, by the number of pieces.
-/

namespace SourceSurvey
namespace Tree

/-- Where a path leads: to a node, or to a name that is free in its directory. `slash` tells that
the path ends in a slash, so that only a directory may come to stand there. -/
inductive Target where
  | found (place : Place) (node : Node)
  | free (directory : Place) (name : String) (slash : Bool)
  deriving DecidableEq, Repr

/-- The number of symbolic links that are followed for one path. -/
def linkLimit : Nat := 40

/-- The longest name in bytes. -/
def nameLimit : Nat := 255

/-- The longest path in bytes. -/
def pathLimit : Nat := 4095

/-- Follows pieces from a directory. A link at the end is followed if `follow` is set or if a slash
comes after it. -/
def walk (t : Tree) (follow : Bool) (links : Nat) (place : Place) (pieces : List String) :
    Except SystemCode Target :=
  match pieces with
  | [] => .ok (.found place .directory)
  | piece :: rest =>
    if piece = "" || piece = "." then t.walk follow links place rest
    else if piece = ".." then t.walk follow links place.dropLast rest
    else if nameLimit < piece.utf8ByteSize then .error .nameTooLong
    else
      let next := place ++ [piece]
      match t.find? next with
      | none =>
        if rest.all (· = "") then .ok (.free place piece !rest.isEmpty) else .error .noEntry
      | some .directory => t.walk follow links next rest
      | some (.file bytes changed) =>
        if rest.isEmpty then .ok (.found next (.file bytes changed)) else .error .notDirectory
      | some (.link target) =>
        if rest.isEmpty && !follow then .ok (.found next (.link target))
        else
          match links with
          | 0 => .error .linkLoop
          | links + 1 =>
            let link : Path := ⟨target⟩
            t.walk follow links (if link.isAbsolute then [] else place) (link.pieces ++ rest)
  termination_by (links, pieces.length)

/-- Follows a path from the current directory. -/
def resolve (t : Tree) (follow : Bool) (p : Path) : Except IoFailure Target :=
  if p.text.toList.contains '\x00' then
    .error (.described .other "file name contained an unexpected NUL byte")
  else if p.text = "" then .error (.system .noEntry)
  else if pathLimit < p.text.utf8ByteSize then .error (.system .nameTooLong)
  else
    match t.walk follow linkLimit (if p.isAbsolute then [] else t.current) p.pieces with
    | .ok target => .ok target
    | .error code => .error (.system code)

/-- The node that a path leads to, through links at its end too. -/
def locate (t : Tree) (p : Path) : Except IoFailure (Place × Node) :=
  match t.resolve true p with
  | .ok (.found place node) => .ok (place, node)
  | .ok (.free _ _ _) => .error (.system .noEntry)
  | .error e => .error e

/-- Whether a path leads to a node. -/
def exists? (t : Tree) (p : Path) : Bool := (t.locate p).isOk

/-- Whether a path leads to a directory. -/
def isDirectory (t : Tree) (p : Path) : Bool :=
  match t.locate p with
  | .ok (_, .directory) => true
  | _ => false

/-- The absolute path without links of the node that a path leads to. -/
def canonical (t : Tree) (p : Path) : Except IoFailure Path :=
  (t.locate p).map fun (place, _) => pathOf place

end Tree
end SourceSurvey
