import SourceSurvey.Path
import SourceSurvey.Calendar.Instant

/-!
# File trees

A tree maps places to nodes. A place is the list of names from the root down; the root is the empty
list and always a directory. A directory holds the places that extend its own by one name.
-/

namespace SourceSurvey

/-- The names from the root down to a node. -/
abbrev Place := List String

/-- A directory, a file with its bytes and the time of its last change, or a symbolic link. -/
inductive Node where
  | directory
  | file (bytes : List UInt8) (changed : Instant)
  | link (target : String)
  deriving DecidableEq, Repr

/-- A file system: its nodes below the root and the current directory. Files are written at the
time `now`. -/
structure Tree where
  nodes : List (Place × Node) := []
  current : Place := []
  now : Instant

namespace Tree

/-- The node at a place. -/
def find? (t : Tree) (p : Place) : Option Node :=
  if p.isEmpty then some .directory else t.nodes.lookup p

/-- The tree with a node put at a place. -/
def put (t : Tree) (p : Place) (n : Node) : Tree :=
  if t.nodes.any fun e => e.1 == p then
    { t with nodes := t.nodes.map fun e => if e.1 == p then (p, n) else e }
  else { t with nodes := t.nodes ++ [(p, n)] }

/-- The tree without the node at a place. -/
def remove (t : Tree) (p : Place) : Tree := { t with nodes := t.nodes.filter fun e => e.1 != p }

/-- The tree without a place and all places below it. -/
def removeBelow (t : Tree) (p : Place) : Tree :=
  { t with nodes := t.nodes.filter fun e => !p.isPrefixOf e.1 }

/-- The absolute path of a place. -/
def pathOf (p : Place) : Path := ⟨"/" ++ "/".intercalate p⟩

end Tree
end SourceSurvey
