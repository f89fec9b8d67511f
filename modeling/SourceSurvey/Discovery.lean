import SourceSurvey.Glob.Match
import SourceSurvey.Settings.Basic
import SourceSurvey.Tree.Resolve
import SourceSurvey.PathMap

/-!
# Discovery

Which files a survey looks at: the files that are named as roots and the files below the
directories that are named as roots, as far as the patterns accept their paths. Links below a root
are not followed, and nothing below a hidden name is looked at unless the settings say so. Names are
told by their bytes. A directory that the walk comes to and cannot read ends the discovery.
-/

namespace SourceSurvey

/-- The patterns and the rule for hidden names. -/
structure Discovery where
  included : List Glob
  excluded : List Glob
  skipHidden : Bool

namespace Discovery

/-- The patterns of some texts, or a configuration failure that names the first bad one. -/
def globs : List String → Except Failure (List Glob)
  | [] => .ok []
  | text :: rest => do
    match Glob.ofString text with
    | .ok g => return g :: (← globs rest)
    | .error e => .error <| .configuration <|
        "Invalid glob '" ++ text ++ "': error parsing glob '" ++ text ++ "': " ++ e.message

/-- The discovery that settings describe. -/
def ofSettings (s : DiscoverySettings) : Except Failure Discovery := do
  return { included := ← globs s.included, excluded := ← globs s.excluded
           skipHidden := s.skipHidden }

/-- Whether the patterns accept a path. No pattern for inclusion accepts every path. -/
def accepts (d : Discovery) (p : Path) : Bool :=
  (d.included.isEmpty || d.included.any (·.accepts p.text)) && !d.excluded.any (·.accepts p.text)

/-- Whether a name is hidden: it starts with a dot. A name whose bytes are no text is never hidden. -/
def isHidden (name : List UInt8) : Bool :=
  match Text.decode? name with
  | some text => text.head? = some '.'
  | none => false

/-- Whether the walk comes to an entry with such names below a root. -/
def shows (d : Discovery) (names : List (List UInt8)) : Bool := !d.skipHidden || !names.any isHidden

/-- The entries below a place, with the names that lead from there to them. Whatever names are, they
are told apart. -/
def entriesBelow {ν : Type} [BEq ν] (nodes : List (List ν × Node)) (place : List ν) :
    List (List ν × Node) :=
  nodes.filterMap fun (p, node) =>
    if place.isPrefixOf p && p != place then some (p.drop place.length, node) else none

/-- The entries below a place that the walk comes to, by the bytes of their names. -/
def visited {ν : Type} [BEq ν] (d : Discovery) (bytes : ν → List UInt8)
    (nodes : List (List ν × Node)) (place : List ν) : List (List ν × Node) :=
  (entriesBelow nodes place).filter fun e => d.shows (e.1.map bytes)

/-- The bytes of a name of a tree. -/
def nameBytes (name : String) : List UInt8 := Text.encode name.toList

/-- The path of a place below a root. -/
def pathBelow (root : Path) (names : List String) : Path :=
  names.foldl (fun p name => p.join ⟨name⟩) root

/-- The accepted files of a root. A root that is not there has none. -/
def filesOf (d : Discovery) (t : Tree) (root : Path) : List Path :=
  match t.locate root with
  | .error _ | .ok (_, .link _) => []
  | .ok (_, .file _ _) => if d.accepts root then [root] else []
  | .ok (place, .directory) =>
    (d.visited nameBytes t.nodes place).filterMap fun (names, node) =>
      match node with
      | .file _ _ => if d.accepts (pathBelow root names) then some (pathBelow root names) else none
      | _ => none

/-- The accepted files of all roots, each once and in order. A file that several roots lead to by
paths with the same components is written as the first of them leads to it. -/
def run (d : Discovery) (t : Tree) (roots : List Path) : List Path :=
  ((roots.flatMap (d.filesOf t)).foldl (fun m p => m.insert p ()) (PathMap.empty : PathMap Unit)).keys

/-- Whether a path is longer than the system takes. -/
def isLong (p : Path) : Bool := Tree.pathLimit < p.text.utf8ByteSize

/-- A directory below a root that the walk comes to and cannot read, since its path is too long. The
directory above it has been read; of several such directories it is the first one of the tree. -/
def unreadable? (d : Discovery) (t : Tree) (root : Path) : Option Path :=
  match t.locate root with
  | .ok (place, .directory) =>
    (d.visited nameBytes t.nodes place).findSome? fun (names, node) =>
      if node = .directory && isLong (pathBelow root names) &&
          !isLong (pathBelow root names.dropLast) then
        some (pathBelow root names)
      else none
  | _ => none

/-- The failure of a walk at a directory that cannot be read. -/
def failure (root p : Path) : Failure :=
  .io <| .described .other <|
    "Failed to walk " ++ root.text ++ ": IO error for operation on " ++ p.text ++ ": " ++
      SystemCode.nameTooLong.text

/-- Finds the accepted files of all roots, unless the walk below one of them fails. -/
def discover (d : Discovery) (t : Tree) (roots : List Path) : Except Failure (List Path) :=
  match roots.findSome? fun root => (d.unreadable? t root).map (failure root) with
  | some e => .error e
  | none => .ok (d.run t roots)

end Discovery
end SourceSurvey
