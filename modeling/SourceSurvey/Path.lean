import SourceSurvey.Text.Fields

/-!
# Paths

A path is its text; it is read as a list of components. Empty pieces and inner `.` pieces name
nothing, so several texts have one list of components. Two paths are the same place in a listing
iff their components agree, and listings are ordered by components (`Path.order`), not by text.
-/

namespace SourceSurvey

/-- One step of a path: the root, the current directory, the parent directory or a name. -/
inductive Component where
  | root
  | here
  | up
  | name (text : String)
  deriving DecidableEq, Repr

namespace Component

/-- The place of a component among the four kinds. -/
def rank : Component → Nat
  | root => 0
  | here => 1
  | up => 2
  | name _ => 3

/-- Kinds come in the order root, current, parent, name; names are ordered by their text. -/
def order : Component → Component → Ordering
  | name a, name b => compare a b
  | a, b => compare a.rank b.rank

/-- The text of a component. -/
def text : Component → String
  | root => "/"
  | here => "."
  | up => ".."
  | name t => t

/-- The component that a piece between slashes names. -/
def ofPiece (piece : String) : Component :=
  if piece = "." then here else if piece = ".." then up else name piece

end Component

/-- A path, as it is written. -/
structure Path where
  text : String
  deriving DecidableEq, Repr, Inhabited

namespace Path

/-- The pieces of the text between slashes. -/
def pieces (p : Path) : List String :=
  (Text.fields (· == '/') p.text.toList).map String.ofList

/-- Pieces that name nothing when other pieces stand before them. -/
def isIdle (piece : String) : Bool := piece = "" || piece = "."

/-- Whether the path starts at the root. -/
def isAbsolute (p : Path) : Bool := p.text.toList.head? = some '/'

/-- The steps that the path names, from the left. -/
def components (p : Path) : List Component :=
  match p.pieces with
  | [] => []
  | first :: rest =>
    let rest := (rest.filter (!isIdle ·)).map Component.ofPiece
    if p.isAbsolute then .root :: rest
    else if first = "" then rest
    else .ofPiece first :: rest

/-- Component-wise order of two lists of steps; a proper beginning comes first. -/
def orderComponents : List Component → List Component → Ordering
  | [], [] => .eq
  | [], _ :: _ => .lt
  | _ :: _, [] => .gt
  | a :: as, b :: bs => (a.order b).then (orderComponents as bs)

/-- The order of paths in every listing. -/
def order (p q : Path) : Ordering := orderComponents p.components q.components

/-- Whether two paths have the same components. -/
def same (p q : Path) : Bool := p.components = q.components

/-- The last step, if it is a name. -/
def fileName? (p : Path) : Option String :=
  match p.components.getLast? with
  | some (.name t) => some t
  | _ => none

/-- A file name cut at its last dot. A name that starts with its only dot, or has none, is not
cut. -/
def cutName (name : String) : String × Option String :=
  let cs := name.toList
  let after := Text.lastField (· == '.') cs
  let before := cs.take (cs.length - after.length - 1)
  if after.length = cs.length || before.isEmpty then (name, none)
  else (String.ofList before, some (String.ofList after))

/-- The file name without its extension. -/
def fileStem? (p : Path) : Option String := p.fileName?.map fun n => (cutName n).1

/-- The pieces without those at the end that name nothing. -/
def dropIdle (pieces : List String) : List String := (pieces.reverse.dropWhile isIdle).reverse

/-- The text of the path cut after its last step, split into what stands before that step and the
step itself. -/
def cutLast? (p : Path) : Option (List String × String) :=
  match p.pieces with
  | [] => none
  | first :: rest =>
    let body := dropIdle rest
    match body.getLast? with
    | some last => some (first :: body.dropLast, last)
    | none => if p.isAbsolute || first = "" then none else some ([], first)

/-- The path without its last step. The root and the empty path have none. -/
def parent? (p : Path) : Option Path :=
  p.cutLast?.map fun (before, _) =>
    match before with
    | [] => ⟨""⟩
    | first :: rest =>
      let body := dropIdle rest
      if body.isEmpty && p.isAbsolute then ⟨"/"⟩
      else ⟨"/".intercalate (first :: body)⟩

/-- The path without slashes at its end, except for the root. -/
def withoutSlashes (p : Path) : Path :=
  let cs := (p.text.toList.reverse.dropWhile (· = '/')).reverse
  if cs.isEmpty then p else ⟨String.ofList cs⟩

/-- The second path seen from the first; an absolute second path stands for itself. -/
def join (p q : Path) : Path :=
  if q.isAbsolute then q
  else if p.text = "" || p.text.toList.getLast? = some '/' then ⟨p.text ++ q.text⟩
  else ⟨p.text ++ "/" ++ q.text⟩

/-- The path with another extension on its file name. -/
def withExtension (p : Path) (extension : String) : Path :=
  match p.fileStem?, p.cutLast? with
  | some stem, some (before, _) =>
    ⟨"/".intercalate (before ++ [if extension = "" then stem else stem ++ "." ++ extension])⟩
  | _, _ => p

end Path
end SourceSurvey
