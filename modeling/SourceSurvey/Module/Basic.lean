import SourceSurvey.Path

/-!
# Records of a module

What one source file declares: its imports, classes with their methods, functions and variables,
each with the line it stands on.
-/

namespace SourceSurvey

/-- An `import x` or a `from x import a, b` statement. A plain import has no names. -/
structure Import where
  source : String
  names : List String := []
  alias? : Option String := none
  line : Nat
  deriving DecidableEq, Repr

/-- A function or a method. -/
structure FunctionDef where
  name : String
  line : Nat
  parameters : List String := []
  isAsync : Bool := false
  deriving DecidableEq, Repr

/-- A class with the methods that stand directly in it. -/
structure ClassDef where
  name : String
  line : Nat
  bases : List String := []
  methods : List FunctionDef := []
  deriving DecidableEq, Repr

/-- An assignment at the top level. -/
structure Variable where
  name : String
  line : Nat
  deriving DecidableEq, Repr

/-- The record of one source file. `chunkCount` is the number of windows it was read in. -/
structure Module where
  path : Path
  name : String
  imports : List Import := []
  classes : List ClassDef := []
  functions : List FunctionDef := []
  globals : List Variable := []
  lineCount : Nat := 0
  chunkCount : Nat := 1
  deriving DecidableEq, Repr

namespace Module

/-- The name of the module in a file: the file name without extension, or the directory's name for
the file that stands for its package. -/
def nameOf (path : Path) : String :=
  let stem := path.fileStem?.getD ""
  if stem = "__init__" then ((path.parent?.bind Path.fileName?).getD stem) else stem

/-- The record of a file in which nothing was found. -/
def empty (path : Path) : Module := { path, name := nameOf path }

/-- The number of classes, methods, functions and variables. -/
def definitionCount (m : Module) : Nat :=
  m.classes.length + (m.classes.map fun c => c.methods.length).foldr (· + ·) 0 +
    m.functions.length + m.globals.length

/-- The records of both modules, those of the first one first; all else is the first one's. -/
def append (m n : Module) : Module :=
  { m with
    imports := m.imports ++ n.imports
    classes := m.classes ++ n.classes
    functions := m.functions ++ n.functions
    globals := m.globals ++ n.globals }

end Module

/-- What an edge between two elements says. -/
inductive EdgeKind where
  | contains
  | imports
  | inherits
  deriving DecidableEq, Repr

/-- An edge from one element to another that a module declares. It is `resolved` when the target is
an element of the surveyed modules. -/
structure Edge where
  kind : EdgeKind
  source : String
  target : String
  sourcePath : Path
  line : Nat
  resolved : Bool := false
  deriving DecidableEq, Repr

end SourceSurvey
