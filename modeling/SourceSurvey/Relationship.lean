import SourceSurvey.Module.Basic
import SourceSurvey.PathMap

/-!
# Relationships between modules

The edges that a set of modules declares: imports, classes with their bases and methods, and
functions, module by module in the order of their paths. Whether an edge is resolved depends on the
names that the whole set declares, and on nothing else outside of its module.
-/

namespace SourceSurvey

/-- The names that a set of modules declares. -/
structure KnownNames where
  modules : List String
  classes : List String

namespace KnownNames

/-- The names of all modules and of all their classes. -/
def ofModules (modules : List Module) : KnownNames :=
  { modules := modules.map Module.name
    classes := modules.flatMap fun m => m.classes.map ClassDef.name }

/-- The part of a dotted name after its last dot. -/
def lastSegment (name : List Char) : String := String.ofList (Text.lastField (· == '.') name)

/-- Whether an imported name ends in the name of a known module. -/
def hasModule (k : KnownNames) (target : String) : Bool :=
  k.modules.contains (lastSegment (target.toList.dropWhile (· == '.')))

/-- Whether the name of a base ends in the name of a known class. -/
def hasClass (k : KnownNames) (target : String) : Bool :=
  k.classes.contains (lastSegment target.toList)

end KnownNames

namespace Module

/-- The edges that a module declares, given the names that are known. -/
def edges (m : Module) (known : KnownNames) : List Edge :=
  let edge (kind : EdgeKind) (source target : String) (line : Nat) (resolved : Bool) : Edge :=
    { kind, source, target, sourcePath := m.path, line, resolved }
  let ofImport (i : Import) := edge .imports m.name i.source i.line (known.hasModule i.source)
  let ofClass (c : ClassDef) :=
    let name := m.name ++ "." ++ c.name
    edge .contains m.name name c.line true ::
      (c.bases.map fun base => edge .inherits name base c.line (known.hasClass base)) ++
      c.methods.map fun f => edge .contains name (name ++ "." ++ f.name) f.line true
  let ofFunction (f : FunctionDef) :=
    edge .contains m.name (m.name ++ "." ++ f.name) f.line true
  m.imports.map ofImport ++ m.classes.flatMap ofClass ++ m.functions.map ofFunction

end Module

/-- The edges of a set of modules. -/
def PathMap.edges (modules : PathMap Module) : List Edge :=
  let known := KnownNames.ofModules modules.values
  modules.values.flatMap fun m => m.edges known

end SourceSurvey
