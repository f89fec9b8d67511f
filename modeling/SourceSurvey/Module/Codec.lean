import SourceSurvey.Module.Basic
import SourceSurvey.Json.Decoder

/-!
# Module records as JSON

Every record is written as an object with all its fields in one order. Reading accepts what
`Json.record?` accepts; the fields that may be missing are the lists, the alias, the two flags and
the number of chunks.
-/

namespace SourceSurvey

open Json (required defaulted nullable string? natural? list? bool?)

namespace Path

/-- A path is written as its text. -/
def toJson (p : Path) : Json := .string p.text

def ofJson? (j : Json) : Option Path := (string? j).map Path.mk

end Path

namespace Import

def toJson (i : Import) : Json :=
  .object [("module", .string i.source), ("names", .strings i.names),
    ("alias", .optional .string i.alias?), ("line", .natural i.line)]

def ofJson? (j : Json) : Option Import := do
  let [source, names, name?, line] ← Json.record? ["module", "names", "alias", "line"] j | none
  return {
    source := ← required string? source
    names := ← defaulted (list? string?) [] names
    alias? := ← defaulted (nullable string?) none name?
    line := ← required natural? line }

end Import

namespace FunctionDef

def toJson (f : FunctionDef) : Json :=
  .object [("name", .string f.name), ("line", .natural f.line),
    ("parameters", .strings f.parameters), ("is_async", .bool f.isAsync)]

def ofJson? (j : Json) : Option FunctionDef := do
  let [name, line, parameters, isAsync] ←
    Json.record? ["name", "line", "parameters", "is_async"] j | none
  return {
    name := ← required string? name
    line := ← required natural? line
    parameters := ← defaulted (list? string?) [] parameters
    isAsync := ← defaulted bool? false isAsync }

end FunctionDef

namespace ClassDef

def toJson (c : ClassDef) : Json :=
  .object [("name", .string c.name), ("line", .natural c.line), ("bases", .strings c.bases),
    ("methods", .array (c.methods.map FunctionDef.toJson))]

def ofJson? (j : Json) : Option ClassDef := do
  let [name, line, bases, methods] ← Json.record? ["name", "line", "bases", "methods"] j | none
  return {
    name := ← required string? name
    line := ← required natural? line
    bases := ← defaulted (list? string?) [] bases
    methods := ← defaulted (list? FunctionDef.ofJson?) [] methods }

end ClassDef

namespace Variable

def toJson (v : Variable) : Json := .object [("name", .string v.name), ("line", .natural v.line)]

def ofJson? (j : Json) : Option Variable := do
  let [name, line] ← Json.record? ["name", "line"] j | none
  return { name := ← required string? name, line := ← required natural? line }

end Variable

namespace Module

/-- The fields of a module record. -/
def jsonFields (m : Module) : List (String × Json) :=
  [("path", m.path.toJson), ("module_name", .string m.name),
    ("imports", .array (m.imports.map Import.toJson)),
    ("classes", .array (m.classes.map ClassDef.toJson)),
    ("functions", .array (m.functions.map FunctionDef.toJson)),
    ("variables", .array (m.globals.map Variable.toJson)),
    ("line_count", .natural m.lineCount), ("chunk_count", .natural m.chunkCount)]

def toJson (m : Module) : Json := .object m.jsonFields

def ofJson? (j : Json) : Option Module := do
  let [path, name, imports, classes, functions, globals, lineCount, chunkCount] ←
    Json.record? ["path", "module_name", "imports", "classes", "functions", "variables",
      "line_count", "chunk_count"] j | none
  return {
    path := ← required Path.ofJson? path
    name := ← required string? name
    imports := ← defaulted (list? Import.ofJson?) [] imports
    classes := ← defaulted (list? ClassDef.ofJson?) [] classes
    functions := ← defaulted (list? FunctionDef.ofJson?) [] functions
    globals := ← defaulted (list? Variable.ofJson?) [] globals
    lineCount := ← required natural? lineCount
    chunkCount := ← defaulted natural? 1 chunkCount }

end Module

namespace EdgeKind

/-- The written names of the kinds. -/
def names : List (String × EdgeKind) :=
  [("contains", contains), ("imports", imports), ("inherits", inherits)]

def name : EdgeKind → String
  | contains => "contains"
  | imports => "imports"
  | inherits => "inherits"

end EdgeKind

namespace Edge

/-- The fields of an edge. -/
def jsonFields (e : Edge) : List (String × Json) :=
  [("kind", .string e.kind.name), ("source", .string e.source), ("target", .string e.target),
    ("source_path", e.sourcePath.toJson), ("line", .natural e.line), ("resolved", .bool e.resolved)]

def toJson (e : Edge) : Json := .object e.jsonFields

def ofJson? (j : Json) : Option Edge := do
  let [kind, source, target, sourcePath, line, resolved] ←
    Json.record? ["kind", "source", "target", "source_path", "line", "resolved"] j | none
  return {
    kind := ← required (Json.choice? EdgeKind.names) kind
    source := ← required string? source
    target := ← required string? target
    sourcePath := ← required Path.ofJson? sourcePath
    line := ← required natural? line
    resolved := ← defaulted bool? false resolved }

end Edge
end SourceSurvey
