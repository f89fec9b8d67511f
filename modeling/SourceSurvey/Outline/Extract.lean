import SourceSurvey.Lexical.Basic
import SourceSurvey.Module.Basic
import SourceSurvey.Outline.Header

/-!
# The outline of a source text

`Outline.extract` walks over lines with what is open (`Lexical`) and the stack of scopes that the
indentation of headers opens and closes, and collects the records of the lines that it owns. Lines
before the owned ones serve as context: they open scopes and yield no records.
-/

namespace SourceSurvey

/-- The class that a method belongs to: one of the records collected so far, by its place, or a
class known by name alone, whose header is not among the owned lines. -/
inductive ClassOwner where
  | owned (index : Nat)
  | context (name : String)
  deriving DecidableEq, Repr

/-- An open definition and the indentation of its header. -/
inductive Scope where
  | ofClass (indent : Nat) (owner : ClassOwner)
  | ofFunction (indent : Nat)
  deriving DecidableEq, Repr

/-- The indentation of the header. -/
def Scope.indent : Scope → Nat
  | ofClass n _ => n
  | ofFunction n => n

/-- The records of some lines. `continued` holds the methods of classes whose header is not among
the owned lines, with the name of the class. -/
structure Outline where
  module : Module
  continued : List (String × FunctionDef) := []
  deriving DecidableEq, Repr

namespace Outline

/-- What the walk over the lines carries; the innermost scope stands first. -/
structure State where
  lexical : Lexical := {}
  scopes : List Scope := []
  outline : Outline

/-- The number of bytes of white space in front of a line. -/
def indentation (line : List Char) : Nat := Text.byteLength (line.takeWhile Text.isBlank)

/-- Whether a line holds nothing but white space or a comment. -/
def isSilent (line : List Char) : Bool :=
  match Text.trimStart line with
  | [] => true
  | c :: _ => c == '#'

/-- The scopes that are still open at a line of some indentation. -/
def openScopes (scopes : List Scope) (indent : Nat) : List Scope :=
  scopes.dropWhile fun s => indent ≤ s.indent

/-- The list with a method added to the class at a place. -/
def addMethod (classes : List ClassDef) (index : Nat) (f : FunctionDef) : List ClassDef :=
  classes.modify index fun c => { c with methods := c.methods ++ [f] }

/-- The outline with a function that stands in a scope; one inside another function is local to it
and leaves no record. -/
def addFunction (o : Outline) (scopes : List Scope) (f : FunctionDef) : Outline :=
  match scopes with
  | [] => { o with module := { o.module with functions := o.module.functions ++ [f] } }
  | .ofClass _ (.owned index) :: _ =>
    { o with module := { o.module with classes := addMethod o.module.classes index f } }
  | .ofClass _ (.context name) :: _ => { o with continued := o.continued ++ [(name, f)] }
  | .ofFunction _ :: _ => o

/-- The records of a plain import: one for each name. -/
def plainImports (names : List Char) (line : Nat) : List Import :=
  (Text.fields (· == ',') (Header.beforeComment names)).filterMap fun part =>
    let (name, other) := Header.nameAndAlias part
    if name.isEmpty then none
    else some { source := String.ofList name, alias? := other.map String.ofList, line }

/-- The records of an owned statement that opens no scope. -/
def addStatement (m : Module) (scopes : List Scope) (indent line : Nat) (code : List Char) :
    Module :=
  match Header.fromImport? code with
  | some (source, names) =>
    let names := (Header.importedNames (Header.beforeComment names)).map String.ofList
    { m with imports := m.imports ++ [{ source := String.ofList source, names, line }] }
  | none =>
    match Header.import? code with
    | some names => { m with imports := m.imports ++ plainImports names line }
    | none =>
      if indent = 0 && scopes.isEmpty then
        match Header.assigned? code with
        | some name => { m with globals := m.globals ++ [{ name := String.ofList name, line }] }
        | none => m
      else m

/-- The state after a line on which a statement starts. -/
def statement (s : State) (owned : Bool) (number : Nat) (line : List Char) : State :=
  let indent := indentation line
  let code := Text.trimStart line
  let scopes := openScopes s.scopes indent
  match Header.class? code with
  | some (name, bases) =>
    let name := String.ofList name
    if owned then
      let bases := ((bases.map Header.bases).getD []).map String.ofList
      let classes := s.outline.module.classes
      { s with
        scopes := .ofClass indent (.owned classes.length) :: scopes
        outline := { s.outline with module := { s.outline.module with
          classes := classes ++ [{ name, line := number, bases }] } } }
    else { s with scopes := .ofClass indent (.context name) :: scopes }
  | none =>
    match Header.function? code with
    | some f =>
      let record : FunctionDef :=
        { name := String.ofList f.name, line := number, isAsync := f.isAsync
          parameters := (Header.parameters f.parameters).map String.ofList }
      { s with
        scopes := .ofFunction indent :: scopes
        outline := if owned then addFunction s.outline scopes record else s.outline }
    | none =>
      if owned then
        { s with
          scopes
          outline := { s.outline with
            module := addStatement s.outline.module scopes indent number code } }
      else { s with scopes }

/-- The state after a line. -/
def step (s : State) (owned : Bool) (number : Nat) (line : List Char) : State :=
  let next := { s with lexical := s.lexical.advance line }
  if s.lexical.atStatementStart && !isSilent line then statement next owned number line else next

/-- The state after lines that are numbered from `number` on, the first `context` of which are
context. -/
def walk (s : State) (number context : Nat) : List (List Char) → State
  | [] => s
  | line :: rest => walk (step s (context = 0) number line) (number + 1) (context - 1) rest

/-- The outline of lines that are numbered from `firstLine` on and owned from the place `context`
on. `enclosing?` names a class whose header stands before the lines. -/
def extract (path : Path) (lines : List (List Char)) (firstLine context : Nat)
    (enclosing? : Option String) : Outline :=
  let scopes := match enclosing? with
    | some name => [.ofClass 0 (.context name)]
    | none => []
  let o := (walk { scopes, outline := { module := .empty path } } firstLine context lines).outline
  { o with module := { o.module with lineCount := lines.length - context } }

/-- The record of a source text. -/
def ofText (path : Path) (text : List Char) : Module :=
  (extract path (Text.lines text) 1 0 none).module

end Outline
end SourceSurvey
