import SourceSurvey.Module.Basic
import SourceSurvey.Text.Blank
import SourceSurvey.Text.Word

/-!
# Sources of a small grammar

The core of the sources that the outline is for: imports, assignments of numbers, functions and
classes whose bodies are a `pass` or methods, with blank lines and comments anywhere between the
lines. A `Grammar.Source` says what stands in a source text; `Grammar.Source.text` writes it, and
`Grammar.Source.module` is its record, made without reading the text.
-/

namespace SourceSurvey
namespace Grammar

open Text (isBlank isNameStart)

/-! ## Words -/

/-- The reserved words. -/
def keywords : List String :=
  ["False", "None", "True", "and", "as", "assert", "async", "await", "break", "class", "continue",
    "def", "del", "elif", "else", "except", "finally", "for", "from", "global", "if", "import", "in",
    "is", "lambda", "nonlocal", "not", "or", "pass", "raise", "return", "try", "while", "with",
    "yield"]

/-- The ASCII letters, the digits and the underscore. -/
def isIdentifierChar (c : Char) : Bool := c.isAlphanum || c == '_'

/-- An ASCII identifier that is not reserved. -/
structure Identifier where
  first : Char
  rest : List Char
  starts : isNameStart first = true
  continues : ∀ c ∈ rest, isIdentifierChar c = true
  free : String.ofList (first :: rest) ∉ keywords

namespace Identifier

def text (i : Identifier) : List Char := i.first :: i.rest

def string (i : Identifier) : String := String.ofList i.text

end Identifier

/-- Identifiers with dots between them. -/
def dotted (parts : List Identifier) : List Char := ['.'].intercalate (parts.map Identifier.text)

/-- The name of a base: one identifier or several with dots between them. -/
structure Dotted where
  parts : List Identifier
  nonempty : parts ≠ []

def Dotted.text (d : Dotted) : List Char := dotted d.parts

/-- The name of a module: leading dots, identifiers with dots between them, or both. -/
structure ModuleName where
  dots : Nat
  parts : List Identifier
  nonempty : dots ≠ 0 ∨ parts ≠ []

def ModuleName.text (m : ModuleName) : List Char := List.replicate m.dots '.' ++ dotted m.parts

/-- A number. -/
structure Digits where
  text : List Char
  nonempty : text ≠ []
  digits : ∀ c ∈ text, c.isDigit = true

/-- The indentation of the lines of a body, on top of that of its header. -/
structure Indent where
  text : List Char
  nonempty : text ≠ []
  blank : ∀ c ∈ text, c = ' ' ∨ c = '\t'

/-- A blank line or a line with a comment alone. -/
structure Filler where
  blanks : List Char
  comment? : Option (List Char)
  blank : ∀ c ∈ blanks, isBlank c = true ∧ c ≠ '\n'
  comment : ∀ text ∈ comment?, '\n' ∉ text

def Filler.text (f : Filler) : List Char := f.blanks ++ f.comment?.elim [] ('#' :: ·)

/-- Words with commas and blanks between them. -/
def series (words : List (List Char)) : List Char := ", ".toList.intercalate words

/-! ## Blocks -/

/-- A function or a method. The fillers stand before the `pass`, whose indentation is that of the
header and `indent`. -/
structure Routine where
  isAsync : Bool
  name : Identifier
  parameters : List Identifier
  fillers : List Filler
  indent : Indent

namespace Routine

/-- `def F(p1, p2):` or `async def F(p1, p2):`. -/
def header (r : Routine) : List Char :=
  (if r.isAsync then "async " else "").toList ++ "def ".toList ++ r.name.text ++ "(".toList ++
    series (r.parameters.map Identifier.text) ++ "):".toList

/-- The lines of the routine, its header at some indentation. -/
def lines (r : Routine) (margin : List Char) : List (List Char) :=
  (margin ++ r.header) :: (r.fillers.map Filler.text ++ [margin ++ r.indent.text ++ "pass".toList])

/-- The number of lines. -/
def height (r : Routine) : Nat := r.fillers.length + 2

def record (r : Routine) (number : Nat) : FunctionDef where
  name := r.name.string
  line := number
  parameters := r.parameters.map Identifier.string
  isAsync := r.isAsync

end Routine

/-- A method and what stands before it. -/
structure Member where
  fillers : List Filler
  routine : Routine

def Member.lines (m : Member) (margin : List Char) : List (List Char) :=
  m.fillers.map Filler.text ++ m.routine.lines margin

/-- The body of a class: one `pass` or methods. -/
inductive ClassBody where
  | pass (fillers : List Filler) (indent : Indent)
  | methods (indent : Indent) (members : List Member) (nonempty : members ≠ [])

/-- The records of methods whose lines are numbered from `number` on. -/
def methodRecords (number : Nat) : List Member → List FunctionDef
  | [] => []
  | m :: rest =>
    m.routine.record (number + m.fillers.length) ::
      methodRecords (number + m.fillers.length + m.routine.height) rest

namespace ClassBody

def lines : ClassBody → List (List Char)
  | pass fillers indent => fillers.map Filler.text ++ [indent.text ++ "pass".toList]
  | methods indent members _ => members.flatMap fun m => m.lines indent.text

/-- The records of the methods, for a body whose lines are numbered from `number` on. -/
def records (number : Nat) : ClassBody → List FunctionDef
  | pass _ _ => []
  | methods _ members _ => methodRecords number members

end ClassBody

/-- A class. Without bases it has no parentheses. -/
structure ClassBlock where
  name : Identifier
  bases : List Dotted
  body : ClassBody

namespace ClassBlock

/-- `class C:` or `class C(B1, B2):`. -/
def header (c : ClassBlock) : List Char :=
  "class ".toList ++ c.name.text ++
    (if c.bases.isEmpty then [] else "(".toList ++ series (c.bases.map Dotted.text) ++ ")".toList) ++
    ":".toList

def lines (c : ClassBlock) : List (List Char) := c.header :: c.body.lines

def record (c : ClassBlock) (number : Nat) : ClassDef where
  name := c.name.string
  line := number
  bases := c.bases.map fun b => String.ofList b.text
  methods := c.body.records (number + 1)

end ClassBlock

/-- A statement at the left edge with its body. -/
inductive Block where
  | plainImport (source : ModuleName) (alias? : Option Identifier)
  | fromImport (source : ModuleName) (names : List Identifier) (nonempty : names ≠ [])
  | assignment (name : Identifier) (value : Digits)
  | function (routine : Routine)
  | classBlock (c : ClassBlock)

namespace Block

def lines : Block → List (List Char)
  | plainImport source alias? =>
    ["import ".toList ++ source.text ++ alias?.elim [] fun other => " as ".toList ++ other.text]
  | fromImport source names _ =>
    ["from ".toList ++ source.text ++ " import ".toList ++ series (names.map Identifier.text)]
  | assignment name value => [name.text ++ " = ".toList ++ value.text]
  | function routine => routine.lines []
  | classBlock c => c.lines

/-- The import that a block whose first line has some number declares. -/
def import? (number : Nat) : Block → Option Import
  | plainImport source alias? =>
    some { source := String.ofList source.text, alias? := alias?.map Identifier.string
           line := number }
  | fromImport source names _ =>
    some { source := String.ofList source.text, names := names.map Identifier.string, line := number }
  | _ => none

/-- The class that a block declares. -/
def class? (number : Nat) : Block → Option ClassDef
  | classBlock c => some (c.record number)
  | _ => none

/-- The function that a block declares. -/
def function? (number : Nat) : Block → Option FunctionDef
  | function routine => some (routine.record number)
  | _ => none

/-- The variable that a block assigns to. -/
def global? (number : Nat) : Block → Option Variable
  | assignment name _ => some { name := name.string, line := number }
  | _ => none

end Block

/-! ## Sources -/

/-- A block and what stands before it. -/
structure Item where
  fillers : List Filler
  block : Block

def Item.lines (i : Item) : List (List Char) := i.fillers.map Filler.text ++ i.block.lines

/-- Blocks, and what stands after the last one. -/
structure Source where
  items : List Item
  fillers : List Filler

/-- The blocks of items whose lines are numbered from `number` on, with the numbers of their first
lines. -/
def placed (number : Nat) : List Item → List (Nat × Block)
  | [] => []
  | i :: rest => (number + i.fillers.length, i.block) :: placed (number + i.lines.length) rest

namespace Source

def lines (s : Source) : List (List Char) := s.items.flatMap Item.lines ++ s.fillers.map Filler.text

/-- The text of a source: every line with a line feed behind it. -/
def text (s : Source) : List Char := s.lines.flatMap fun line => line ++ ['\n']

example :
    let a : Identifier := ⟨'a', [], rfl, List.forall_mem_nil _, by decide⟩
    let indent : Indent := ⟨[' '], by decide, by simp⟩
    let comment : Filler := ⟨[], some " b".toList, List.forall_mem_nil _, by simp⟩
    let routine : Routine := ⟨true, a, [a, a], [comment], indent⟩
    let body : ClassBody := .methods indent [⟨[], routine⟩] (by decide)
    text ⟨[⟨[], .classBlock ⟨a, [⟨[a, a], by decide⟩], body⟩⟩], []⟩ =
      "class a(a.a):\n async def a(a, a):\n# b\n  pass\n".toList := by
  decide

/-- The blocks with the numbers of their first lines. -/
def blocks (s : Source) : List (Nat × Block) := placed 1 s.items

/-- What the source declares. -/
def module (s : Source) (path : Path) : Module :=
  { Module.empty path with
    imports := s.blocks.filterMap fun b => b.2.import? b.1
    classes := s.blocks.filterMap fun b => b.2.class? b.1
    functions := s.blocks.filterMap fun b => b.2.function? b.1
    globals := s.blocks.filterMap fun b => b.2.global? b.1
    lineCount := s.lines.length }

end Source

end Grammar
end SourceSurvey
