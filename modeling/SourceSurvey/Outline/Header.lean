import SourceSurvey.Text.Blank
import SourceSurvey.Text.Word
import SourceSurvey.Text.Fields

/-!
# Header lines

Readers for the first words of a statement: class and function headers, the two forms of import and
assignments to a name. A reader answers the parts that a record needs, or nothing where the
statement has another form. Then the splitters for lists of bases, parameters and imported names.
-/

namespace SourceSurvey
namespace Header

open Text (isBlank trim trimStart fields)

/-- The input after a fixed word. -/
def word? (word : String) (cs : List Char) : Option (List Char) :=
  if word.toList.isPrefixOf cs then some (cs.drop word.length) else none

/-- The input after white space, of which there has to be some. -/
def gap? (cs : List Char) : Option (List Char) :=
  match cs with
  | c :: _ => if isBlank c then some (trimStart cs) else none
  | [] => none

/-- A name and the input after it. -/
def name? (cs : List Char) : Option (List Char × List Char) :=
  match cs with
  | c :: rest =>
    if Text.isNameStart c then
      some (c :: rest.takeWhile Text.isWordChar, rest.dropWhile Text.isWordChar)
    else none
  | [] => none

/-- The rest of a line after a gap, which is not empty: where only white space follows, its last
character is the rest, and the gap is what stands before it. -/
def remainder? (cs : List Char) : Option (List Char) :=
  let gap := cs.takeWhile isBlank
  let rest := cs.dropWhile isBlank
  if gap.isEmpty then none
  else if rest.isEmpty then
    match gap.reverse with
    | c :: _ :: _ => if c == '\n' then none else some [c]
    | _ => none
  else if rest.contains '\n' then none
  else some rest

/-- The names of a plain import: `import` and what follows. -/
def import? (code : List Char) : Option (List Char) := (word? "import" code).bind remainder?

/-- A module and the names imported from it: `from`, the module, `import` and what follows. -/
def fromImport? (code : List Char) : Option (List Char × List Char) := do
  let rest ← (← word? "from" code) |> gap?
  let source := rest.takeWhile (!isBlank ·)
  if source.isEmpty then none
  let rest ← gap? (rest.dropWhile (!isBlank ·))
  let names ← (← word? "import" rest) |> remainder?
  return (source, names)

/-- The text between parentheses up to the first closing one, and the input after it. -/
def group? (cs : List Char) : Option (List Char × List Char) :=
  match cs with
  | '(' :: rest =>
    match rest.dropWhile (· != ')') with
    | _ :: after => some (rest.takeWhile (· != ')'), after)
    | [] => none
  | _ => none

/-- A class header: its name and, if there are parentheses, the text of its bases. -/
def class? (code : List Char) : Option (List Char × Option (List Char)) := do
  let rest ← (← word? "class" code) |> gap?
  let (name, rest) ← name? rest
  let rest := trimStart rest
  let (bases, rest) := match group? rest with
    | some (bases, rest) => (some bases, trimStart rest)
    | none => (none, rest)
  if rest.head? = some ':' then some (name, bases) else none

/-- What a function header says. -/
structure Signature where
  isAsync : Bool
  name : List Char
  parameters : List Char

/-- A function header up to the first closing parenthesis or the end of the line. -/
def function? (code : List Char) : Option Signature := do
  let (isAsync, code) := match (word? "async" code).bind gap? with
    | some rest => (true, rest)
    | none => (false, code)
  let rest ← (← word? "def" code) |> gap?
  let (name, rest) ← name? rest
  match trimStart rest with
  | '(' :: rest => some { isAsync, name, parameters := rest.takeWhile (· != ')') }
  | _ => none

/-- The name that a statement assigns to: the name, perhaps an annotation without an equals sign,
and one equals sign that no second one follows. -/
def assigned? (code : List Char) : Option (List Char) := do
  let (name, rest) ← name? code
  let rest := match trimStart rest with
    | ':' :: rest => rest.dropWhile (· != '=')
    | rest => rest
  match rest with
  | '=' :: rest => if rest.head? = some '=' then none else some name
  | _ => none

/-! ## Lists inside headers -/

/-- The text before a hash, trimmed. -/
def beforeComment (cs : List Char) : List Char := trim (cs.takeWhile (· != '#'))

/-- An imported name and its alias. -/
def nameAndAlias (part : List Char) : List Char × Option (List Char) :=
  let part := trim part
  match Text.cutAt " as ".toList part with
  | some (name, other) => (trim name, some (trim other))
  | none => (part, none)

def isParenthesis (c : Char) : Bool := c == '(' || c == ')'

/-- The names of a from-import without their aliases. Parentheses, backslashes and white space
around the list, and parentheses around a name, do not count. -/
def importedNames (cs : List Char) : List (List Char) :=
  let list := Text.trimWhere (fun c => isParenthesis c || c == '\\' || isBlank c) cs
  let names := (fields (· == ',') list).map fun part =>
    (nameAndAlias (Text.trimWhere isParenthesis part)).1
  names.filter (!·.isEmpty)

/-- The base expressions of a class; what holds an equals sign is a keyword argument. -/
def bases (cs : List Char) : List (List Char) :=
  ((fields (· == ',') cs).map trim).filter fun base => !base.isEmpty && !base.contains '='

/-- The names of parameters with their stars, without annotations and defaults. The bare star and
the slash are no parameters. -/
def parameters (cs : List Char) : List (List Char) :=
  ((fields (· == ',') cs).map fun p => trim (p.takeWhile fun c => c != ':' && c != '=')).filter
    fun p => !p.isEmpty && p != ['*'] && p != ['/']

end Header
end SourceSurvey
