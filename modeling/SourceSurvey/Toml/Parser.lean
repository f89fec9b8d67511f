import SourceSurvey.Toml.Document
import SourceSurvey.Toml.Scalar
import SourceSurvey.Json.Decoder

/-!
# Reading TOML

`Toml.parse` reads a document of TOML 1.1: lines with a header, a key and a value, or nothing but a
comment. Tables that are written as values may spread over lines and end in a comma.
The recursion is bounded by the length of the input, of which every line, item and value takes a
character.
-/

namespace SourceSurvey
namespace Toml

/-- Blanks inside a line. -/
def skipBlanks (cs : List Char) : List Char := cs.dropWhile fun c => c == ' ' || c == '\t'

/-- The input after a comment, if there is one; a comment holds no control characters. -/
def skipComment? (cs : List Char) : Option (List Char) :=
  match cs with
  | '#' :: rest =>
    let rest := rest.dropWhile fun c => !isControl c
    if rest.isEmpty || (newline? rest).isSome then some rest else none
  | cs => some cs

/-- The input after the rest of a line that holds nothing more. -/
def endLine? (cs : List Char) : Option (List Char) := do
  let rest ← skipComment? (skipBlanks cs)
  if rest.isEmpty then some [] else newline? rest

/-- Skips blanks, comments and line ends. -/
def skipLines : Nat → List Char → Option (List Char)
  | 0, _ => none
  | fuel + 1, cs =>
    let cs := skipBlanks cs
    match newline? cs with
    | some rest => skipLines fuel rest
    | none =>
      match cs with
      | '#' :: _ => (skipComment? cs).bind (skipLines fuel)
      | cs => some cs

/-- The characters of a bare key. -/
def isKeyPart (c : Char) : Bool := c.isAlphanum || c == '_' || c == '-'

/-- Reads one part of a key. -/
def keyPart? (cs : List Char) : Option (String × List Char) :=
  match cs with
  | '"' :: rest => basic (rest.length + 1) [] rest
  | '\'' :: rest => literal [] rest
  | cs =>
    let key := cs.takeWhile isKeyPart
    if key.isEmpty then none else some (String.ofList key, cs.drop key.length)

/-- Reads a key of one or more parts with dots between them. -/
def key? : Nat → List Char → Option (List String × List Char)
  | 0, _ => none
  | fuel + 1, cs => do
    let (part, rest) ← keyPart? (skipBlanks cs)
    match skipBlanks rest with
    | '.' :: rest =>
      let (parts, rest) ← key? fuel rest
      return (part :: parts, rest)
    | rest => return ([part], rest)

mutual

/-- Reads a value. -/
def value? : Nat → List Char → Option (Json × List Char)
  | 0, _ => none
  | fuel + 1, cs =>
    match cs with
    | '"' :: _ | '\'' :: _ => (string? cs).map fun (s, rest) => (.string s, rest)
    | '[' :: rest => items? fuel [] rest
    | '\x7b' :: rest => members? fuel [] rest
    | cs => wordAt? cs

/-- Reads the items of an array into reversed values. -/
def items? : Nat → List Json → List Char → Option (Json × List Char)
  | 0, _, _ => none
  | fuel + 1, acc, cs =>
    match skipLines (cs.length + 1) cs with
    | none => none
    | some (']' :: rest) => some (.array acc.reverse, rest)
    | some cs =>
      match value? fuel cs with
      | none => none
      | some (j, rest) =>
        match skipLines (rest.length + 1) rest with
        | some (',' :: rest) => items? fuel (j :: acc) rest
        | some (']' :: rest) => some (.array (j :: acc).reverse, rest)
        | _ => none

/-- Reads the fields of a table that is written as a value. -/
def members? : Nat → Fields → List Char → Option (Json × List Char)
  | 0, _, _ => none
  | fuel + 1, fields, cs =>
    match skipLines (cs.length + 1) cs with
    | none => none
    | some ('\x7d' :: rest) => some (.object (fieldValues fields), rest)
    | some cs =>
      match key? (cs.length + 1) cs with
      | some (key, '=' :: rest) =>
        match value? fuel (skipBlanks rest) with
        | none => none
        | some (j, rest) =>
          match assign j fields key, skipLines (rest.length + 1) rest with
          | some fields, some (',' :: rest) => members? fuel fields rest
          | some fields, some ('\x7d' :: rest) => some (.object (fieldValues fields), rest)
          | _, _ => none
      | _ => none

end

/-- A document so far and the table that the last header opened. -/
structure State where
  fields : Fields := []
  path : List String := []

/-- Reads a header or a key with its value, up to the end of the line. -/
def line? (s : State) (cs : List Char) : Option (State × List Char) :=
  match cs with
  | '[' :: '[' :: rest => do
    let (path, rest) ← key? (rest.length + 1) rest
    match rest with
    | ']' :: ']' :: rest =>
      let fields ← through openItem s.fields path
      let rest ← endLine? rest
      return ({ fields, path }, rest)
    | _ => none
  | '[' :: rest => do
    let (path, rest) ← key? (rest.length + 1) rest
    match rest with
    | ']' :: rest =>
      let fields ← through openTable s.fields path
      let rest ← endLine? rest
      return ({ fields, path }, rest)
    | _ => none
  | cs => do
    let (key, rest) ← key? (cs.length + 1) cs
    match rest with
    | '=' :: rest =>
      let (j, rest) ← value? (rest.length + 1) (skipBlanks rest)
      let fields ← assignIn s.path key j s.fields
      let rest ← endLine? rest
      return ({ s with fields }, rest)
    | _ => none

/-- Reads the lines of a document. -/
def lines? : Nat → State → List Char → Option State
  | 0, _, _ => none
  | fuel + 1, s, cs =>
    match skipLines (cs.length + 1) cs with
    | none => none
    | some [] => some s
    | some cs =>
      match line? s cs with
      | none => none
      | some (s, rest) => lines? fuel s rest

/-- The value of a document. A mark of the byte order at its start does not count. -/
def parse (text : List Char) : Option Json :=
  let text := match text with
    | '\ufeff' :: rest => rest
    | text => text
  (lines? (text.length + 1) {} text).map fun s => .object (fieldValues s.fields)

/-- The rules for records in TOML: an empty table or array says nothing, and an array for a record
may have further items. -/
def dialect : Json.Dialect :=
  ⟨fun | .object [] => true | .array [] => true | _ => false, true⟩

end Toml
end SourceSurvey
