import SourceSurvey.Json.Basic
import SourceSurvey.Text.Hex

/-!
# Printing TOML

A document of sections is printed with a header for each, a line for each field and an empty line
between sections. An array of more than one item takes a line for each item. A string is written in
the plainest form that needs no escapes but for tabs.
-/

namespace SourceSurvey
namespace Toml

/-- What a string holds that bears on its form: the longest runs of either quote, whether there are
line feeds and backslashes, and whether there are control characters that need an escape. -/
structure Traits where
  quotes : Nat := 0
  apostrophes : Nat := 0
  hasNewline : Bool := false
  hasBackslash : Bool := false
  hasControl : Bool := false

/-- The length of the longest run of a character. -/
def longestRun (c : Char) (cs : List Char) : Nat :=
  (cs.foldl (fun (best, run) d => if d == c then (max best (run + 1), run + 1) else (best, 0))
    (0, 0)).1

/-- The traits of a string. -/
def Traits.of (cs : List Char) : Traits where
  quotes := longestRun '"' cs
  apostrophes := longestRun '\'' cs
  hasNewline := cs.contains '\n'
  hasBackslash := cs.contains '\\'
  hasControl := cs.any fun c => (c.toNat < 0x20 && c != '\t' && c != '\n') || c.toNat == 0x7f

/-- A hexadecimal digit in upper case. -/
def upperDigit (n : Nat) : Char := (Text.hexDigit n).toUpper

/-- The escape of a character in a basic string. -/
def escapeChar (c : Char) : List Char :=
  match c with
  | '\x08' => ['\\', 'b']
  | '\t' => ['\\', 't']
  | '\n' => ['\\', 'n']
  | '\x0c' => ['\\', 'f']
  | '\r' => ['\\', 'r']
  | '"' => ['\\', '"']
  | '\\' => ['\\', '\\']
  | c =>
    if c.toNat < 0x20 || c.toNat == 0x7f then
      ['\\', 'u', '0', '0', upperDigit (c.toNat / 16), upperDigit (c.toNat % 16)]
    else [c]

/-- The characters of a multi-line basic string: line feeds stay and of quotes that stand together
only every third is escaped. `run` counts the quotes before. -/
def escapeLines (run : Nat) : List Char → List Char
  | [] => []
  | '\n' :: rest => '\n' :: escapeLines 0 rest
  | '"' :: rest =>
    if run = 2 then '\\' :: '"' :: escapeLines 0 rest else '"' :: escapeLines (run + 1) rest
  | c :: rest => escapeChar c ++ escapeLines 0 rest

/-- A string in its plainest form. -/
def quote (s : String) : List Char :=
  let cs := s.toList
  let t := Traits.of cs
  if !t.hasControl && !t.hasBackslash && t.quotes = 0 && !t.hasNewline then
    '"' :: (cs.flatMap escapeChar ++ ['"'])
  else if !t.hasControl && t.apostrophes = 0 && !t.hasNewline then '\'' :: (cs ++ ['\''])
  else if !t.hasControl && !t.hasBackslash && t.quotes < 3 then
    "\"\"\"\n".toList ++ escapeLines 0 cs ++ "\"\"\"".toList
  else if !t.hasControl && t.apostrophes < 3 then "'''\n".toList ++ cs ++ "'''".toList
  else if t.hasNewline then "\"\"\"\n".toList ++ escapeLines 0 cs ++ "\"\"\"".toList
  else '"' :: (cs.flatMap escapeChar ++ ['"'])

mutual

/-- The text of a value. -/
def print : Json → List Char
  | .bool true => "true".toList
  | .bool false => "false".toList
  | .natural n => Nat.toDigits 10 n
  | .string s => quote s
  | .array [] => "[]".toList
  | .array [j] => '[' :: (print j ++ [']'])
  | .array items => '[' :: '\n' :: (printItems items ++ [']'])
  | .decimal text => text.toList
  | .object _ | .null | .unreadable => []

/-- The lines of the items of an array. -/
def printItems : List Json → List Char
  | [] => []
  | j :: rest => "    ".toList ++ (print j ++ ',' :: '\n' :: printItems rest)

end

/-- A line with a key and its value. -/
def printField (key : String) (j : Json) : List Char :=
  key.toList ++ " = ".toList ++ print j ++ ['\n']

/-- A section with its header. -/
def printSection (name : String) (fields : List (String × Json)) : List Char :=
  '[' :: (name.toList ++ ']' :: '\n' :: fields.flatMap fun (k, j) => printField k j)

/-- A document of sections. -/
def document (sections : List (String × List (String × Json))) : String :=
  String.ofList (['\n'].intercalate (sections.map fun (name, fields) => printSection name fields))

end Toml
end SourceSurvey
