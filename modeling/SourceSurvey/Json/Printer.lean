import SourceSurvey.Json.Basic
import SourceSurvey.Text.Hex

/-!
# Printing JSON

`Json.print` writes a value on one line without blanks. Of the characters only the quote, the
backslash and the control characters below the blank are escaped, so no printed text holds a line
feed. `Json.printAt` writes the same text over several lines, with an item or a field on each.
-/

namespace SourceSurvey
namespace Json

/-- The written form of one character inside a string. -/
def escapeChar (c : Char) : List Char :=
  match c with
  | '"' => ['\\', '"']
  | '\\' => ['\\', '\\']
  | '\n' => ['\\', 'n']
  | '\r' => ['\\', 'r']
  | '\t' => ['\\', 't']
  | '\x08' => ['\\', 'b']
  | '\x0c' => ['\\', 'f']
  | c =>
    if c.toNat < 0x20 then
      ['\\', 'u', '0', '0', Text.hexDigit (c.toNat / 16), Text.hexDigit (c.toNat % 16)]
    else [c]

/-- A string between quotes. -/
def quote (s : String) : List Char := '"' :: (s.toList.flatMap escapeChar ++ ['"'])

mutual

/-- The text of a value. What has no value of its own is written as `null`. -/
def print : Json → List Char
  | null => "null".toList
  | bool true => "true".toList
  | bool false => "false".toList
  | natural n => Nat.toDigits 10 n
  | decimal text => text.toList
  | string s => quote s
  | array items => '[' :: (printItems items ++ [']'])
  | object fields => '\x7b' :: (printFields fields ++ ['\x7d'])
  | unreadable => "null".toList

/-- The items of an array with commas between them. -/
def printItems : List Json → List Char
  | [] => []
  | [j] => print j
  | j :: rest => print j ++ ',' :: printItems rest

/-- The fields of an object with commas between them. -/
def printFields : List (String × Json) → List Char
  | [] => []
  | [(k, j)] => quote k ++ ':' :: print j
  | (k, j) :: rest => quote k ++ ':' :: (print j ++ ',' :: printFields rest)

end

/-- The text of a value, as a string. -/
def compact (j : Json) : String := String.ofList j.print

/-- A line feed and two blanks for each level of depth. -/
def newLine (depth : Nat) : List Char := '\n' :: List.replicate (2 * depth) ' '

mutual

/-- The text of a value over several lines, at some depth. -/
def printAt (depth : Nat) : Json → List Char
  | array [] => ['[', ']']
  | array items => '[' :: (printItemsAt (depth + 1) items ++ newLine depth ++ [']'])
  | object [] => ['\x7b', '\x7d']
  | object fields => '\x7b' :: (printFieldsAt (depth + 1) fields ++ newLine depth ++ ['\x7d'])
  | j => print j

/-- The items of an array on lines of their own. -/
def printItemsAt (depth : Nat) : List Json → List Char
  | [] => []
  | [j] => newLine depth ++ printAt depth j
  | j :: rest => newLine depth ++ printAt depth j ++ ',' :: printItemsAt depth rest

/-- The fields of an object on lines of their own. -/
def printFieldsAt (depth : Nat) : List (String × Json) → List Char
  | [] => []
  | [(k, j)] => newLine depth ++ quote k ++ ':' :: ' ' :: printAt depth j
  | (k, j) :: rest =>
    newLine depth ++ quote k ++ ':' :: ' ' :: (printAt depth j ++ ',' :: printFieldsAt depth rest)

end

/-- The text of a value over several lines, as a string. -/
def pretty (j : Json) : String := String.ofList (j.printAt 0)

end Json
end SourceSurvey
