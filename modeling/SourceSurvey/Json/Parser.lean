import SourceSurvey.Json.Basic
import SourceSurvey.Text.Hex

/-!
# Reading JSON

`Json.parse` reads one value with blanks around it and accepts exactly the grammar of JSON. The
readers of single parts return the rest of the input. The recursion is bounded by a number that
every nested value, item and field lowers by one; the length of the input is enough, since each of
them takes a character.
-/

namespace SourceSurvey
namespace Json

/-- The blanks between tokens. -/
def isSpace (c : Char) : Bool := c == ' ' || c == '\n' || c == '\t' || c == '\r'

/-- The input without leading blanks. -/
def skipSpace (cs : List Char) : List Char := cs.dropWhile isSpace

/-- The number that four hexadecimal digits denote. -/
def hexUnit? (a b c d : Char) : Option Nat := do
  let a ← Text.hexValue? a
  let b ← Text.hexValue? b
  let c ← Text.hexValue? c
  let d ← Text.hexValue? d
  return ((a * 16 + b) * 16 + c) * 16 + d

/-- Whether a unit opens a surrogate pair. -/
def isHighUnit (n : Nat) : Bool := 0xd800 ≤ n && n < 0xdc00

/-- Whether a unit closes a surrogate pair. -/
def isLowUnit (n : Nat) : Bool := 0xdc00 ≤ n && n < 0xe000

/-- Reads a string after its opening quote into reversed characters. The flag tells whether every
escape so far names a character. -/
def stringBody (acc : List Char) (good : Bool) :
    List Char → Option (Option String × List Char)
  | [] => none
  | '"' :: rest => some (if good then some (String.ofList acc.reverse) else none, rest)
  | '\\' :: 'u' :: a :: b :: c :: d :: rest =>
    match hexUnit? a b c d with
    | none => none
    | some high =>
      if isHighUnit high then
        match rest with
        | '\\' :: 'u' :: e :: f :: g :: h :: rest' =>
          match hexUnit? e f g h with
          | some low =>
            if isLowUnit low then
              stringBody (Char.ofNat (0x10000 + (high - 0xd800) * 1024 + (low - 0xdc00)) :: acc)
                good rest'
            else stringBody acc false ('\\' :: 'u' :: e :: f :: g :: h :: rest')
          | none => none
        | rest => stringBody acc false rest
      else stringBody (Char.ofNat high :: acc) (good && !isLowUnit high) rest
  | '\\' :: c :: rest =>
    match c with
    | '"' => stringBody ('"' :: acc) good rest
    | '\\' => stringBody ('\\' :: acc) good rest
    | '/' => stringBody ('/' :: acc) good rest
    | 'b' => stringBody ('\x08' :: acc) good rest
    | 'f' => stringBody ('\x0c' :: acc) good rest
    | 'n' => stringBody ('\n' :: acc) good rest
    | 'r' => stringBody ('\r' :: acc) good rest
    | 't' => stringBody ('\t' :: acc) good rest
    | _ => none
  | c :: rest => if c.toNat < 0x20 || c == '\\' then none else stringBody (c :: acc) good rest

/-- The natural number that decimal digits denote. -/
def decimalValue (digits : List Char) : Nat :=
  digits.foldl (fun n c => n * 10 + (c.toNat - 48)) 0

/-- Reads an optional fraction. -/
def fraction (cs : List Char) : Option (List Char × List Char) :=
  match cs with
  | '.' :: rest =>
    let digits := rest.takeWhile Char.isDigit
    if digits.isEmpty then none else some ('.' :: digits, rest.dropWhile Char.isDigit)
  | cs => some ([], cs)

/-- Reads an optional exponent. -/
def exponent (cs : List Char) : Option (List Char × List Char) :=
  match cs with
  | e :: rest =>
    if e == 'e' || e == 'E' then
      let (sign, rest) := match rest with
        | s :: rest' => if s == '+' || s == '-' then ([s], rest') else ([], rest)
        | [] => ([], [])
      let digits := rest.takeWhile Char.isDigit
      if digits.isEmpty then none
      else some (e :: (sign ++ digits), rest.dropWhile Char.isDigit)
    else some ([], cs)
  | [] => some ([], [])

/-- Reads an optional minus sign. -/
def minus : List Char → List Char × List Char
  | '-' :: rest => (['-'], rest)
  | cs => ([], cs)

/-- Reads a number. A leading zero stands alone. -/
def number (cs : List Char) : Option (Json × List Char) := do
  let (sign, body) := minus cs
  let digits := body.takeWhile Char.isDigit
  let rest := body.dropWhile Char.isDigit
  if digits.isEmpty || (digits.head? = some '0' && digits.length ≠ 1) then none
  let (frac, rest) ← fraction rest
  let (exp, rest) ← exponent rest
  if sign.isEmpty && frac.isEmpty && exp.isEmpty then
    return (natural (decimalValue digits), rest)
  return (decimal (String.ofList (sign ++ digits ++ frac ++ exp)), rest)

/-- Reads a word that stands for a value. -/
def literal (word : String) (j : Json) (cs : List Char) : Option (Json × List Char) :=
  if word.toList.isPrefixOf cs then some (j, cs.drop word.length) else none

/-- The object with these reversed fields; a key that names no text spoils it. -/
def ofFields (acc : List (Option String × Json)) : Json :=
  match acc.reverse.mapM fun (k, j) => k.map (·, j) with
  | some fields => object fields
  | none => unreadable

mutual

/-- Reads a value at the start of the input. -/
def value : Nat → List Char → Option (Json × List Char)
  | 0, _ => none
  | depth + 1, cs =>
    match cs with
    | [] => none
    | '"' :: rest =>
      (stringBody [] true rest).map fun (s, rest) =>
        (match s with
          | some s => string s
          | none => unreadable, rest)
    | '[' :: rest =>
      match skipSpace rest with
      | ']' :: rest => some (array [], rest)
      | rest => items depth [] rest
    | '\x7b' :: rest =>
      match skipSpace rest with
      | '\x7d' :: rest => some (object [], rest)
      | rest => members depth [] rest
    | 't' :: _ => literal "true" (bool true) cs
    | 'f' :: _ => literal "false" (bool false) cs
    | 'n' :: _ => literal "null" null cs
    | _ => number cs

/-- Reads the items of an array from the first character of an item on. -/
def items : Nat → List Json → List Char → Option (Json × List Char)
  | 0, _, _ => none
  | depth + 1, acc, cs =>
    match value depth cs with
    | none => none
    | some (j, rest) =>
      match skipSpace rest with
      | ',' :: rest => items depth (j :: acc) (skipSpace rest)
      | ']' :: rest => some (array (j :: acc).reverse, rest)
      | _ => none

/-- Reads the fields of an object from the quote of a key on. -/
def members : Nat → List (Option String × Json) → List Char → Option (Json × List Char)
  | 0, _, _ => none
  | depth + 1, acc, cs =>
    match cs with
    | '"' :: rest =>
      match stringBody [] true rest with
      | none => none
      | some (key, rest) =>
        match skipSpace rest with
        | ':' :: rest =>
          match value depth (skipSpace rest) with
          | none => none
          | some (j, rest) =>
            match skipSpace rest with
            | ',' :: rest => members depth ((key, j) :: acc) (skipSpace rest)
            | '\x7d' :: rest => some (ofFields ((key, j) :: acc), rest)
            | _ => none
        | _ => none
    | _ => none

end

/-- The value of a text that holds one value and blanks around it. -/
def parse (cs : List Char) : Option Json :=
  match value (cs.length + 1) (skipSpace cs) with
  | some (j, rest) => if (skipSpace rest).isEmpty then some j else none
  | none => none

/-- The value of a string that holds one value and blanks around it. -/
def ofString? (s : String) : Option Json := parse s.toList

end Json
end SourceSurvey
