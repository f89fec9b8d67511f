import SourceSurvey.Json.Parser

/-!
# Scalars of TOML

Strings in their four forms, and words: truth values, integers in four bases, floating-point
numbers, dates and times. Only truth values, strings and natural numbers have a value that the
settings use; all else is checked for its form and kept as `Json.decimal` or `Json.unreadable`.
-/

namespace SourceSurvey
namespace Toml

/-- Whether a character may not stand in a text as it is. -/
def isControl (c : Char) : Bool := (c.toNat < 0x20 && c != '\t') || c.toNat == 0x7f

/-- The input after a line feed or a carriage return and line feed. -/
def newline? : List Char → Option (List Char)
  | '\n' :: rest => some rest
  | '\r' :: '\n' :: rest => some rest
  | _ => none

/-- The character that hexadecimal digits denote. -/
def scalar? (digits : List Char) : Option Char := do
  let values ← digits.mapM Text.hexValue?
  let n := values.foldl (fun n d => n * 16 + d) 0
  if n < 0x110000 && !(0xd800 ≤ n && n < 0xe000) then some (Char.ofNat n) else none

/-- The character of an escape, from the letter after the backslash on, and the rest. -/
def escape? : List Char → Option (Char × List Char)
  | 'b' :: rest => some ('\x08', rest)
  | 't' :: rest => some ('\t', rest)
  | 'n' :: rest => some ('\n', rest)
  | 'f' :: rest => some ('\x0c', rest)
  | 'r' :: rest => some ('\r', rest)
  | 'e' :: rest => some ('\x1b', rest)
  | '"' :: rest => some ('"', rest)
  | '\\' :: rest => some ('\\', rest)
  | 'x' :: a :: b :: rest => (scalar? [a, b]).map (·, rest)
  | 'u' :: a :: b :: c :: d :: rest => (scalar? [a, b, c, d]).map (·, rest)
  | 'U' :: a :: b :: c :: d :: e :: f :: g :: h :: rest =>
    (scalar? [a, b, c, d, e, f, g, h]).map (·, rest)
  | _ => none

/-- Reads a basic string after its quote, into reversed characters. -/
def basic : Nat → List Char → List Char → Option (String × List Char)
  | 0, _, _ => none
  | fuel + 1, acc, cs =>
    match cs with
    | [] => none
    | '"' :: rest => some (String.ofList acc.reverse, rest)
    | '\\' :: rest =>
      match escape? rest with
      | some (c, rest) => basic fuel (c :: acc) rest
      | none => none
    | c :: rest => if isControl c then none else basic fuel (c :: acc) rest

/-- Reads a literal string after its quote, into reversed characters. -/
def literal (acc : List Char) : List Char → Option (String × List Char)
  | [] => none
  | '\'' :: rest => some (String.ofList acc.reverse, rest)
  | c :: rest => if isControl c then none else literal (c :: acc) rest

/-- Closes a multi-line string at three quotes; up to two further quotes belong to the string. -/
def close (quote : Char) (acc rest : List Char) : String × List Char :=
  match rest with
  | a :: b :: rest' =>
    if a == quote && b == quote then (String.ofList (b :: a :: acc).reverse, rest')
    else if a == quote then (String.ofList (a :: acc).reverse, b :: rest')
    else (String.ofList acc.reverse, rest)
  | [a] =>
    if a == quote then (String.ofList (a :: acc).reverse, []) else (String.ofList acc.reverse, rest)
  | [] => (String.ofList acc.reverse, [])

/-- The input after the blanks and line ends that follow a backslash at the end of a line. -/
def continuation? (cs : List Char) : Option (List Char) :=
  (newline? (cs.dropWhile fun c => c == ' ' || c == '\t')).map
    (List.dropWhile fun c => c == ' ' || c == '\t' || c == '\n' || c == '\r')

/-- Reads a multi-line basic string after its quotes, into reversed characters. -/
def multiBasic : Nat → List Char → List Char → Option (String × List Char)
  | 0, _, _ => none
  | fuel + 1, acc, cs =>
    match cs with
    | [] => none
    | '"' :: '"' :: '"' :: rest => some (close '"' acc rest)
    | '\\' :: rest =>
      match continuation? rest with
      | some rest => multiBasic fuel acc rest
      | none =>
        match escape? rest with
        | some (c, rest) => multiBasic fuel (c :: acc) rest
        | none => none
    | c :: rest =>
      match newline? cs with
      | some rest => multiBasic fuel ('\n' :: acc) rest
      | none => if isControl c then none else multiBasic fuel (c :: acc) rest

/-- Reads a multi-line literal string after its quotes, into reversed characters. -/
def multiLiteral : Nat → List Char → List Char → Option (String × List Char)
  | 0, _, _ => none
  | fuel + 1, acc, cs =>
    match cs with
    | [] => none
    | '\'' :: '\'' :: '\'' :: rest => some (close '\'' acc rest)
    | c :: rest =>
      match newline? cs with
      | some rest => multiLiteral fuel ('\n' :: acc) rest
      | none => if isControl c then none else multiLiteral fuel (c :: acc) rest

/-- The input without the line end that directly follows the quotes of a multi-line string. -/
def afterQuotes (cs : List Char) : List Char := (newline? cs).getD cs

/-- Reads a string in any of its four forms, from the quote on. -/
def string? (cs : List Char) : Option (String × List Char) :=
  match cs with
  | '"' :: '"' :: '"' :: rest => multiBasic (rest.length + 1) [] (afterQuotes rest)
  | '\'' :: '\'' :: '\'' :: rest => multiLiteral (rest.length + 1) [] (afterQuotes rest)
  | '"' :: rest => basic (rest.length + 1) [] rest
  | '\'' :: rest => literal [] rest
  | _ => none

/-! ## Words -/

/-- The characters that words are made of. -/
def isWordPart (c : Char) : Bool :=
  c.isAlphanum || c == '+' || c == '-' || c == '_' || c == '.' || c == ':'

/-- The digits of a number without the underscores, each of which stands between two digits. -/
def digits? (isDigit : Char → Bool) (cs : List Char) : Option (List Char) :=
  match cs with
  | [] => none
  | c :: rest =>
    if isDigit c then
      match rest with
      | [] => some [c]
      | '_' :: rest => (digits? isDigit rest).map (c :: ·)
      | rest => (digits? isDigit rest).map (c :: ·)
    else none

/-- The value of digits in a base. -/
def inBase (base : Nat) (digits : List Char) : Nat :=
  digits.foldl (fun n c => n * base + (Text.hexValue? c).getD 0) 0

/-- An integer that is not negative. It has at most 128 bits. -/
def natural? (n : Nat) : Option Json := if n < Nat.pow 2 128 then some (.natural n) else none

/-- An integer in base ten without its sign. A leading zero stands alone. -/
def decimal? (cs : List Char) : Option Nat := do
  let digits ← digits? Char.isDigit cs
  if digits.head? = some '0' && digits.length ≠ 1 then none
  return inBase 10 digits

/-- Whether a text without sign is a floating-point number: an integer with a fraction, an exponent
or both. -/
def isFloating (cs : List Char) : Bool :=
  let whole := cs.takeWhile fun c => c.isDigit || c == '_'
  let rest := cs.drop whole.length
  let (hasFraction, goodFraction, rest) := match rest with
    | '.' :: rest =>
      let fraction := rest.takeWhile fun c => c.isDigit || c == '_'
      (true, (digits? Char.isDigit fraction).isSome, rest.drop fraction.length)
    | rest => (false, true, rest)
  let (hasExponent, goodExponent) := match rest with
    | [] => (false, true)
    | e :: rest =>
      let digits := match rest with
        | '+' :: rest | '-' :: rest => rest
        | rest => rest
      (true, (e == 'e' || e == 'E') && (digits? Char.isDigit digits).isSome)
  (decimal? whole).isSome && goodFraction && goodExponent && (hasFraction || hasExponent)

/-- The number of fixed width that digits denote. -/
def field? (cs : List Char) : Option Nat :=
  if !cs.isEmpty && cs.all Char.isDigit then some (inBase 10 cs) else none

/-- Whether a text is a date. -/
def isDate (cs : List Char) : Bool :=
  match cs with
  | [y₁, y₂, y₃, y₄, '-', m₁, m₂, '-', d₁, d₂] =>
    match field? [y₁, y₂, y₃, y₄], field? [m₁, m₂], field? [d₁, d₂] with
    | some year, some month, some day =>
      let leap := year % 4 == 0 && (year % 100 != 0 || year % 400 == 0)
      let last := match month with
        | 2 => if leap then 29 else 28
        | 4 | 6 | 9 | 11 => 30
        | _ => 31
      1 ≤ month && month ≤ 12 && 1 ≤ day && day ≤ last
    | _, _, _ => false
  | _ => false

/-- Whether a text is the seconds of a time of day, with or without a fraction. -/
def isSecond (cs : List Char) : Bool :=
  match cs with
  | s₁ :: s₂ :: rest =>
    (field? [s₁, s₂]).any (· ≤ 60) &&
      (match rest with
        | [] => true
        | '.' :: digits => (field? digits).isSome
        | _ => false)
  | _ => false

/-- Whether a text is a time of day. The seconds may be missing. -/
def isTime (cs : List Char) : Bool :=
  match cs with
  | h₁ :: h₂ :: ':' :: m₁ :: m₂ :: rest =>
    (field? [h₁, h₂]).any (· < 24) && (field? [m₁, m₂]).any (· < 60) &&
      (match rest with
        | [] => true
        | ':' :: second => isSecond second
        | _ => false)
  | _ => false

/-- Whether a text is a time of day with or without an offset. -/
def isTimeWithOffset (cs : List Char) : Bool :=
  let time := cs.takeWhile fun c => c.isDigit || c == ':' || c == '.'
  isTime time &&
    (match cs.drop time.length with
      | [] | ['Z'] | ['z'] => true
      | [sign, h₁, h₂, ':', m₁, m₂] =>
        (sign == '+' || sign == '-') &&
          (match field? [h₁, h₂], field? [m₁, m₂] with
            | some hour, some minute => hour < 24 && minute < 60
            | _, _ => false)
      | _ => false)

/-- Whether a text is a date, a time of day or both. -/
def isMoment (cs : List Char) : Bool :=
  isDate cs || isTime cs ||
    (isDate (cs.take 10) &&
      (match cs.drop 10 with
        | 'T' :: time | 't' :: time | ' ' :: time => isTimeWithOffset time
        | _ => false))

/-- The value of a word. -/
def word? (cs : List Char) : Option Json :=
  let (negative, signed, body) := match cs with
    | '-' :: rest => (true, true, rest)
    | '+' :: rest => (false, true, rest)
    | cs => (false, false, cs)
  match cs with
  | ['t', 'r', 'u', 'e'] => some (.bool true)
  | ['f', 'a', 'l', 's', 'e'] => some (.bool false)
  | '0' :: 'x' :: rest => (digits? (fun c => (Text.hexValue? c).isSome) rest).bind (natural? <| inBase 16 ·)
  | '0' :: 'o' :: rest => (digits? (fun c => '0' ≤ c && c ≤ '7') rest).bind (natural? <| inBase 8 ·)
  | '0' :: 'b' :: rest => (digits? (fun c => c == '0' || c == '1') rest).bind (natural? <| inBase 2 ·)
  | cs =>
    match decimal? body with
    | some n =>
      if negative && n ≠ 0 then
        if n ≤ Nat.pow 2 127 then some (.decimal (String.ofList cs)) else none
      else natural? n
    | none =>
      if isFloating body || body = "inf".toList || body = "nan".toList then
        some (.decimal (String.ofList cs))
      else if !signed && isMoment cs then some .unreadable
      else none

/-- Reads a word. A blank inside it is allowed between a date and a time. -/
def wordAt? (cs : List Char) : Option (Json × List Char) :=
  let word := cs.takeWhile isWordPart
  let rest := cs.drop word.length
  let (word, rest) := match rest with
    | ' ' :: after =>
      if isDate word && after.head?.any Char.isDigit then
        let time := after.takeWhile isWordPart
        (word ++ ' ' :: time, after.drop time.length)
      else (word, rest)
    | rest => (word, rest)
  (word? word).map (·, rest)

end Toml
end SourceSurvey
