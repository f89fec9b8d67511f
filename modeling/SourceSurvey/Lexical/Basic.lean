import SourceSurvey.Text.Lines

/-!
# Brackets and open strings

What the lines read so far leave open: a number of brackets and perhaps a triple-quoted string. A
statement can start only where neither is open (`Lexical.atStatementStart`). A line is scanned byte
by byte in UTF-8: no byte of a longer character equals a quote, a bracket, a backslash or a hash.
-/

namespace SourceSurvey

/-- What is open at the end of a line. Brackets are counted by a signed machine integer, which wraps
around. `triple?` is the quote byte of an open triple-quoted string. -/
structure Lexical where
  depth : Int32 := 0
  triple? : Option UInt8 := none
  deriving DecidableEq, Repr, Inhabited

namespace Lexical

def backslash : UInt8 := 92
def hash : UInt8 := 35

/-- The two quote characters. -/
def isQuote (b : UInt8) : Bool := b == 34 || b == 39

/-- The opening brackets. -/
def isOpening (b : UInt8) : Bool := b == 40 || b == 91 || b == 123

/-- The closing brackets. -/
def isClosing (b : UInt8) : Bool := b == 41 || b == 93 || b == 125

/-- Whether a statement can start. -/
def atStatementStart (s : Lexical) : Bool := s.depth == 0 && s.triple?.isNone

/-- The state after a bracket or another byte outside of strings. A closing bracket without an
opening one changes nothing. -/
def bracket (s : Lexical) (b : UInt8) : Lexical :=
  if isOpening b then { s with depth := s.depth + 1 }
  else if isClosing b then { s with depth := max (s.depth - 1) 0 }
  else s

/-- Scans the bytes of a line. `quote?` is the quote byte of an open one-line string, which ends
with the line; a backslash inside a string skips the next byte; a hash outside of strings ends the
scan. -/
def scan (s : Lexical) (quote? : Option UInt8) : List UInt8 → Lexical
  | [] => s
  | b :: rest =>
    match s.triple?, quote? with
    | some q, _ =>
      if b == backslash then
        match rest with
        | [] => s
        | _ :: rest => scan s quote? rest
      else
        match rest with
        | c :: d :: rest' =>
          if b == q && c == q && d == q then scan { s with triple? := none } quote? rest'
          else scan s quote? (c :: d :: rest')
        | rest => scan s quote? rest
    | none, some q =>
      if b == backslash then
        match rest with
        | [] => s
        | _ :: rest => scan s quote? rest
      else scan s (if b == q then none else some q) rest
    | none, none =>
      if b == hash then s
      else if isQuote b then
        match rest with
        | c :: d :: rest' =>
          if c == b && d == b then scan { s with triple? := some b } none rest'
          else scan s (some b) (c :: d :: rest')
        | rest => scan s (some b) rest
      else scan (s.bracket b) none rest

/-- The state after a line, given without its line feed. -/
def advance (s : Lexical) (line : List Char) : Lexical := s.scan none (Text.encode line)

end Lexical
end SourceSurvey
