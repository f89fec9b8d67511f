import SourceSurvey.Lexical.Basic

/-!
# Lines as characters

The rules of `Lexical.advance` once more, on characters and with a mode for every kind of text: code,
a string that ends with its line, a string between triple quotes, and a comment. Inside a string a
backslash takes the next character with it.
-/

namespace SourceSurvey
namespace Lexical

/-- The kind of text that the next character belongs to. -/
inductive Mode where
  | code
  | quoted (q : Char)
  | tripled (q : Char)
  | comment
  deriving DecidableEq, Repr

/-- The quote byte of the string that stays open at the end of a line: only one between triple quotes
does. -/
def Mode.triple? : Mode → Option UInt8
  | .tripled q => some q.toNat.toUInt8
  | .code | .quoted _ | .comment => none

/-- How brackets are counted. -/
structure Counter (δ : Type) where
  opened : δ → δ
  closed : δ → δ

namespace Counter

/-- Counting by the machine integers of `Lexical`. -/
def machine : Counter Int32 where
  opened depth := depth + 1
  closed depth := max (depth - 1) 0

/-- Counting without a bound. -/
def natural : Counter Nat where
  opened depth := depth + 1
  closed depth := depth - 1

/-- The brackets that are open after a character of code. -/
def after {δ : Type} (n : Counter δ) (depth : δ) (c : Char) : δ :=
  if c = '(' || c = '[' || c = '\x7b' then n.opened depth
  else if c = ')' || c = ']' || c = '\x7d' then n.closed depth
  else depth

end Counter

/-- The number of open brackets and the kind of text. -/
structure Reader (δ : Type) where
  depth : δ
  mode : Mode
  deriving DecidableEq, Repr

namespace Reader

/-- Reads the characters of a line. -/
def read {δ : Type} (n : Counter δ) (depth : δ) (mode : Mode) : List Char → Reader δ
  | [] => ⟨depth, mode⟩
  | c :: rest =>
    match mode with
    | .comment => read n depth .comment rest
    | .tripled q =>
      if c = '\\' then
        match rest with
        | [] => ⟨depth, mode⟩
        | _ :: rest => read n depth mode rest
      else
        match rest with
        | d :: e :: rest' =>
          if c = q && d = q && e = q then read n depth .code rest'
          else read n depth mode (d :: e :: rest')
        | rest => read n depth mode rest
    | .quoted q =>
      if c = '\\' then
        match rest with
        | [] => ⟨depth, mode⟩
        | _ :: rest => read n depth mode rest
      else read n depth (if c = q then .code else mode) rest
    | .code =>
      if c = '#' then read n depth .comment rest
      else if c = '"' || c = '\'' then
        match rest with
        | d :: e :: rest' =>
          if d = c && e = c then read n depth (.tripled c) rest'
          else read n depth (.quoted c) (d :: e :: rest')
        | rest => read n depth (.quoted c) rest
      else read n (n.after depth c) .code rest

/-- What stays open at the end of a line: only the brackets and a triple-quoted string. -/
def ending (r : Reader Int32) : Lexical := { depth := r.depth, triple? := r.mode.triple? }

end Reader

/-- The mode at the start of a line. -/
def mode (s : Lexical) : Mode :=
  match s.triple? with
  | some q => .tripled (Char.ofNat q.toNat)
  | none => .code

/-- The state after a line, read as characters. -/
def advanceChars (s : Lexical) (line : List Char) : Lexical :=
  (Reader.read .machine s.depth s.mode line).ending

end Lexical
end SourceSurvey
