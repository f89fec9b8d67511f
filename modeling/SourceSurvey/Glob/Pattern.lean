/-!
# Glob patterns

A pattern is a list of tokens. `Glob.parse` reads one; two stars are a token of their own where
they fill the place between separators, and plain stars elsewhere.
-/

namespace SourceSurvey
namespace Glob

/-- A part of a pattern. The two-star tokens stand for any number of directories at the start, at
the end and in between; the separators beside them belong to them. -/
inductive Token where
  | literal (c : Char)
  | any
  | anyRun
  | anyStart
  | anyEnd
  | anyBetween
  | ofClass (negated : Bool) (ranges : List (Char × Char))
  | alternatives (branches : List (List Token))
  deriving Repr

/-- Why a text is no pattern. -/
inductive Error where
  | unclosedClass
  | invalidRange (low high : Char)
  | unopenedAlternatives
  | unclosedAlternatives
  | danglingEscape
  deriving DecidableEq, Repr

namespace Error

/-- The text of an error. -/
def message : Error → String
  | unclosedClass => "unclosed character class; missing ']'"
  | invalidRange low high =>
    "invalid range; '" ++ low.toString ++ "' > '" ++ high.toString ++ "'"
  | unopenedAlternatives =>
    "unopened alternate group; missing '\x7b' (maybe escape '\x7d' with '[\x7d]'?)"
  | unclosedAlternatives =>
    "unclosed alternate group; missing '\x7d' (maybe escape '\x7b' with '[\x7b]'?)"
  | danglingEscape => "dangling '\\'"

end Error

/-- An open group of alternatives: its finished branches and the tokens of the current one, the
last ones first. -/
structure Group where
  finished : List (List Token) := []
  current : List Token := []

/-- What has been read: the tokens outside of groups and the open groups, the innermost first. -/
structure State where
  outer : List Token := []
  groups : List Group := []

namespace State

/-- The tokens before the next one, the last ones first. -/
def current (s : State) : List Token :=
  match s.groups with
  | [] => s.outer
  | g :: _ => g.current

/-- The state with other tokens before the next one. -/
def setCurrent (s : State) (tokens : List Token) : State :=
  match s.groups with
  | [] => { s with outer := tokens }
  | g :: rest => { s with groups := { g with current := tokens } :: rest }

/-- The state with one more token. -/
def push (s : State) (t : Token) : State := s.setCurrent (t :: s.current)

/-- The state after an opening brace. -/
def openGroup (s : State) : State := { s with groups := {} :: s.groups }

/-- The state after a closing brace, if a group is open. -/
def closeGroup? (s : State) : Option State :=
  match s.groups with
  | [] => none
  | g :: rest =>
    let branches := (g.current.reverse :: g.finished).reverse
    some ({ s with groups := rest }.push (.alternatives branches))

/-- The state after a comma, which separates branches only inside a group. -/
def comma (s : State) : State :=
  match s.groups with
  | [] => s.push (.literal ',')
  | g :: rest =>
    { s with groups := { finished := g.current.reverse :: g.finished, current := [] } :: rest }

/-- The state after a two-star token; one that follows another is no further token. -/
def pushAny (s : State) (t : Token) : State :=
  match s.current with
  | .anyStart :: _ | .anyEnd :: _ => s
  | _ :: rest => s.setCurrent (t :: rest)
  | [] => s.setCurrent [t]

/-- The state after two stars with `prev` before them and `rest` after them, and what is left. A
separator after them is consumed with them. -/
def twoStars (s : State) (prev : Option Char) (rest : List Char) : State × List Char :=
  let plain := ((s.push .anyRun).push .anyRun, rest)
  if s.current.isEmpty then
    match rest with
    | [] => (s.push .anyStart, [])
    | '/' :: rest => (s.push .anyStart, rest)
    | _ => plain
  else if prev != some '/' && (s.groups.isEmpty || (prev != some ',' && prev != some '\x7b')) then
    plain
  else
    match rest with
    | [] => (s.pushAny .anyEnd, [])
    | '/' :: rest => (s.pushAny .anyBetween, rest)
    | c :: _ =>
      if (c == ',' || c == '\x7d') && !s.groups.isEmpty then (s.pushAny .anyEnd, rest) else plain

end State

/-- What a class has read: its ranges, the last ones first, whether a range is open, and whether
nothing has been read yet. -/
structure ClassState where
  ranges : List (Char × Char) := []
  inRange : Bool := false
  first : Bool := true

/-- The state of a class with the last range closed by a character. -/
def ClassState.closeRange (s : ClassState) (c : Char) : Except Error ClassState :=
  match s.ranges with
  | (low, _) :: rest =>
    if c < low then .error (.invalidRange low c)
    else .ok { ranges := (low, c) :: rest, first := false }
  | [] => .ok { ranges := [(c, c)], first := false }

/-- Reads a class from the first character of its ranges on. -/
def readClass (s : ClassState) : List Char → Except Error (List (Char × Char) × List Char)
  | [] => .error .unclosedClass
  | c :: rest =>
    if c == ']' && !s.first then
      let ranges := if s.inRange then ('-', '-') :: s.ranges else s.ranges
      .ok (ranges.reverse, rest)
    else if c == '-' && !s.first && !s.inRange then readClass { s with inRange := true } rest
    else if s.inRange then
      match s.closeRange c with
      | .ok s => readClass s rest
      | .error e => .error e
    else readClass { ranges := (c, c) :: s.ranges, first := false } rest

/-- Reads tokens; `prev` is the character before the input. -/
def readTokens : Nat → State → Option Char → List Char → Except Error State
  | 0, s, _, _ => .ok s
  | fuel + 1, s, prev, cs =>
    match cs with
    | [] => .ok s
    | '?' :: rest => readTokens fuel (s.push .any) (some '?') rest
    | '*' :: '*' :: rest =>
      let (s, after) := s.twoStars prev rest
      readTokens fuel s (some (if after.length < rest.length then '/' else '*')) after
    | '*' :: rest => readTokens fuel (s.push .anyRun) (some '*') rest
    | '[' :: rest =>
      let (negated, body) := match rest with
        | '!' :: body | '^' :: body => (true, body)
        | body => (false, body)
      match readClass {} body with
      | .error e => .error e
      | .ok (ranges, rest) => readTokens fuel (s.push (.ofClass negated ranges)) (some ']') rest
    | '\x7b' :: rest => readTokens fuel s.openGroup (some '\x7b') rest
    | '\x7d' :: rest =>
      match s.closeGroup? with
      | some s => readTokens fuel s (some '\x7d') rest
      | none => .error .unopenedAlternatives
    | ',' :: rest => readTokens fuel s.comma (some ',') rest
    | '\\' :: rest =>
      match rest with
      | [] => .error .danglingEscape
      | c :: rest => readTokens fuel (s.push (.literal c)) (some c) rest
    | c :: rest => readTokens fuel (s.push (.literal c)) (some c) rest

/-- The tokens of a pattern. -/
def parse (text : List Char) : Except Error (List Token) :=
  match readTokens (text.length + 1) {} none text with
  | .error e => .error e
  | .ok s => if s.groups.isEmpty then .ok s.outer.reverse else .error .unclosedAlternatives

end Glob
end SourceSurvey
