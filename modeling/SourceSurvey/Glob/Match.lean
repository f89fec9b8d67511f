import SourceSurvey.Glob.Pattern
import SourceSurvey.Text.Lines

/-!
# Matching paths against glob patterns

A pattern is turned into a shape over bytes. `Shape.reach` follows all ways through a shape at
once: of every place in the input it is known whether the part before the shape can end there, and
it tells at which places the shape itself can end.
-/

namespace SourceSurvey
namespace Glob

/-- A set of bytes. -/
structure ByteClass where
  negated : Bool := false
  ranges : List (UInt8 × UInt8)
  deriving Repr

/-- Whether a byte is in a set. -/
def ByteClass.contains (c : ByteClass) (b : UInt8) : Bool :=
  c.negated != c.ranges.any fun r => r.1 ≤ b && b ≤ r.2

/-- What a part of a path may look like: one byte of a set, any bytes, one shape after the other,
or one of several shapes. -/
inductive Shape where
  | byte (set : ByteClass)
  | anyRun
  | sequence (parts : List Shape)
  | choice (parts : List Shape)
  deriving Repr

namespace Shape

/-- One given byte. -/
def one (b : UInt8) : Shape := byte ⟨false, [(b, b)]⟩

def slash : Shape := one 47

/-- Marks every place at or after a marked one. -/
def onward (seen : Bool) : List Bool → List Bool
  | [] => []
  | m :: rest => (seen || m) :: onward (seen || m) rest

/-- Marks the places after a byte of a set that starts at a marked place. -/
def advance (set : ByteClass) (bytes : List UInt8) (marks : List Bool) : List Bool :=
  false :: List.zipWith (fun b m => m && set.contains b) bytes marks

mutual

/-- The places at which a shape can end when it starts at a marked place. -/
def reach (bytes : List UInt8) (marks : List Bool) : Shape → List Bool
  | .byte set => advance set bytes marks
  | .anyRun => onward false marks
  | .sequence parts => reachAll bytes marks parts
  | .choice parts => reachAny bytes marks parts

/-- The places at which shapes one after the other can end. -/
def reachAll (bytes : List UInt8) (marks : List Bool) : List Shape → List Bool
  | [] => marks
  | s :: rest => reachAll bytes (reach bytes marks s) rest

/-- The places at which one of several shapes can end. -/
def reachAny (bytes : List UInt8) (marks : List Bool) : List Shape → List Bool
  | [] => marks.map fun _ => false
  | s :: rest => List.zipWith (· || ·) (reach bytes marks s) (reachAny bytes marks rest)

end

/-- Whether all of the input has a shape. -/
def accepts (s : Shape) (bytes : List UInt8) : Bool :=
  (s.reach bytes (true :: bytes.map fun _ => false)).getLast?.getD false

end Shape

/-- The set of bytes of a character range: the bytes of both ends, with all bytes from the last one
of the lower end to the first one of the upper end. -/
def byteRanges (low high : Char) : List (UInt8 × UInt8) :=
  let first := String.utf8EncodeChar low
  let last := String.utf8EncodeChar high
  if low = high then first.map fun b => (b, b)
  else
    match first.getLast?, last with
    | some a, b :: rest => first.dropLast.map (fun b => (b, b)) ++ (a, b) :: rest.map fun b => (b, b)
    | _, _ => []

mutual

/-- The shape of a token; a group without any branch that says something has none. -/
def Token.shape? : Token → Option Shape
  | .literal c => some (.sequence ((String.utf8EncodeChar c).map Shape.one))
  | .any => some (.byte ⟨true, []⟩)
  | .anyRun => some .anyRun
  | .anyStart => some (.choice [.sequence [], .slash, .sequence [.anyRun, .slash]])
  | .anyEnd => some (.sequence [.slash, .anyRun])
  | .anyBetween => some (.choice [.slash, .sequence [.slash, .anyRun, .slash]])
  | .ofClass negated ranges =>
    some (.byte ⟨negated, ranges.flatMap fun r => byteRanges r.1 r.2⟩)
  | .alternatives branches =>
    match branchShapes branches with
    | [] => none
    | shapes => some (.choice shapes)

/-- The shapes of tokens one after the other. -/
def tokenShapes : List Token → List Shape
  | [] => []
  | t :: rest =>
    match t.shape? with
    | some s => s :: tokenShapes rest
    | none => tokenShapes rest

/-- The shapes of the branches that say something. -/
def branchShapes : List (List Token) → List Shape
  | [] => []
  | branch :: rest =>
    match tokenShapes branch with
    | [] => branchShapes rest
    | shapes => .sequence shapes :: branchShapes rest

end

/-- The shape of a pattern. Two stars alone match everything. -/
def shapeOf (tokens : List Token) : Shape :=
  match tokens with
  | [.anyStart] => .anyRun
  | tokens => .sequence (tokenShapes tokens)

/-! ## Patterns that look at the file name

Some patterns are decided by the last name of a path or by what follows its last dot. A path that
ends in a dot has no such name, so these patterns never match it. -/

/-- The characters of tokens that are all literal. -/
def literals? : List Token → Option (List Char)
  | [] => some []
  | .literal c :: rest => (literals? rest).map (c :: ·)
  | _ => none

/-- Whether the pattern is a name in any directory. -/
def isName (tokens : List Token) : Bool :=
  match tokens with
  | .anyStart :: rest =>
    match literals? rest with
    | some (c :: cs) => !(c :: cs).contains '/'
    | _ => false
  | _ => false

/-- The tokens without a two-star token at the start. -/
def afterStart (tokens : List Token) : List Token :=
  match tokens with
  | .anyStart :: rest => rest
  | tokens => tokens

/-- Whether the pattern is an extension. -/
def isExtension (tokens : List Token) : Bool :=
  match afterStart tokens with
  | .anyRun :: .literal '.' :: rest =>
    match literals? rest with
    | some cs => !cs.contains '.' && !cs.contains '/'
    | none => false
  | _ => false

/-- Whether the pattern is the beginning of a path. -/
def isBeginning (tokens : List Token) : Bool :=
  match tokens.getLast? with
  | some .anyRun => tokens.length ≠ 1 && (literals? tokens.dropLast).isSome
  | some .anyEnd => (literals? tokens.dropLast).isSome
  | some _ => (literals? tokens).isSome
  | none => false

/-- Whether the pattern is the end of a path. -/
def isEnding (tokens : List Token) : Bool :=
  let body := afterStart tokens
  let component := body.length < tokens.length &&
    (match body with | .literal _ :: _ => true | _ => false)
  let rest := match body with
    | .anyRun :: rest => rest
    | body => body
  match body, literals? rest with
  | [], _ | _, none => false
  | _, some cs =>
    let text := if component then '/' :: cs else cs
    text ≠ [] && text ≠ ['/']

/-- Whether the pattern ends in an extension. -/
def endsInExtension (tokens : List Token) : Bool :=
  let last := tokens.reverse.takeWhile fun
    | .literal '.' | .literal '/' => false
    | .literal _ => true
    | _ => false
  match tokens.reverse.drop last.length with
  | .literal '.' :: _ => true
  | _ => false

/-- Whether a pattern is decided by the file name. -/
def looksAtName (tokens : List Token) : Bool :=
  isName tokens ||
    ((literals? tokens).isNone &&
      (isExtension tokens ||
        (!isBeginning tokens && !isEnding tokens && endsInExtension tokens)))

end Glob

/-- A pattern that is ready to match. -/
structure Glob where
  shape : Glob.Shape
  byName : Bool

namespace Glob

/-- The pattern of a text. -/
def ofString (text : String) : Except Error Glob :=
  (parse text.toList).map fun tokens => ⟨shapeOf tokens, looksAtName tokens⟩

/-- Whether a pattern matches a path. -/
def accepts (g : Glob) (path : String) : Bool :=
  let bytes := path.toUTF8.toList
  g.shape.accepts bytes && !(g.byName && bytes.getLast?.getD 46 == 46)

end Glob
end SourceSurvey
