import SourceSurvey.Chunk.Plan
import SourceSurvey.Lexical.Basic
import SourceSurvey.Outline.Header

/-!
# Chunks of a source

A source is read line by line; `annotate` marks the lines at which a top-level construct starts and
the class that is open before each line. `chunks` cuts the marked lines: a chunk is filled until it
reaches a limit of the plan, is split at its last boundary, else at the midpoint of its new lines,
and repeats the last lines of the chunk before it as context. Every chunk owns at least one line of
its own, which is why the cutting ends.
-/

namespace SourceSurvey

/-- A line with what the splitting needs to know: whether a top-level construct starts on it and
which class is open before it. -/
structure MarkedLine where
  text : List Char
  boundary : Bool
  openClass? : Option String
  deriving DecidableEq, Repr

namespace MarkedLine

/-- The bytes of the line and its line feed. -/
def size (line : MarkedLine) : Nat := Text.byteLength line.text + 1

end MarkedLine

/-- Some consecutive lines of a source. The first `context` of them belong to the chunk before. -/
structure Chunk where
  index : Nat
  startLine : Nat
  lines : List (List Char)
  context : Nat
  enclosing? : Option String
  deriving DecidableEq, Repr

namespace Chunk

/-- The number of lines of the source up to the end of the chunk. -/
def endLine (c : Chunk) : Nat := c.startLine + c.lines.length

/-- The lines that are no context. -/
def ownedLines (c : Chunk) : List (List Char) := c.lines.drop c.context

/-- The bytes of the owned lines and their line feeds. -/
def ownedBytes (c : Chunk) : Nat :=
  (c.ownedLines.map fun line => Text.byteLength line + 1).foldr (· + ·) 0

end Chunk

namespace ChunkPlan

/-- The words that continue the statement before them. -/
def continuations : List String := ["else", "elif", "except", "finally"]

/-- Whether a line starts at the left edge with anything but a continuation. -/
def startsTopLevel (line : List Char) : Bool :=
  match line with
  | [] => false
  | c :: _ =>
    !Text.isBlank c &&
      !continuations.contains
        (String.ofList (line.takeWhile fun c => Text.isAlphanumeric c || c == '_'))

/-- The name in a class header, at any indentation. -/
def className? (line : List Char) : Option String :=
  (Header.class? (Text.trimStart line)).map fun (name, _) => String.ofList name

/-- What the marking of lines carries: the open brackets and strings and the open class. -/
structure Marker where
  lexical : Lexical := {}
  class? : Option String := none

/-- The mark of a line and what the lines after it have to know. -/
def Marker.mark (m : Marker) (line : List Char) : MarkedLine × Marker :=
  let boundary := m.lexical.atStatementStart && startsTopLevel line
  let header := boundary && line.head? != some '#'
  ({ text := line, boundary, openClass? := m.class? },
    { lexical := m.lexical.advance line
      class? := if header then className? line else m.class? })

/-- The marked lines of a source. -/
def annotate (m : Marker) : List (List Char) → List MarkedLine
  | [] => []
  | line :: rest => (m.mark line).1 :: annotate (m.mark line).2 rest

/-- Whether a chunk of so many lines and bytes takes no further line. -/
def isFull (plan : ChunkPlan) (lines bytes : Nat) : Bool :=
  plan.maxLines ≤ lines || plan.maxBytes ≤ bytes

/-- The number of new lines that fill up a chunk that has `lines` lines and `bytes` bytes, or
nothing when there are too few of them. At least one line is taken. -/
def fill (plan : ChunkPlan) (lines bytes : Nat) : List MarkedLine → Option Nat
  | [] => none
  | line :: rest =>
    if plan.isFull (lines + 1) (bytes + line.size) then some 1
    else (fill plan (lines + 1) (bytes + line.size) rest).map (· + 1)

/-- A chunk is filled up by at least one of the new lines. -/
theorem fill_le {plan : ChunkPlan} {lines bytes n : Nat} {fresh : List MarkedLine}
    (h : plan.fill lines bytes fresh = some n) : 0 < n ∧ n ≤ fresh.length := by
  induction fresh generalizing lines bytes n with
  | nil => exact nomatch h
  | cons line rest ih =>
    rw [fill] at h
    split at h
    · cases h
      simp
    · obtain ⟨m, hm, rfl⟩ := Option.map_eq_some_iff.mp h
      have := ih hm
      simp only [List.length_cons]
      omega

/-- The place of the last boundary after the first line. -/
def lastBoundary? (fresh : List MarkedLine) : Option Nat :=
  match fresh.tail.reverse.findIdx? MarkedLine.boundary with
  | some i => some (fresh.length - 1 - i)
  | none => none

/-- Half of some new lines, but the first of them at least and no more than there are. -/
def middle (lines : Nat) : Nat := min (max (min 1 lines) (lines / 2)) lines

/-- The number of new lines that a filled chunk keeps. -/
def keep (plan : ChunkPlan) (fresh : List MarkedLine) : Nat :=
  if plan.detectBoundaries then (lastBoundary? fresh).getD (middle fresh.length) else fresh.length

theorem lastBoundary?_lt {fresh : List MarkedLine} {n : Nat} (h : lastBoundary? fresh = some n) :
    0 < n ∧ n < fresh.length := by
  unfold lastBoundary? at h
  cases hi : fresh.tail.reverse.findIdx? MarkedLine.boundary with
  | none =>
    rw [hi] at h
    cases h
  | some i =>
    have hlt := (List.findIdx?_eq_some_iff_findIdx_eq.mp hi).1
    rw [List.length_reverse, List.length_tail] at hlt
    rw [hi] at h
    cases h
    omega

/-- A boundary is looked for behind the first new line, and the middle is not in front of it. -/
theorem keep_pos (plan : ChunkPlan) {fresh : List MarkedLine} (h : fresh ≠ []) :
    0 < plan.keep fresh := by
  have hpos := List.length_pos_iff.mpr h
  unfold keep
  split
  · cases hb : lastBoundary? fresh with
    | some n => exact (lastBoundary?_lt hb).1
    | none =>
      rw [Option.getD_none, middle]
      omega
  · exact hpos

theorem keep_le (plan : ChunkPlan) (fresh : List MarkedLine) : plan.keep fresh ≤ fresh.length := by
  unfold keep
  split
  · cases hb : lastBoundary? fresh with
    | some n => exact Nat.le_of_lt (lastBoundary?_lt hb).2
    | none => exact Nat.min_le_right _ _
  · exact Nat.le_refl _

/-- A chunk that is filled up keeps at least one of its new lines, which is why the cutting goes on,
and no more than fill it up. -/
theorem keep_take_fill {plan : ChunkPlan} {lines bytes n : Nat} {fresh : List MarkedLine}
    (h : plan.fill lines bytes fresh = some n) :
    0 < plan.keep (fresh.take n) ∧ plan.keep (fresh.take n) ≤ n ∧ n ≤ fresh.length := by
  obtain ⟨hpos, hle⟩ := fill_le h
  have hlength : (fresh.take n).length = n := by rw [List.length_take, Nat.min_eq_left hle]
  have hkeep := plan.keep_le (fresh.take n)
  rw [hlength] at hkeep
  exact ⟨plan.keep_pos (List.length_pos_iff.mp (by rwa [hlength])), hkeep, hle⟩

/-- How the cutting ends: at the end of the source, or at bytes that are no text. -/
inductive Ending where
  | complete
  | invalidText
  deriving DecidableEq, Repr

/-- Cuts lines into chunks. `context` holds the lines repeated from the chunk before, `start` is
the number of lines before them. At the end of the source the last chunk keeps all that is left; a
source that is broken off loses the lines that fill no chunk. -/
def cut (plan : ChunkPlan) (ending : Ending) (index start : Nat) (context fresh : List MarkedLine) :
    List Chunk :=
  if fresh = [] then []
  else
    match _hfill : plan.fill context.length ((context.map MarkedLine.size).foldr (· + ·) 0) fresh with
    | none =>
      match ending with
      | .complete => [emit index start context fresh]
      | .invalidText => []
    | some n =>
      let kept := plan.keep (fresh.take n)
      let lines := context ++ fresh.take kept
      let overlap := min plan.overlap lines.length
      emit index start context (fresh.take kept) ::
        cut plan ending (index + 1) (start + lines.length - overlap)
          (lines.drop (lines.length - overlap)) (fresh.drop kept)
  termination_by fresh.length
  decreasing_by
    have := keep_take_fill _hfill
    rw [List.length_drop]
    omega
where
  /-- The chunk of some context and some new lines. -/
  emit (index start : Nat) (context fresh : List MarkedLine) : Chunk :=
    let lines := context ++ fresh
    { index
      startLine := start
      lines := lines.map MarkedLine.text
      context := context.length
      enclosing? := lines.head?.bind MarkedLine.openClass? }

/-- The chunks of a list of lines. -/
def chunksOf (plan : ChunkPlan) (lines : List (List Char)) (ending : Ending) : List Chunk :=
  plan.cut ending 0 0 [] (annotate {} lines)

/-- The lines of a source up to the first one that is no text. -/
def readLines (bytes : List UInt8) : List (List Char) × Ending :=
  let raw := Text.terminated (· == 10) bytes
  let texts := raw.map Text.decode?
  let good := (texts.takeWhile Option.isSome).filterMap id
  (good.map Text.bareLine, if good.length = raw.length then .complete else .invalidText)

/-- The chunks of a source and how the reading ends. -/
def chunks (plan : ChunkPlan) (bytes : List UInt8) : List Chunk × Ending :=
  let (lines, ending) := readLines bytes
  (plan.chunksOf lines ending, ending)

end ChunkPlan
end SourceSurvey
