import SourceSurvey.Proofs.Chunk.Merge
import SourceSurvey.Proofs.Tree.Names

/-!
# Clean splits

A split is clean if the chunk after it starts where a statement can start and its own lines start
with the start of a top-level construct. What is open in front of such a line does not matter, so the
walk over the chunk agrees with the whole walk from there on (`Chunk.joins_of_splitsCleanly`), and a
file that is split cleanly everywhere has the record of its text (`LargeFiles.parseFile_clean`).
-/

namespace SourceSurvey

namespace Chunk

open Outline (upTo walk)

/-- A chunk of a source starts where a statement can start, and its own lines start with a line that
starts a top-level construct and is no comment. -/
structure SplitsCleanly (lines : List (List Char)) (c : Chunk) : Prop where
  start : ((lines.take c.startLine).foldl Lexical.advance {}).atStatementStart = true
  boundary : ∃ line ∈ (ChunkPlan.annotate {} lines)[c.startLine + c.context]?,
    line.boundary = true ∧ line.text.head? ≠ some '#'

instance (lines : List (List Char)) (c : Chunk) : Decidable (c.SplitsCleanly lines) :=
  decidable_of_iff
    (((lines.take c.startLine).foldl Lexical.advance {}).atStatementStart = true ∧
      ∃ line ∈ (ChunkPlan.annotate {} lines)[c.startLine + c.context]?,
        line.boundary = true ∧ line.text.head? ≠ some '#')
    ⟨fun ⟨start, boundary⟩ => ⟨start, boundary⟩, fun ⟨start, boundary⟩ => ⟨start, boundary⟩⟩

variable {path : Path} {lines : List (List Char)} {index first context stop : Nat}

/-- A line that is marked as a boundary is at the left edge, and it is a statement for the whole walk
unless it is a comment. -/
theorem statement_of_boundary (path : Path) {line : MarkedLine}
    (hline : (ChunkPlan.annotate {} lines)[first]? = some line) (hb : line.boundary = true)
    (hc : line.text.head? ≠ some '#') :
    lines[first]? = some line.text ∧ Outline.indentation line.text = 0 ∧
      Outline.isStatement (upTo path lines first) line.text = true := by
  rw [ChunkPlan.getElem?_annotate, Option.map_eq_some_iff] at hline
  obtain ⟨text, htext, rfl⟩ := hline
  obtain ⟨hstart, htop⟩ := Bool.and_eq_true_iff.mp hb
  rw [ChunkPlan.Marker.lexical_after] at hstart
  refine ⟨htext, ChunkPlan.indentation_of_startsTopLevel htop, ?_⟩
  have hcomment : (text.head? == some '#') = false := beq_eq_false_iff_ne.mpr hc
  rw [Outline.isStatement, Outline.lexical_upTo, hstart]
  show (true && !Outline.isSilent text) = true
  rw [ChunkPlan.isSilent_of_startsTopLevel htop, hcomment]
  rfl

/-- A window after a clean split joins and leaves no methods to earlier classes. -/
theorem joins_of_splitsCleanly (hc : context ≤ first) (hown : first < stop)
    (hstop : stop ≤ lines.length)
    (h : SplitsCleanly lines
      (window (ChunkPlan.annotate {} lines) index (first - context) context stop)) :
    Joins path lines (window (ChunkPlan.annotate {} lines) index (first - context) context stop) ∧
      ((window (ChunkPlan.annotate {} lines) index (first - context) context stop).outline
        path).continued = [] := by
  obtain ⟨hstart, line, hline, hb, hcomment⟩ := h
  rw [startLine_window, context_window, Nat.sub_add_cancel hc] at hline
  obtain ⟨htext, hindent, hstatement⟩ := statement_of_boundary path hline hb hcomment
  have hcons : (lines.take stop).drop first = line.text :: (lines.take stop).drop (first + 1) := by
    have hlt : first < (lines.take stop).length := by
      rw [List.length_take]
      omega
    rw [List.drop_eq_getElem_cons hlt, List.getElem_take]
    rw [List.getElem?_eq_getElem (by omega), Option.some.injEq] at htext
    rw [htext]
  refine (joins_of_agree False index (ChunkPlan.map_text_annotate {} lines) hc
    (Nat.le_of_lt hown) hstop ?_).imp_right fun h => h id
  rw [hcons, Outline.walk, Outline.walk]
  refine Outline.Agree.walk ?_ (Outline.Nested.step (Outline.nested_upTo ..)) (fun h => h.elim)
  refine Outline.Agree.left (lexical_entry_eq hstart) ?_ (fun _ => ?_) hstatement hindent
  · rw [outline_entry hc, Module.addOutline_empty]
  · rw [outline_entry hc]

/-- The first window joins and leaves no methods to earlier classes. -/
theorem joins_of_first (path : Path) (index : Nat) (hown : 0 < stop) (hstop : stop ≤ lines.length) :
    Joins path lines (window (ChunkPlan.annotate {} lines) index 0 0 stop) ∧
      ((window (ChunkPlan.annotate {} lines) index 0 0 stop).outline path).continued = [] := by
  have henclosing : (ChunkPlan.annotate {} lines)[0]?.bind MarkedLine.openClass? = none := by
    cases lines <;> rfl
  refine (joins_of_agree False index (ChunkPlan.map_text_annotate {} lines)
    (Nat.le_refl 0) (Nat.le_of_lt hown) hstop ?_).imp_right fun h => h id
  refine Outline.Agree.walk ?_ (Outline.nested_upTo ..) (fun h => h.elim)
  rw [Nat.sub_self, henclosing]
  exact ⟨rfl, .nil, (Module.addOutline_empty ..).symm, fun _ => rfl⟩

end Chunk

namespace LargeFiles

variable {t : Tree} {path : Path} {text : List Char}

/-- If every split is clean, no chunk leaves methods to earlier classes, and the record of a file
that is read in chunks is that of its text, up to the number of chunks. -/
theorem parseFile_clean (l : LargeFiles) (hr : '\r' ∉ text)
    (hread : t.read path = .ok (Text.encode text))
    (hs : ∀ c ∈ (l.plan.chunks (Text.encode text)).1.tail, c.SplitsCleanly (Text.lines text)) :
    (∀ c ∈ (l.plan.chunks (Text.encode text)).1, (c.outline path).continued = []) ∧
      (l.parseFile t path).1 = .ok { Outline.ofText path text with
        chunkCount := max (l.plan.chunks (Text.encode text)).1.length 1 } := by
  have hw := l.plan.chunksOf_windows (Text.lines text)
  have hall : ∀ c ∈ l.plan.chunksOf (Text.lines text) .complete,
      c.Joins path (Text.lines text) ∧ (c.outline path).continued = [] := by
    rw [ChunkPlan.chunks_encode l.plan hr] at hs
    cases hchunks : l.plan.chunksOf (Text.lines text) .complete with
    | nil => exact fun _ hc => nomatch hc
    | cons d rest =>
      rw [hchunks] at hw hs
      refine List.forall_mem_cons.mpr ⟨?_, fun c hc => ?_⟩
      · obtain ⟨stop, hown, hstop, rfl⟩ := hw.head d rfl
        rw [ChunkPlan.length_annotate] at hstop
        exact Chunk.joins_of_first path 0 hown hstop
      · obtain ⟨index, first, context, stop, hle, hown, hstop, rfl⟩ :=
          hw.exists_eq (Nat.le_refl 0) c (List.mem_cons_of_mem d hc)
        rw [ChunkPlan.length_annotate] at hstop
        exact Chunk.joins_of_splitsCleanly hle hown hstop (hs _ hc)
  rw [parseFile_eq l hr hread, ChunkPlan.chunks_encode l.plan hr,
    ChunkPlan.merge_eq hw fun c hc => (hall c hc).1]
  exact ⟨fun c hc => (hall c hc).2, rfl⟩

/-- A class with a string over several lines, a variable and a function. -/
def storyText : List Char :=
  "class A:\n    def f(self):\n        s = \"\"\"\ndef g():\n\"\"\"\n        return s\nx = 1\ndef h():\n".toList

/-- A tree with a file of that text. -/
def storyTree : Tree :=
  { nodes := [(["a"], .file (Text.encode storyText) ⟨0, 0⟩)], now := ⟨0, 0⟩ }

/-- Chunks of seven lines that repeat one. -/
def storyFiles : LargeFiles := ⟨⟨1000, 7, 1, true⟩, 0⟩

/-- The file is split behind the class, and the function in the string is not found. -/
theorem parseFile_clean_story :
    (storyFiles.parseFile storyTree ⟨"/a"⟩).1 =
        .ok { Outline.ofText ⟨"/a"⟩ storyText with chunkCount := 2 } ∧
      (Outline.ofText ⟨"/a"⟩ storyText).functions.map FunctionDef.name = ["h"] := by
  have hlocate : storyTree.locate ⟨"/a"⟩ = .ok (["a"], .file (Text.encode storyText) ⟨0, 0⟩) :=
    Tree.locate_top ⟨by decide, by decide⟩ (by decide) (by decide) (by decide)
      (.of_name (by decide) (by decide)) rfl
  have hread : storyTree.read ⟨"/a"⟩ = .ok (Text.encode storyText) := by
    rw [Tree.read, hlocate]
    rfl
  have hchunks : (storyFiles.plan.chunks (Text.encode storyText)).1.length = 2 := by decide +kernel
  have hclean := (parseFile_clean storyFiles (by decide) hread (by decide +kernel)).2
  rw [hchunks] at hclean
  exact ⟨hclean, by decide +kernel⟩

end LargeFiles
end SourceSurvey
