import SourceSurvey.Proofs.Chunk.Merge
import SourceSurvey.Proofs.Lexical.Ends

/-!
# Boundaries

A line is marked as a boundary by the scanner and its first word; what is open at a line is decided by
indentation alone. Both agree: a boundary that is no comment is a statement at the left edge, and that
closes whatever was open (`Outline.boundary_closes`). From such a line on the walk collects the same
records as one that starts there, so that nothing nested becomes top-level by a split in front of it. The
markers read lines without any line ends and the walk keeps some carriage returns, which makes no
difference (`ChunkPlan.statement_of_marked`).

A comment at the left edge is marked as well and closes nothing (`Outline.comment_boundary_open`).
-/

namespace SourceSurvey

namespace ChunkPlan

variable {text : List Char} {i : Nat} {line : MarkedLine} {path : Path}

/-- The lines of a text without their ends. -/
theorem sourceLines_eq (text : List Char) :
    sourceLines text = (Text.lines text).map Text.bareLine :=
  Text.map_bareLine_terminated text

/-- A line at which a top-level construct starts without its ends is at the left edge with them. -/
theorem left_of_startsTopLevel {line : List Char} (h : startsTopLevel (Text.bareLine line) = true) :
    Outline.indentation line = 0 ∧
      Outline.isSilent line = ((Text.bareLine line).head? == some '#') := by
  obtain ⟨ends, hline, -⟩ := Text.exists_append_bareLine line
  obtain ⟨c, rest, hb, hblank⟩ := exists_cons_of_startsTopLevel h
  rw [hb] at hline ⊢
  rw [hline, List.cons_append, Outline.indentation, Outline.isSilent, Text.trimStart,
    List.takeWhile_cons, List.dropWhile_cons, hblank]
  exact ⟨rfl, rfl⟩

/-- A boundary that is no comment is a statement at the left edge for the walk over the text. -/
theorem statement_of_marked (path : Path) (hline : (annotate {} (sourceLines text))[i]? = some line)
    (hb : line.boundary = true) (hc : line.text.head? ≠ some '#') :
    ∃ (hi : i < (Text.lines text).length),
      Outline.indentation (Text.lines text)[i] = 0 ∧
        Outline.isStatement (Outline.upTo path (Text.lines text) i) (Text.lines text)[i] = true ∧
        (Outline.upTo path (Text.lines text) i).lexical = {} := by
  rw [getElem?_annotate, sourceLines_eq, List.getElem?_map, Option.map_map,
    Option.map_eq_some_iff] at hline
  obtain ⟨whole, hwhole, rfl⟩ := hline
  obtain ⟨hi, rfl⟩ := List.getElem?_eq_some_iff.mp hwhole
  obtain ⟨hstart, htop⟩ := Bool.and_eq_true_iff.mp hb
  rw [Marker.lexical_after, ← List.map_take, Lexical.foldl_advance_bareLine (Lexical.quoted_none 0)]
    at hstart
  obtain ⟨hleft, hsilent⟩ := left_of_startsTopLevel htop
  have hlexical : (Outline.upTo path (Text.lines text) i).lexical = {} := by
    rw [Outline.lexical_upTo]
    exact Lexical.eq_of_atStatementStart hstart
  have hcomment : ((Text.bareLine (Text.lines text)[i]).head? == some '#') = false :=
    beq_eq_false_iff_ne.mpr hc
  refine ⟨hi, hleft, ?_, hlexical⟩
  rw [Outline.isStatement, hlexical, hsilent, hcomment]
  rfl

end ChunkPlan

namespace Outline

variable {s : State} {number : Nat} {line : List Char}

/-- The scopes that a heading opens at some indentation, after `count` classes. -/
def Heading.scopes (indent count : Nat) : Heading → List Scope
  | .ofClass _ => [.ofClass indent (.owned count)]
  | .ofFunction _ => [.ofFunction indent]
  | .plain => []

/-- After an own statement the scopes are those that it opens and those that stay open. -/
theorem scopes_step (h : isStatement s line = true) :
    (step s true number line).scopes =
      (heading number line).scopes (indentation line) s.outline.module.classes.length ++
        opened s line := by
  rw [step_of_isStatement h, statement_eq]
  cases heading number line <;> rfl

/-- A record with the outline of a part that leaves no methods to earlier classes. -/
theorem addOutline_of_continued {m : Module} {o : Outline} (h : o.continued = []) :
    m.addOutline o = m.append o.module := by
  obtain ⟨module, continued⟩ := o
  subst h
  rfl

/-- At a boundary that is no comment nothing stays open that was opened before it, so that the scopes
after it are those that it opens itself. The lines from it on have the same records as if nothing stood
before them, whatever class is said to be open. -/
theorem boundary_closes (path : Path) (text : List Char) {i : Nat} {line : MarkedLine}
    (hline : (ChunkPlan.annotate {} (ChunkPlan.sourceLines text))[i]? = some line)
    (hb : line.boundary = true) (hc : line.text.head? ≠ some '#') :
    ∃ whole, (Text.lines text)[i]? = some whole ∧
      opened (upTo path (Text.lines text) i) whole = [] ∧
      (upTo path (Text.lines text) (i + 1)).scopes =
        (heading (i + 1) whole).scopes 0
          (upTo path (Text.lines text) i).outline.module.classes.length ∧
      ∀ stop enclosing?, i < stop → stop ≤ (Text.lines text).length →
        (extract path (((Text.lines text).take stop).drop i) (i + 1) 0 enclosing?).continued = [] ∧
          (upTo path (Text.lines text) stop).outline.module =
            (upTo path (Text.lines text) i).outline.module.append
              (extract path (((Text.lines text).take stop).drop i) (i + 1) 0 enclosing?).module := by
  obtain ⟨hi, hleft, hstatement, hlexical⟩ := ChunkPlan.statement_of_marked path hline hb hc
  have hopened : opened (upTo path (Text.lines text) i) (Text.lines text)[i] = [] := by
    rw [opened, hleft, openScopes_zero]
  refine ⟨_, List.getElem?_eq_getElem hi, hopened, ?_, fun stop enclosing? hown hstop => ?_⟩
  · rw [upTo_succ path hi, scopes_step hstatement, hleft, hopened, List.append_nil]
  · -- The two walks agree after the boundary and hence at the end; before it they need not.
    have hcons : ((Text.lines text).take stop).drop i =
        (Text.lines text)[i] :: ((Text.lines text).take stop).drop (i + 1) := by
      rw [List.drop_eq_getElem_cons (by rw [List.length_take]; omega), List.getElem_take]
    have hagree : Agree (upTo path (Text.lines text) i).outline.module False
        (upTo path (Text.lines text) stop)
        (walk (start path enclosing?) (i + 1) 0 (((Text.lines text).take stop).drop i)) := by
      rw [upTo_eq_walk (Nat.le_of_lt hown) hstop, hcons, walk, walk]
      refine Agree.walk ?_ (Nested.step (nested_upTo ..)) (fun h => h.elim)
      exact Agree.left hlexical (Module.addOutline_empty ..).symm (fun _ => rfl) hstatement hleft
    obtain ⟨lineCount, hextract⟩ := extract_eq path (((Text.lines text).take stop).drop i) (i + 1) 0
      enclosing?
    rw [hextract, hagree.module, addOutline_of_continued (hagree.clean id)]
    exact ⟨hagree.clean id, rfl⟩

/-- A method with a string over several lines, with carriage returns, and a decorated function. -/
def ladderText : List Char :=
  ["class A:\r\n", "    def f(self):\r\n", "        s = \"\"\"\r\n", "x\r\n", "\"\"\"\r\r\n", "@d\r\r\n",
    "def h():\n"].flatMap String.toList

/-- The decorator closes the method and the class. -/
theorem boundary_closes_ladder :
    (ChunkPlan.annotate {} (ChunkPlan.sourceLines ladderText))[5]? =
        some ⟨"@d".toList, true, some "A"⟩ ∧
      (upTo ⟨"/a"⟩ (Text.lines ladderText) 5).scopes = [.ofFunction 4, .ofClass 0 (.owned 0)] ∧
      (upTo ⟨"/a"⟩ (Text.lines ladderText) 6).scopes = [] ∧
      (ofText ⟨"/a"⟩ ladderText).functions = [{ name := "h", line := 7 }] := by
  have hline : (ChunkPlan.annotate {} (ChunkPlan.sourceLines ladderText))[5]? =
      some ⟨"@d".toList, true, some "A"⟩ := by decide +kernel
  obtain ⟨whole, hwhole, -, hscopes, -⟩ :=
    boundary_closes ⟨"/a"⟩ ladderText hline rfl (by decide)
  have hplain : (Text.lines ladderText)[5]? = some "@d\r".toList := by decide +kernel
  rw [hplain, Option.some.injEq] at hwhole
  subst hwhole
  exact ⟨hline, by decide +kernel, hscopes.trans (by decide +kernel), by decide +kernel⟩

/-- A function with a comment at the left edge in its body. -/
def noteText : List Char :=
  ["def f():\n", "    x = 1\n", "# note\n", "    def g():\n", "        pass\n"].flatMap String.toList

/-- The comment is marked as a boundary and the function stays open at it; split there, its inner
function becomes a function of the module. -/
theorem comment_boundary_open :
    (ChunkPlan.annotate {} (ChunkPlan.sourceLines noteText))[2]? = some ⟨"# note".toList, true, none⟩ ∧
      (upTo ⟨"/a"⟩ (Text.lines noteText) 2).scopes = [.ofFunction 0] ∧
      (upTo ⟨"/a"⟩ (Text.lines noteText) 3).scopes = [.ofFunction 0] ∧
      (Chunk.merge ⟨"/a"⟩ (ChunkPlan.chunks ⟨1000, 4, 0, true⟩ (Text.encode noteText)).1).functions.map
        FunctionDef.name = ["f", "g"] ∧
      (ofText ⟨"/a"⟩ noteText).functions.map FunctionDef.name = ["f"] := by
  refine ⟨by decide +kernel, by decide +kernel, by decide +kernel, by decide +kernel,
    by decide +kernel⟩

end Outline
end SourceSurvey
