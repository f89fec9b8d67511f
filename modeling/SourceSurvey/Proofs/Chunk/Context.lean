import SourceSurvey.Proofs.Chunk.Merge

/-!
# Context lines

The context of a chunk is there to tell which class is open. The walk over a chunk starts with its
context, though, and knows nothing of what is open before it: a context that begins inside of a string
is read as if the string began where it ends. What a chunk owns is therefore independent of the context
exactly as far as the context closes what it opens (`Chunk.ContextCloses`).

* `Outline.extract_closed`: own lines that start with a statement at the left edge are outlined as if
  nothing stood before them, if the context closes what it opens.
* `Outline.extract_open`: otherwise the first of them is read as one more line of context.
* `ChunkPlan.outline_owned`: both for the chunks of a text.
-/

namespace SourceSurvey

namespace Outline

variable {path : Path} {lines : List (List Char)} {firstLine context number : Nat}
  {enclosing? : Option String} {line : List Char}

/-- The outline with a number of lines. -/
def counted (o : Outline) (lineCount : Nat) : Outline :=
  { o with module := { o.module with lineCount } }

theorem extract_eq_counted (path : Path) (lines : List (List Char)) (firstLine context : Nat)
    (enclosing? : Option String) :
    extract path lines firstLine context enclosing? =
      (walk (start path enclosing?) firstLine context lines).outline.counted
        (lines.length - context) := by
  cases enclosing? <;> rfl

/-- A walk goes over the context and then over the own lines. -/
theorem walk_owned (s : State) (number : Nat) (h : context ≤ lines.length) :
    walk s number context lines =
      walk (walk s number context (lines.take context)) (number + context) 0 (lines.drop context) := by
  conv => lhs; rw [← List.take_append_drop context lines, walk_append]
  rw [List.length_take, Nat.min_eq_left h, Nat.sub_self]

/-- It does not matter to context lines how many more of them follow. -/
theorem walk_context (s : State) (number more : Nat) (h : lines.length ≤ context) :
    walk s number (context + more) lines = walk s number context lines := by
  induction lines generalizing s number context with
  | nil => rfl
  | cons line rest ih =>
    rw [List.length_cons] at h
    have hcontext : decide (context + more = 0) = decide (context = 0) := by
      rw [decide_eq_false (by omega), decide_eq_false (by omega)]
    have hrest : context + more - 1 = context - 1 + more := by omega
    rw [walk, walk, hcontext, hrest, ih _ _ (by omega)]

/-- After a statement at the left edge it does not matter which scopes were open before it. -/
theorem step_left (s s' : State) (hl : s.lexical = s'.lexical) (ho : s.outline = s'.outline)
    (hs : isStatement s line = true) (hi : indentation line = 0) (owned : Bool) (number : Nat) :
    step s owned number line = step s' owned number line := by
  have hs' : isStatement s' line = true := by rwa [isStatement, ← hl]
  have hopened (s : State) : opened s line = [] := by rw [opened, hi, openScopes_zero]
  rw [step_of_isStatement hs, step_of_isStatement hs', statement_eq, statement_eq, hopened, hopened,
    hl, ho]

/-- Own lines alone leave no methods to earlier classes. -/
theorem continued_walk (path : Path) (number : Nat) (lines : List (List Char)) :
    (walk (start path none) number 0 lines).outline.continued = [] := by
  have hagree : Agree (.empty path) False (start path none) (start path none) :=
    ⟨rfl, .nil, (Module.addOutline_empty ..).symm, fun _ => rfl⟩
  exact (hagree.walk List.Pairwise.nil fun h => h.elim).clean id

/-- Own lines that start with a statement at the left edge are outlined as if nothing stood before
them, if the context closes what it opens. -/
theorem extract_closed (path : Path) (firstLine : Nat) (enclosing? : Option String)
    (hline : lines[context]? = some line) (htop : ChunkPlan.startsTopLevel line = true)
    (hcomment : line.head? ≠ some '#')
    (hclosed : ((lines.take context).foldl Lexical.advance {}).atStatementStart = true) :
    extract path lines firstLine context enclosing? =
      extract path (lines.drop context) (firstLine + context) 0 none := by
  obtain ⟨hlength, rfl⟩ := List.getElem?_eq_some_iff.mp hline
  have hlexical : (walk (start path enclosing?) firstLine context (lines.take context)).lexical = {} := by
    rw [lexical_walk]
    exact Lexical.eq_of_atStatementStart hclosed
  have houtline : (walk (start path enclosing?) firstLine context (lines.take context)).outline =
      { module := .empty path } :=
    outline_walk_context _ _ (by rw [List.length_take]; omega)
  have hstatement : isStatement (walk (start path enclosing?) firstLine context (lines.take context))
      lines[context] = true := by
    have hhash : (lines[context].head? == some '#') = false := beq_eq_false_iff_ne.mpr hcomment
    rw [isStatement, hlexical, ChunkPlan.isSilent_of_startsTopLevel htop, hhash]
    rfl
  -- The scopes of the context may differ from none, but the first own line closes them.
  rw [extract_eq_counted, extract_eq_counted, walk_owned _ _ (Nat.le_of_lt hlength),
    List.drop_eq_getElem_cons hlength, walk, walk,
    step_left _ (start path none) hlexical houtline hstatement
      (ChunkPlan.indentation_of_startsTopLevel htop)]
  congr 1
  rw [List.length_cons, List.length_drop]
  omega

/-- If the context leaves something open, the first own line is read as one more line of context. -/
theorem extract_open (path : Path) (firstLine : Nat) (enclosing? : Option String)
    (hlength : context < lines.length)
    (hopen : ((lines.take context).foldl Lexical.advance {}).atStatementStart = false) :
    extract path lines firstLine context enclosing? =
      (extract path lines firstLine (context + 1) enclosing?).counted (lines.length - context) := by
  have hstatement : isStatement (walk (start path enclosing?) firstLine context (lines.take context))
      lines[context] = false := by
    rw [isStatement, lexical_walk]
    exact congrArg (· && _) hopen
  have hcontext := walk_context (start path enclosing?) firstLine 1
    (show (lines.take context).length ≤ context by rw [List.length_take]; omega)
  have hnext : walk (start path enclosing?) firstLine (context + 1) lines =
      walk (step (walk (start path enclosing?) firstLine context (lines.take context)) false
        (firstLine + context) lines[context]) (firstLine + context + 1) 0 (lines.drop (context + 1)) := by
    rw [walk_owned _ _ (show context + 1 ≤ lines.length from hlength),
      ← List.take_append_getElem hlength, walk_append, List.length_take,
      Nat.min_eq_left (Nat.le_of_lt hlength), hcontext, Nat.add_sub_cancel_left, ← Nat.add_assoc]
    rfl
  rw [extract_eq_counted, extract_eq_counted, hnext, walk_owned _ _ (Nat.le_of_lt hlength),
    List.drop_eq_getElem_cons hlength, walk, step_of_not_isStatement hstatement,
    step_of_not_isStatement hstatement]
  rfl

end Outline

/-! ## Chunks -/

namespace Chunk

/-- The own lines of a chunk start with a statement of the source at the left edge that continues no
other one. -/
structure StartsTop (lines : List (List Char)) (c : Chunk) : Prop where
  start : ((lines.take (c.startLine + c.context)).foldl Lexical.advance {}).atStatementStart = true
  top : ∃ line ∈ lines[c.startLine + c.context]?,
    ChunkPlan.startsTopLevel line = true ∧ line.head? ≠ some '#'

/-- The context closes the brackets and strings that it opens. -/
def ContextCloses (c : Chunk) : Prop :=
  ((c.lines.take c.context).foldl Lexical.advance {}).atStatementStart = true

instance (c : Chunk) : Decidable c.ContextCloses := inferInstanceAs (Decidable (_ = true))

/-- The first own line of a chunk of a text, and its context, in the source. -/
theorem first_of_mem_chunks {plan : ChunkPlan} {text : List Char} {c : Chunk}
    (hc : c ∈ (plan.chunks (Text.encode text)).1) :
    c.context < c.lines.length ∧
      c.lines[c.context]? = (ChunkPlan.sourceLines text)[c.startLine + c.context]? ∧
      (ChunkPlan.sourceLines text).take (c.startLine + c.context) =
        (ChunkPlan.sourceLines text).take c.startLine ++ c.lines.take c.context := by
  rw [ChunkPlan.chunks_text] at hc
  obtain ⟨index, first, context, stop, hle, hown, hstop, rfl⟩ :=
    (plan.chunksOf_windows (ChunkPlan.sourceLines text)).exists_eq (Nat.le_refl 0) c hc
  have hlines : (window (ChunkPlan.annotate {} (ChunkPlan.sourceLines text)) index (first - context)
      context stop).lines = ((ChunkPlan.sourceLines text).take stop).drop (first - context) := by
    rw [window, List.map_drop, List.map_take, ChunkPlan.map_text_annotate]
  rw [ChunkPlan.length_annotate] at hstop
  rw [startLine_window, context_window, Nat.sub_add_cancel hle, hlines]
  refine ⟨?_, ?_, ?_⟩
  · rw [List.length_drop, List.length_take]
    omega
  · rw [List.getElem?_drop, Nat.sub_add_cancel hle, List.getElem?_take_of_lt hown]
  · rw [List.take_drop, Nat.sub_add_cancel hle, List.take_take, Nat.min_eq_left (Nat.le_of_lt hown)]
    exact take_eq_append _ (Nat.sub_le first context)

end Chunk

namespace ChunkPlan

/-- Let the own lines of a chunk start with a statement at the left edge. If the context closes what it
opens, the chunk has the outline of its own lines alone and leaves no methods to earlier classes; if it
does not, the first own line is read as one more line of context. It does so if a statement can start
in front of the context. -/
theorem outline_owned (plan : ChunkPlan) (path : Path) (text : List Char) {c : Chunk}
    (hc : c ∈ (plan.chunks (Text.encode text)).1) (ht : c.StartsTop (sourceLines text)) :
    (c.ContextCloses →
      c.outline path =
          Outline.extract path c.ownedLines (c.startLine + c.context + 1) 0 none ∧
        (c.outline path).continued = []) ∧
      (¬c.ContextCloses →
        c.outline path =
          (Outline.extract path c.lines (c.startLine + 1) (c.context + 1) c.enclosing?).counted
            c.ownedLines.length) ∧
      (((((sourceLines text).take c.startLine).foldl Lexical.advance {}).atStatementStart = true) →
        c.ContextCloses) := by
  obtain ⟨hown, hfirst, hcontext⟩ := Chunk.first_of_mem_chunks hc
  obtain ⟨hstart, line, hline, htop, hcomment⟩ := ht
  refine ⟨fun hclosed => ?_, fun hopen => ?_, fun hbegin => ?_⟩
  · have hextract := Outline.extract_closed path (c.startLine + 1) c.enclosing? (hfirst.trans hline)
      htop hcomment hclosed
    rw [Nat.add_right_comm] at hextract
    rw [Chunk.outline, hextract]
    refine ⟨rfl, ?_⟩
    rw [Outline.extract_eq_counted]
    exact Outline.continued_walk ..
  · rw [Chunk.ContextCloses, Bool.not_eq_true] at hopen
    rw [Chunk.outline, Outline.extract_open path (c.startLine + 1) c.enclosing? hown hopen,
      Chunk.ownedLines, List.length_drop]
  · rw [hcontext, List.foldl_append, Lexical.eq_of_atStatementStart hbegin] at hstart
    exact hstart

/-- A class with two methods and two variables. -/
def shelfText : List Char :=
  ["class A:\n", "    def f(self): pass\n", "    def g(self): pass\n", "x = 1\n", "y = 2\n"].flatMap
    String.toList

/-- The chunk of the text that owns the first variable and repeats both methods. -/
def shelfChunk : Chunk :=
  { index := 1, startLine := 1, context := 2, enclosing? := some "A"
    lines := ["    def f(self): pass".toList, "    def g(self): pass".toList, "x = 1".toList] }

/-- The variable is the only record of the chunk, though it starts inside of the class. -/
theorem outline_owned_shelf :
    shelfChunk ∈ (chunks ⟨1000, 4, 2, true⟩ (Text.encode shelfText)).1 ∧
      shelfChunk.StartsTop (sourceLines shelfText) ∧ shelfChunk.ContextCloses ∧
      shelfChunk.outline ⟨"/a"⟩ = Outline.extract ⟨"/a"⟩ ["x = 1".toList] 4 0 none ∧
      (shelfChunk.outline ⟨"/a"⟩).continued = [] ∧
      (shelfChunk.outline ⟨"/a"⟩).module.globals = [{ name := "x", line := 4 }] := by
  have hmem : shelfChunk ∈ (chunks ⟨1000, 4, 2, true⟩ (Text.encode shelfText)).1 := by
    decide +kernel
  have htop : shelfChunk.StartsTop (sourceLines shelfText) := ⟨by decide +kernel, by decide +kernel⟩
  have hcloses : shelfChunk.ContextCloses := by decide +kernel
  obtain ⟨houtline, hcontinued⟩ := (outline_owned ⟨1000, 4, 2, true⟩ ⟨"/a"⟩ shelfText hmem htop).1 hcloses
  exact ⟨hmem, htop, hcloses, houtline, hcontinued, by decide +kernel⟩

/-- A string over three lines and a variable. -/
def letterText : List Char := ["s = \"\"\"\n", "text\n", "\"\"\"\n", "x = 1\n"].flatMap String.toList

/-- The chunk of the text that owns the last variable and repeats the end of the string. -/
def letterChunk : Chunk :=
  { index := 1, startLine := 2, context := 1, enclosing? := none
    lines := ["\"\"\"".toList, "x = 1".toList] }

/-- The end of the string is read as the start of one, so that the variable is lost. -/
theorem outline_owned_lost :
    letterChunk ∈ (chunks ⟨1000, 4, 1, true⟩ (Text.encode letterText)).1 ∧
      letterChunk.StartsTop (sourceLines letterText) ∧ ¬letterChunk.ContextCloses ∧
      (letterChunk.outline ⟨"/a"⟩).module.globals = [] ∧
      (Outline.extract ⟨"/a"⟩ letterChunk.ownedLines 4 0 none).module.globals =
        [{ name := "x", line := 4 }] :=
  ⟨by decide +kernel, ⟨by decide +kernel, by decide +kernel⟩, by decide +kernel, by decide +kernel,
    by decide +kernel⟩

end ChunkPlan
end SourceSurvey
