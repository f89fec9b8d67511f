import SourceSurvey.Proofs.Chunk.Merge
import SourceSurvey.Proofs.Tree.Names

/-!
# Records stand in the order of their lines

What one line adds to the merged record of the chunks so far is said once (`Module.Gains`): a single
definition, some imports or nothing, each with the number of the line. It is so for every line of
every chunk (`Outline.gains_step`), also where the chunk was cut inside of a string or a body and its
walk has other scopes open than the walk over the whole source. As the own lines of the chunks are
the lines of the source one after the other, the records come in their order.

* `Module.InOrder.walk`: the merged record stays in order along the walk over a chunk.
* `LargeFiles.parseFile_inOrder`: the record of a file that is read in chunks is in order.
-/

namespace SourceSurvey

namespace Module

/-! ## Order -/

/-- The lines of all classes, functions, methods and variables. -/
def definitionLines (m : Module) : List Nat :=
  m.classes.map ClassDef.line ++ m.functions.map FunctionDef.line ++
    m.classes.flatMap (fun c => c.methods.map FunctionDef.line) ++ m.globals.map Variable.line

/-- The lines of all imports. -/
def importLines (m : Module) : List Nat := m.imports.map Import.line

/-- The records of each kind stand in the order of their lines, a method below the header of its
class; the lines are numbered from one up to `last`, and a line has no records, a single definition
or imports. -/
structure InOrder (m : Module) (last : Nat) : Prop where
  classes : (m.classes.map ClassDef.line).Pairwise (· < ·)
  functions : (m.functions.map FunctionDef.line).Pairwise (· < ·)
  globals : (m.globals.map Variable.line).Pairwise (· < ·)
  imports : m.importLines.Pairwise (· ≤ ·)
  methods : ∀ c ∈ m.classes, (c.methods.map FunctionDef.line).Pairwise (· < ·)
  inside : ∀ c ∈ m.classes, ∀ f ∈ c.methods, c.line < f.line
  within : ∀ n ∈ m.definitionLines ++ m.importLines, 1 ≤ n ∧ n ≤ last
  single : m.definitionLines.Nodup
  apart : m.definitionLines.Disjoint m.importLines

theorem inOrder_empty (path : Path) : (Module.empty path).InOrder 0 := by
  constructor <;> simp [empty, importLines, definitionLines]

theorem line_mem_of_class {m : Module} {c : ClassDef} (h : c ∈ m.classes) :
    c.line ∈ m.definitionLines := by
  simp only [definitionLines, List.mem_append, List.mem_map]
  exact .inl (.inl (.inl ⟨c, h, rfl⟩))

theorem line_mem_of_method {m : Module} {c : ClassDef} {f : FunctionDef} (h : c ∈ m.classes)
    (hf : f ∈ c.methods) : f.line ∈ m.definitionLines := by
  simp only [definitionLines, List.mem_append, List.mem_flatMap, List.mem_map]
  exact .inl (.inr ⟨c, h, f, hf, rfl⟩)

/-- The counts of lines and chunks do not matter. -/
theorem InOrder.counted {m : Module} {last : Nat} (h : m.InOrder last) (lineCount chunkCount : Nat) :
    InOrder { m with lineCount, chunkCount } last :=
  { h with }

/-! ## Gains -/

/-- A record gains what a single line yields: a definition of the number of the line, imports of that
number or nothing. -/
inductive Gains (n : Nat) (m : Module) : Module → Prop
  | nothing : Gains n m m
  | ofClass {c : ClassDef} (line : c.line = n) (methods : c.methods = []) :
      Gains n m { m with classes := m.classes ++ [c] }
  | ofFunction {f : FunctionDef} (line : f.line = n) :
      Gains n m { m with functions := m.functions ++ [f] }
  | ofMethod {f : FunctionDef} {before after : List ClassDef} {c : ClassDef} (line : f.line = n)
      (classes : m.classes = before ++ c :: after) :
      Gains n m { m with classes := before ++ { c with methods := c.methods ++ [f] } :: after }
  | ofImports {imports : List Import} (lines : ∀ i ∈ imports, i.line = n) :
      Gains n m { m with imports := m.imports ++ imports }
  | ofGlobal {v : Variable} (line : v.line = n) :
      Gains n m { m with globals := m.globals ++ [v] }

variable {m m' : Module} {last n : Nat}

/-- The lines that are gained: that of a definition, those of imports or none. -/
theorem Gains.lines (h : Gains n m m') :
    m'.definitionLines.Perm m.definitionLines ∧
        (∃ lines, m'.importLines = m.importLines ++ lines ∧ ∀ k ∈ lines, k = n) ∨
      m'.definitionLines.Perm (n :: m.definitionLines) ∧ m'.importLines = m.importLines := by
  cases h with
  | nothing => exact .inl ⟨.refl _, [], by simp⟩
  | ofImports lines =>
    exact .inl ⟨.refl _, _, List.map_append, by simpa using lines⟩
  | ofClass line methods =>
    refine .inr ⟨List.perm_iff_count.mpr fun k => ?_, rfl⟩
    simp [definitionLines, methods, line, List.count_cons]
    omega
  | ofFunction line =>
    refine .inr ⟨List.perm_iff_count.mpr fun k => ?_, rfl⟩
    simp [definitionLines, line, List.count_cons]
    omega
  | ofMethod line classes =>
    refine .inr ⟨List.perm_iff_count.mpr fun k => ?_, rfl⟩
    simp [definitionLines, classes, line, List.count_cons]
    omega
  | ofGlobal line =>
    refine .inr ⟨List.perm_iff_count.mpr fun k => ?_, rfl⟩
    simp [definitionLines, line, List.count_cons]
    omega

/-- The lines of a record are those before the next line, which yields a single definition or imports
alone. -/
theorem InOrder.gains_lines (h : m.InOrder last) (hg : Gains (last + 1) m m') :
    (∀ n ∈ m'.definitionLines ++ m'.importLines, 1 ≤ n ∧ n ≤ last + 1) ∧ m'.definitionLines.Nodup ∧
      m'.definitionLines.Disjoint m'.importLines := by
  have hwithin : ∀ n, n ∈ m.definitionLines ∨ n ∈ m.importLines → 1 ≤ n ∧ n ≤ last :=
    fun n hn => h.within n (List.mem_append.mpr hn)
  -- The definitions gain nothing and the imports may, or the definitions gain the line alone.
  obtain ⟨hd, lines, hi, hlines⟩ | ⟨hd, hi⟩ := hg.lines
  · rw [hi]
    refine ⟨fun n hn => ?_, hd.nodup_iff.mpr h.single, fun n hn hn' => ?_⟩
    · rcases List.mem_append.mp hn with hn | hn
      · have := hwithin n (.inl (hd.mem_iff.mp hn))
        omega
      · rcases List.mem_append.mp hn with hn | hn
        · have := hwithin n (.inr hn)
          omega
        · have := hlines n hn
          omega
    · have hn := hd.mem_iff.mp hn
      rcases List.mem_append.mp hn' with hn' | hn'
      · exact h.apart hn hn'
      · have := hwithin n (.inl hn)
        have := hlines n hn'
        omega
  · have hnew : last + 1 ∉ m.definitionLines := fun hn => by
      have := hwithin _ (.inl hn)
      omega
    rw [hi]
    refine ⟨fun n hn => ?_, hd.nodup_iff.mpr (List.nodup_cons.mpr ⟨hnew, h.single⟩),
      fun n hn hn' => ?_⟩
    · rcases List.mem_append.mp hn with hn | hn
      · rcases List.mem_cons.mp (hd.mem_iff.mp hn) with rfl | hn
        · omega
        · have := hwithin n (.inl hn)
          omega
      · have := hwithin n (.inr hn)
        omega
    · rcases List.mem_cons.mp (hd.mem_iff.mp hn) with rfl | hn
      · have := hwithin _ (.inr hn')
        omega
      · exact h.apart hn hn'

/-- A line after all others extends lines in order. -/
theorem pairwise_concat {lines : List Nat} (h : lines.Pairwise (· < ·)) (hn : ∀ k ∈ lines, k < n) :
    (lines ++ [n]).Pairwise (· < ·) :=
  List.pairwise_append.mpr ⟨h, List.pairwise_singleton _ n, by simpa using hn⟩

/-- A record stays in order with what the next line yields. -/
theorem InOrder.gains (h : m.InOrder last) (hg : Gains (last + 1) m m') : m'.InOrder (last + 1) := by
  obtain ⟨within, single, apart⟩ := h.gains_lines hg
  have hbefore : ∀ n ∈ m.definitionLines, n < last + 1 := fun n hn =>
    Nat.lt_succ_of_le (h.within n (List.mem_append_left _ hn)).2
  cases hg with
  | nothing => exact { h with within }
  | @ofImports added lines =>
    refine { h with within, apart, imports := ?_ }
    rw [importLines, List.map_append, List.pairwise_append]
    have hsame : ∀ n ∈ added.map Import.line, n = last + 1 := by simpa using lines
    refine ⟨h.imports, List.pairwise_of_forall_mem_list fun a ha b hb => ?_, fun a ha b hb => ?_⟩
    · rw [hsame a ha, hsame b hb]
    · have := h.within a (List.mem_append_right _ ha)
      have := hsame b hb
      omega
  | ofClass line methods =>
    refine { h with within, single, apart, classes := ?_, methods := ?_, inside := ?_ }
    · rw [List.map_append, List.map_singleton, line]
      exact pairwise_concat h.classes fun n hn => hbefore n (by simp [definitionLines, hn])
    · refine List.forall_mem_append.mpr ⟨h.methods, List.forall_mem_singleton.mpr ?_⟩
      rw [methods]
      exact List.Pairwise.nil
    · refine List.forall_mem_append.mpr ⟨h.inside, List.forall_mem_singleton.mpr ?_⟩
      rw [methods]
      exact fun f hf => nomatch hf
  | ofFunction line =>
    refine { h with within, single, apart, functions := ?_ }
    rw [List.map_append, List.map_singleton, line]
    exact pairwise_concat h.functions fun n hn => hbefore n (by simp [definitionLines, hn])
  | @ofMethod f before after c line classes =>
    have hc : c ∈ m.classes := by simp [classes]
    have hother : ∀ d, d ∈ before ∨ d ∈ after → d ∈ m.classes := by
      rintro d (hd | hd) <;> simp [classes, hd]
    have hlines := h.classes
    rw [classes] at hlines
    refine { h with within, single, apart, classes := by simpa using hlines, methods := ?_, inside := ?_ }
    · refine List.forall_mem_append.mpr ⟨fun d hd => h.methods d (hother d (.inl hd)),
        List.forall_mem_cons.mpr ⟨?_, fun d hd => h.methods d (hother d (.inr hd))⟩⟩
      rw [List.map_append, List.map_singleton, line]
      refine pairwise_concat (h.methods c hc) fun n hn => hbefore n ?_
      obtain ⟨g, hg, rfl⟩ := List.mem_map.mp hn
      exact line_mem_of_method hc hg
    · refine List.forall_mem_append.mpr ⟨fun d hd => h.inside d (hother d (.inl hd)),
        List.forall_mem_cons.mpr ⟨?_, fun d hd => h.inside d (hother d (.inr hd))⟩⟩
      refine List.forall_mem_append.mpr ⟨h.inside c hc, List.forall_mem_singleton.mpr ?_⟩
      rw [line]
      exact hbefore c.line (line_mem_of_class hc)
  | ofGlobal line =>
    refine { h with within, single, apart, globals := ?_ }
    rw [List.map_append, List.map_singleton, line]
    exact pairwise_concat h.globals fun n hn => hbefore n (by simp [definitionLines, hn])

end Module

/-! ## What a line yields -/

namespace Outline

open SourceSurvey.Module (Gains addContinued)

/-- A method joins one of the classes or none. -/
theorem addMethod_cases (classes : List ClassDef) (index : Nat) (f : FunctionDef) :
    addMethod classes index f = classes ∨
      ∃ before c after, classes = before ++ c :: after ∧
        addMethod classes index f = before ++ { c with methods := c.methods ++ [f] } :: after := by
  induction classes generalizing index with
  | nil => exact .inl (by cases index <;> rfl)
  | cons c classes ih =>
    cases index with
    | zero => exact .inr ⟨[], c, classes, rfl, rfl⟩
    | succ index =>
      have hrest : addMethod (c :: classes) (index + 1) f = c :: addMethod classes index f := rfl
      rw [hrest]
      obtain h | ⟨before, d, after, rfl, h⟩ := ih index
      · exact .inl (by rw [h])
      · exact .inr ⟨c :: before, d, after, rfl, by rw [h]; rfl⟩

/-- A method of an earlier class joins one of the classes or none. -/
theorem addContinued_cases (classes : List ClassDef) (name : String) (f : FunctionDef) :
    addContinued classes name f = classes ∨
      ∃ before c after, classes = before ++ c :: after ∧
        addContinued classes name f = before ++ { c with methods := c.methods ++ [f] } :: after := by
  unfold addContinued
  split
  · exact addMethod_cases ..
  · exact .inl rfl

variable (m : Module) {o : Outline} {s : State} {number : Nat} {line : List Char}

/-- A function is one of the functions, a method of one of the classes or no record at all. -/
theorem gains_addFunction (scopes : List Scope) {f : FunctionDef} (h : f.line = number) :
    Gains number (m.addOutline o) (m.addOutline (addFunction o scopes f)) := by
  unfold addFunction
  split
  · have hfunction := Gains.ofFunction (m := m.addOutline o) h
    simpa [Module.addOutline_eq, Module.withContinued] using hfunction
  · rename_i index _
    have hmerged : m.addOutline
        { o with module := { o.module with classes := addMethod o.module.classes index f } } =
          { m.addOutline o with
            classes := m.withContinued o ++ addMethod o.module.classes index f } := rfl
    rw [hmerged]
    obtain hclasses | ⟨before, c, after, hbefore, hclasses⟩ :=
      addMethod_cases o.module.classes index f
    · rw [hclasses]
      exact .nothing
    · rw [hclasses, ← List.append_assoc]
      exact .ofMethod h (by simp [Module.addOutline_eq, hbefore])
  · rename_i name _
    have hmerged : m.addOutline { o with continued := o.continued ++ [(name, f)] } =
        { m.addOutline o with
          classes := addContinued (m.withContinued o) name f ++ o.module.classes } := by
      rw [Module.addOutline_eq, Module.withContinued_concat]
      rfl
    rw [hmerged]
    obtain hclasses | ⟨before, c, after, hbefore, hclasses⟩ :=
      addContinued_cases (m.withContinued o) name f
    · rw [hclasses]
      exact .nothing
    · rw [hclasses, List.append_assoc, List.cons_append]
      exact .ofMethod h (by simp [Module.addOutline_eq, hbefore])
  · exact .nothing

/-- A statement that opens nothing is imports, a variable or no record at all. -/
theorem gains_addStatement (scopes : List Scope) (indent number : Nat) (code : List Char) :
    Gains number m (addStatement m scopes indent number code) := by
  unfold addStatement
  split
  · exact .ofImports (by simp)
  · split
    · refine .ofImports fun i hi => ?_
      obtain ⟨part, -, hpart⟩ := List.mem_filterMap.mp hi
      dsimp only at hpart
      split at hpart
      · exact nomatch hpart
      · cases hpart
        rfl
    · split
      · split
        · exact .ofGlobal rfl
        · exact .nothing
      · exact .nothing

/-- The record of a header has the number of its line. -/
theorem line_of_heading_class {c : ClassDef} (h : heading number line = .ofClass c) :
    c.line = number ∧ c.methods = [] := by
  unfold heading at h
  split at h
  · cases h
    exact ⟨rfl, rfl⟩
  · split at h <;> exact nomatch h

theorem line_of_heading_function {f : FunctionDef} (h : heading number line = .ofFunction f) :
    f.line = number := by
  unfold heading at h
  split at h
  · exact nomatch h
  · split at h
    · cases h
      rfl
    · exact nomatch h

/-- The merged record gains what a line of a chunk yields, whatever the scopes are. -/
theorem gains_step (owned : Bool) :
    Gains number (m.addOutline s.outline) (m.addOutline (step s owned number line).outline) := by
  cases hs : isStatement s line with
  | false =>
    rw [step_of_not_isStatement hs]
    exact .nothing
  | true =>
    rw [step_of_isStatement hs]
    cases owned with
    | false =>
      rw [outline_statement_context]
      exact .nothing
    | true =>
      rw [statement_eq]
      cases hh : heading number line with
      | ofClass c =>
        obtain ⟨hline, hmethods⟩ := line_of_heading_class hh
        simp only [if_true, Module.addOutline_addClass]
        exact .ofClass hline hmethods
      | ofFunction f =>
        exact gains_addFunction m _ (line_of_heading_function hh)
      | plain =>
        have hleft : indentation line = 0 →
            opened { s with lexical := s.lexical.advance line } line = [] ∧
              opened { s with lexical := s.lexical.advance line } line = [] := by
          intro hi
          simp [opened, hi]
        simp only [if_true, Module.addOutline_addPlain _ _ hleft]
        exact gains_addStatement ..

end Outline

/-! ## Walks and windows -/

/-- The merged record stays in order along the walk over a chunk. -/
theorem Module.InOrder.walk {m : Module} {s : Outline.State} {last : Nat}
    (h : (m.addOutline s.outline).InOrder last) (context : Nat) (lines : List (List Char)) :
    (m.addOutline (Outline.walk s (last + 1) context lines).outline).InOrder
      (last + lines.length) := by
  -- The order is kept whatever the scopes and the scanner are, so the record alone carries it.
  induction lines generalizing s last context with
  | nil => exact h
  | cons line rest ih =>
    rw [Outline.walk, List.length_cons, Nat.add_comm rest.length, ← Nat.add_assoc]
    exact ih (h.gains (Outline.gains_step m _)) _

namespace ChunkPlan

variable {plan : ChunkPlan} {marked : List MarkedLine} {index first context : Nat}
  {chunks : List Chunk}

/-- The merged record stays in order from window to window. -/
theorem Windows.inOrder (path : Path) (h : Windows plan marked index first context chunks)
    (hc : context ≤ first) {m : Module} (hm : m.InOrder first) :
    (chunks.foldl (fun m c => m.addOutline (c.outline path)) m).InOrder marked.length := by
  induction h generalizing m with
  | done => exact hm
  | @next index first context stop chunks owns fits rest ih =>
    refine ih (by omega) ?_
    obtain ⟨lineCount, s, rfl, houtline⟩ := Chunk.outline_window path index rfl hc
      (Nat.le_of_lt owns) (show stop ≤ (marked.map MarkedLine.text).length by simpa using fits)
    have hentry : (m.addOutline (Chunk.entry path (marked.map MarkedLine.text) first context
        (marked[first - context]?.bind MarkedLine.openClass?)).outline).InOrder first := by
      rwa [Chunk.outline_entry hc, Module.addOutline_empty]
    have hwalk := hentry.walk 0 (((marked.map MarkedLine.text).take stop).drop first)
    have hstop : first + (((marked.map MarkedLine.text).take stop).drop first).length = stop := by
      rw [List.length_drop, List.length_take, List.length_map]
      omega
    rw [hstop] at hwalk
    show (m.addOutline (Chunk.outline _ path)).InOrder stop
    rw [houtline]
    exact hwalk

end ChunkPlan

namespace LargeFiles

/-- The record of a file that is read in chunks counts its lines and is in order, wherever the file
is split. -/
theorem parseFile_inOrder (l : LargeFiles) {t : Tree} {path : Path} {text : List Char}
    (hread : t.read path = .ok (Text.encode text)) :
    ∃ m, (l.parseFile t path).1 = .ok m ∧ m.lineCount = (ChunkPlan.sourceLines text).length ∧
      m.InOrder m.lineCount := by
  have hw := l.plan.chunksOf_windows (ChunkPlan.sourceLines text)
  have hlast := hw.endLine_last (Nat.le_refl 0)
  have horder := hw.inOrder path (Nat.le_refl 0) (Module.inOrder_empty path)
  rw [ChunkPlan.length_annotate] at hlast horder
  refine ⟨_, parseFile_text l hread, ?_⟩
  rw [ChunkPlan.chunks_text]
  have hcount : (Chunk.merge path
      (l.plan.chunksOf (ChunkPlan.sourceLines text) .complete)).lineCount =
        (ChunkPlan.sourceLines text).length := hlast
  refine ⟨hcount, ?_⟩
  rw [hcount]
  exact horder.counted _ _

/-- Imports, a method with a string over several lines, another one, and a second class of the same
name. -/
def stairsText : List Char :=
  ["import a, b\n", "class A:\n", "    def f(self):\n", "        \"\"\"\n", "        def g(self):\n",
    "        \"\"\"\n", "    def h(self): pass\n", "class A:\n", "    x = 1\n",
    "    def k(self): pass\n", "y = 2\n"].flatMap String.toList

/-- A tree with a file of that text. -/
def stairsTree : Tree :=
  { nodes := [(["a"], .file (Text.encode stairsText) ⟨0, 0⟩)], now := ⟨0, 0⟩ }

/-- Chunks of three lines that repeat one, split anywhere. -/
def stairsFiles : LargeFiles := ⟨⟨1000, 3, 1, false⟩, 0⟩

/-- The record of the file. The chunk that starts in the string takes its end for the start of another
one and loses the method after it. -/
def stairsModule : Module :=
  { path := ⟨"/a"⟩, name := "a"
    imports := [{ source := "a", line := 1 }, { source := "b", line := 1 }]
    classes := [{ name := "A", line := 2, methods := [{ name := "f", line := 3, parameters := ["self"] }] },
      { name := "A", line := 8, methods := [{ name := "k", line := 10, parameters := ["self"] }] }]
    globals := [{ name := "y", line := 11 }], lineCount := 11, chunkCount := 5 }

/-- The records that are left are in order. -/
theorem parseFile_inOrder_stairs :
    (stairsFiles.parseFile stairsTree ⟨"/a"⟩).1 = .ok stairsModule ∧ stairsModule.InOrder 11 := by
  have hlocate : stairsTree.locate ⟨"/a"⟩ = .ok (["a"], .file (Text.encode stairsText) ⟨0, 0⟩) :=
    Tree.locate_top ⟨by decide, by decide⟩ (by decide) (by decide) (by decide)
      (.of_name (by decide) (by decide)) rfl
  have hread : stairsTree.read ⟨"/a"⟩ = .ok (Text.encode stairsText) := by
    rw [Tree.read, hlocate]
    rfl
  have hmodule : Chunk.merge ⟨"/a"⟩ (stairsFiles.plan.chunks (Text.encode stairsText)).1 =
      stairsModule := by decide +kernel
  obtain ⟨m, hm, -, horder⟩ := parseFile_inOrder stairsFiles hread
  obtain rfl : stairsModule = m := by
    rw [← hmodule]
    exact Except.ok.inj ((parseFile_text stairsFiles hread).symm.trans hm)
  exact ⟨hm, horder⟩

end LargeFiles
end SourceSurvey
