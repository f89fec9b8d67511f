import SourceSurvey.Proofs.Chunk.Merge
import SourceSurvey.Proofs.Tree.Names

/-!
# Flat sources

In a flat source every line is at the start of a statement, classes stand at the left edge, and
functions do not stand inside of functions (`Outline.Flat`). The class that is open before a line is
then all that a chunk has to know of the lines before it: the marking of the lines carries its name
(`Outline.views_upTo`), the context of a chunk keeps it (`Outline.views_walk_context`), and so a flat
source has the same record whole and in chunks, wherever it is split (`LargeFiles.parseFile_flat`).
-/

namespace SourceSurvey

namespace ChunkPlan

/-- Whether a line at the left edge continues the statement before it. -/
def isContinuation (line : List Char) : Bool :=
  continuations.contains
    (String.ofList (line.takeWhile fun c => Text.isAlphanumeric c || c == '_'))

/-- Whether a line at the left edge is a statement of its own. -/
def isTop (line : List Char) : Bool := startsTopLevel line && line.head? != some '#'

end ChunkPlan

namespace Outline

/-- Whether a line is the header of a class. -/
def isClass (line : List Char) : Bool := (Header.class? (Text.trimStart line)).isSome

/-- Every line starts a statement, classes stand at the left edge, no function stands inside of a
function, and a line that continues the last statement at the left edge does not continue a class. -/
structure Flat (path : Path) (lines : List (List Char)) : Prop where
  starts : ∀ i < lines.length, ((lines.take i).foldl Lexical.advance {}).atStatementStart = true
  classes : ∀ line ∈ lines, isClass line = true → indentation line = 0
  functions : ∀ i (hi : i < lines.length), isLocalDef (upTo path lines i) lines[i] = false
  continuations : ∀ i (hi : i < lines.length), ChunkPlan.isContinuation lines[i] = true →
    ∀ header ∈ (lines.take i).reverse.find? ChunkPlan.isTop, isClass header = false

instance (path : Path) (lines : List (List Char)) : Decidable (Flat path lines) :=
  decidable_of_iff
    ((∀ i < lines.length, ((lines.take i).foldl Lexical.advance {}).atStatementStart = true) ∧
      (∀ line ∈ lines, isClass line = true → indentation line = 0) ∧
      (∀ i (hi : i < lines.length), isLocalDef (upTo path lines i) lines[i] = false) ∧
      ∀ i (hi : i < lines.length), ChunkPlan.isContinuation lines[i] = true →
        ∀ header ∈ (lines.take i).reverse.find? ChunkPlan.isTop, isClass header = false)
    ⟨fun ⟨starts, classes, functions, continuations⟩ => ⟨starts, classes, functions, continuations⟩,
      fun ⟨starts, classes, functions, continuations⟩ => ⟨starts, classes, functions, continuations⟩⟩

/-! ## Lines -/

variable {line : List Char} {number : Nat}

theorem trimStart_of_indentation (h : indentation line = 0) : Text.trimStart line = line := by
  cases line with
  | nil => rfl
  | cons c rest =>
    rw [indentation, List.takeWhile_cons] at h
    rw [Text.trimStart, List.dropWhile_cons]
    split
    · rename_i hc
      rw [hc] at h
      simp [Text.byteLength, Nat.add_eq_zero_iff, Nat.ne_of_gt c.utf8Size_pos] at h
    · rfl

theorem exists_eq_cons_of_class? {code : List Char} (h : (Header.class? code).isSome = true) :
    ∃ rest, code = 'c' :: rest := by
  have hword : "class".toList.isPrefixOf code = true := by
    by_contra hw
    rw [Header.class?, Header.word?, if_neg hw] at h
    simp at h
  obtain ⟨rest, rfl⟩ := List.isPrefixOf_iff_prefix.mp hword
  exact ⟨_, rfl⟩

/-- The header of a class at the left edge starts a top-level construct. -/
theorem isTop_of_isClass (h : isClass line = true) (hi : indentation line = 0) :
    ChunkPlan.isTop line = true := by
  rw [isClass, trimStart_of_indentation hi] at h
  obtain ⟨rest, rfl⟩ := exists_eq_cons_of_class? h
  have hletter : Text.isAlphanumeric 'c' = true := by decide
  have hblank : Text.isBlank 'c' = false := by decide
  have hword (w : List Char) : ChunkPlan.continuations.contains (String.ofList ('c' :: w)) = false := by
    rw [List.contains_eq_mem, decide_eq_false_iff_not]
    intro hmem
    have hhead : ∀ s ∈ ChunkPlan.continuations, s.toList.head? ≠ some 'c' := by decide
    exact hhead _ hmem (by rw [String.toList_ofList, List.head?_cons])
  have hfirst : ('c' :: rest).takeWhile (fun c => Text.isAlphanumeric c || c == '_') =
      'c' :: rest.takeWhile fun c => Text.isAlphanumeric c || c == '_' := by
    rw [List.takeWhile_cons, hletter]
    rfl
  rw [ChunkPlan.isTop, ChunkPlan.startsTopLevel, hfirst, hword, hblank]
  rfl

theorem isClass_of_heading {c : ClassDef} (h : heading number line = .ofClass c) :
    isClass line = true ∧ ChunkPlan.className? line = some c.name := by
  unfold heading at h
  split at h
  · cases h
    rename_i hc
    exact ⟨by rw [isClass, hc]; rfl, by rw [ChunkPlan.className?, hc]; rfl⟩
  · split at h <;> exact nomatch h

theorem isClass_eq_false (number : Nat) (h : ∀ c, heading number line ≠ .ofClass c) :
    isClass line = false := by
  unfold heading at h
  split at h
  · exact absurd rfl (h _)
  · rename_i hc
    rw [isClass, hc]
    rfl

/-- A line at the left edge that is not silent is a statement of its own or continues one. -/
theorem isTop_or_isContinuation (hs : isSilent line = false) (hi : indentation line = 0) :
    ChunkPlan.isTop line = true ∨ ChunkPlan.isContinuation line = true := by
  cases line with
  | nil => exact nomatch hs
  | cons c rest =>
    have hblank : Text.isBlank c = false := by
      by_contra hc
      have htrim := trimStart_of_indentation hi
      have hshort := List.length_dropWhile_le Text.isBlank rest
      rw [Text.trimStart, List.dropWhile_cons, if_pos (by simpa using hc)] at htrim
      rw [htrim, List.length_cons] at hshort
      omega
    rw [isSilent, trimStart_of_indentation hi] at hs
    rw [ChunkPlan.isTop, ChunkPlan.startsTopLevel, hblank, ChunkPlan.isContinuation, List.head?_cons,
      bne, Option.some_beq_some]
    cases ChunkPlan.continuations.contains
      (String.ofList ((c :: rest).takeWhile fun c => Text.isAlphanumeric c || c == '_')) with
    | true => exact .inr rfl
    | false => simp_all

/-! ## The open class -/

/-- The names of the classes that a walk has collected. -/
def State.names (s : State) : List String := s.outline.module.classes.map ClassDef.name

variable {s part : State}

theorem names_addFunction (o : Outline) (scopes : List Scope) (f : FunctionDef) :
    (addFunction o scopes f).module.classes.map ClassDef.name =
      o.module.classes.map ClassDef.name := by
  unfold addFunction
  split <;> simp [map_name_addMethod]

theorem classes_addStatement (m : Module) (scopes : List Scope) (indent number : Nat)
    (code : List Char) : (addStatement m scopes indent number code).classes = m.classes := by
  unfold addStatement
  split
  · rfl
  · split
    · rfl
    · split
      · split <;> rfl
      · rfl

/-- Only the header of a class adds a name. -/
theorem names_statement : (statement s true number line).names =
    match heading number line with
    | .ofClass c => s.names ++ [c.name]
    | _ => s.names := by
  rw [statement_eq]
  cases heading number line with
  | ofClass c => simp [State.names, addClass]
  | ofFunction f => exact names_addFunction _ _ f
  | plain => simp [State.names, addPlain, classes_addStatement]

/-- A class at the left edge is known by its name to a part that starts after it. -/
theorem views_ofClass {c : ClassDef} (h : heading number line = .ofClass c)
    (hi : indentation line = 0) :
    Views (statement s true number line).names True (statement s true number line).scopes
      [.ofClass 0 (.context c.name)] := by
  have hnames : (statement s true number line).names = s.names ++ [c.name] := by
    rw [names_statement, h]
  have hscopes : (statement s true number line).scopes =
      [.ofClass 0 (.owned ((s.names ++ [c.name]).length - 1))] := by
    rw [statement_eq, h]
    simp [opened, hi, State.names]
  rw [hnames, hscopes]
  exact .cons (.context 0 trivial (by simp)) .nil

/-! ## Context lines -/

/-- The context of a part keeps its view. -/
theorem views_statement_context (hs : Views s.names True (opened s line) (opened part line))
    (hc : isClass line = true → indentation line = 0) :
    Views (statement s true number line).names True (statement s true number line).scopes
      (statement part false number line).scopes := by
  cases hh : heading number line with
  | ofClass c =>
    have hi := hc (isClass_of_heading hh).1
    have hpart : (statement part false number line).scopes = [.ofClass 0 (.context c.name)] := by
      rw [statement_eq, hh]
      simp [opened, hi]
    rw [hpart]
    exact views_ofClass hh hi
  | ofFunction f =>
    rw [names_statement, statement_eq, statement_eq, hh]
    exact .cons (.function _) hs
  | plain =>
    rw [names_statement, statement_eq, statement_eq, hh]
    exact hs

theorem views_step_context (hv : Views s.names True s.scopes part.scopes)
    (hl : s.lexical = part.lexical) (hn : Nested s.scopes)
    (hc : isClass line = true → indentation line = 0) :
    Views (step s true number line).names True (step s true number line).scopes
      (step part false number line).scopes := by
  have hsame : isStatement s line = isStatement part line := by rw [isStatement, isStatement, hl]
  cases hs : isStatement s line with
  | true =>
    rw [step_of_isStatement hs, step_of_isStatement (hsame ▸ hs)]
    exact views_statement_context (hv.open hn _) hc
  | false =>
    rw [step_of_not_isStatement hs, step_of_not_isStatement (hsame ▸ hs)]
    exact hv

theorem views_walk_context {lines : List (List Char)} {context : Nat}
    (hv : Views s.names True s.scopes part.scopes) (hl : s.lexical = part.lexical)
    (hn : Nested s.scopes) (hc : ∀ line ∈ lines, isClass line = true → indentation line = 0)
    (hlength : lines.length ≤ context) :
    Views (walk s number 0 lines).names True (walk s number 0 lines).scopes
      (walk part number context lines).scopes := by
  induction lines generalizing s part number context with
  | nil => exact hv
  | cons line rest ih =>
    obtain ⟨hline, hrest⟩ := List.forall_mem_cons.mp hc
    rw [List.length_cons] at hlength
    have hcontext : (decide (context = 0)) = false := by
      rw [decide_eq_false_iff_not]
      omega
    rw [walk, walk, hcontext]
    refine ih (views_step_context hv hl hn hline) ?_ hn.step hrest (by omega)
    rw [lexical_step, lexical_step, hl]

/-! ## The marker -/

variable {m : ChunkPlan.Marker}

/-- A statement at the left edge decides which class is open after it. -/
theorem class?_mark (hm : m.lexical.atStatementStart = true) :
    (m.mark line).2.class? =
      if ChunkPlan.isTop line then ChunkPlan.className? line else m.class? := by
  rw [ChunkPlan.Marker.mark, hm]
  rfl

/-- After a statement at the left edge only the class that it opens is open. -/
theorem views_left {class? : Option String} (hi : indentation line = 0)
    (hc : isClass line = true → class? = ChunkPlan.className? line)
    (hn : isClass line = false → class? = none) :
    Views (statement s true number line).names True (statement s true number line).scopes
      (enclosing class?) := by
  cases hh : heading number line with
  | ofClass c =>
    obtain ⟨hclass, hname⟩ := isClass_of_heading hh
    rw [hc hclass, hname]
    exact views_ofClass hh hi
  | ofFunction f =>
    rw [hn (isClass_eq_false number (by simp [hh])), statement_eq, hh, opened, hi, openScopes_zero]
    exact .hidden trivial .nil
  | plain =>
    rw [hn (isClass_eq_false number (by simp [hh])), statement_eq, hh, opened, hi, openScopes_zero]
    exact .nil

/-- A statement that is not at the left edge opens at most a function, which is hidden. -/
theorem views_inner {scopes : List Scope} (hs : Views s.names True (opened s line) scopes)
    (hc : isClass line = false) :
    Views (statement s true number line).names True (statement s true number line).scopes scopes := by
  cases hh : heading number line with
  | ofClass c =>
    rw [(isClass_of_heading hh).1] at hc
    exact nomatch hc
  | ofFunction f =>
    rw [names_statement, statement_eq, hh]
    exact .hidden trivial hs
  | plain =>
    rw [names_statement, statement_eq, hh]
    exact hs

/-- The marking of lines keeps the view of a part that would start here. -/
theorem views_mark (hv : Views s.names True s.scopes (enclosing m.class?)) (hn : Nested s.scopes)
    (hs : s.lexical.atStatementStart = true) (hm : m.lexical.atStatementStart = true)
    (hc : isClass line = true → indentation line = 0)
    (hcont : ChunkPlan.isContinuation line = true → m.class? = none) :
    Views (step s true number line).names True (step s true number line).scopes
      (enclosing (m.mark line).2.class?) := by
  rw [class?_mark hm]
  have htop (h : ChunkPlan.isTop line = true) : isSilent line = false ∧ indentation line = 0 := by
    obtain ⟨hstart, hcomment⟩ := Bool.and_eq_true_iff.mp h
    rw [ChunkPlan.isSilent_of_startsTopLevel hstart]
    exact ⟨by simpa using hcomment, ChunkPlan.indentation_of_startsTopLevel hstart⟩
  cases hsilent : isSilent line with
  | true =>
    have hstatement : isStatement s line = false := by rw [isStatement, hsilent, Bool.not_true,
      Bool.and_false]
    rw [step_of_not_isStatement hstatement, if_neg fun h => ?_]
    · exact hv
    · rw [(htop h).1] at hsilent
      cases hsilent
  | false =>
    have hstatement : isStatement s line = true := by rw [isStatement, hsilent, hs]; rfl
    rw [step_of_isStatement hstatement]
    by_cases hi : indentation line = 0
    · refine views_left hi (fun h => if_pos (isTop_of_isClass h hi)) fun h => ?_
      have hname : ChunkPlan.className? line = none := by simpa [isClass, ChunkPlan.className?] using h
      rw [hname]
      rcases isTop_or_isContinuation hsilent hi with ht | ht
      · rw [if_pos ht]
      · rw [hcont ht, ite_self]
    · have hinner : ChunkPlan.isTop line ≠ true := fun h => hi (htop h).2
      rw [if_neg hinner]
      refine views_inner ?_ (Bool.eq_false_iff.mpr fun h => hi (hc h))
      have henclosing : openScopes (enclosing m.class?) (indentation line) = enclosing m.class? := by
        refine openScopes_eq_self fun a ha => ?_
        cases hclass : m.class? with
        | none =>
          rw [hclass] at ha
          cases ha
        | some name =>
          rw [hclass] at ha
          rw [List.mem_singleton.mp ha]
          exact Nat.pos_of_ne_zero hi
      rw [← henclosing]
      exact hv.open hn _

/-! ## Windows of flat sources -/

namespace Flat

variable {path : Path} {lines : List (List Char)}

theorem starts_marker (h : Flat path lines) {i : Nat} (hi : i < lines.length) :
    (ChunkPlan.Marker.after {} (lines.take i)).lexical.atStatementStart = true := by
  rw [ChunkPlan.Marker.lexical_after]
  exact h.starts i hi

theorem after_succ {i : Nat} (hi : i < lines.length) :
    ChunkPlan.Marker.after {} (lines.take (i + 1)) =
      ((ChunkPlan.Marker.after {} (lines.take i)).mark lines[i]).2 := by
  rw [← List.take_append_getElem hi, ChunkPlan.Marker.after, List.foldl_append]
  rfl

/-- The open class is the one that the last statement at the left edge has opened. -/
theorem class?_after (h : Flat path lines) {i : Nat} (hi : i ≤ lines.length) :
    (ChunkPlan.Marker.after {} (lines.take i)).class? =
      ((lines.take i).reverse.find? ChunkPlan.isTop).bind ChunkPlan.className? := by
  induction i with
  | zero => rfl
  | succ i ih =>
    rw [after_succ hi, class?_mark (h.starts_marker hi), ih (Nat.le_of_succ_le hi),
      ← List.take_append_getElem hi, List.reverse_append, List.reverse_singleton,
      List.singleton_append, List.find?_cons]
    cases ChunkPlan.isTop lines[i] <;> rfl

/-- A chunk that starts in front of some line sees what the whole walk has open there. -/
theorem views_upTo (h : Flat path lines) {i : Nat} (hi : i ≤ lines.length) :
    Views (upTo path lines i).names True (upTo path lines i).scopes
      (enclosing (ChunkPlan.Marker.after {} (lines.take i)).class?) := by
  induction i with
  | zero => exact .nil
  | succ i ih =>
    rw [upTo_succ path hi, after_succ hi]
    refine views_mark (ih (Nat.le_of_succ_le hi)) (nested_upTo ..) ?_ (h.starts_marker hi)
      (h.classes _ (List.getElem_mem hi)) fun hcont => ?_
    · rw [lexical_upTo]
      exact h.starts i hi
    · -- a continued statement is no class, so that no class is open
      rw [h.class?_after (Nat.le_of_succ_le hi)]
      cases hlast : (lines.take i).reverse.find? ChunkPlan.isTop with
      | none => rfl
      | some header =>
        have hclass := h.continuations i hi hcont header hlast
        simpa [isClass, ChunkPlan.className?] using hclass

/-- The context lines of a window keep the view with which it starts. -/
theorem views_entry (h : Flat path lines) {first : Nat} (context : Nat) (hf : first < lines.length) :
    Views (upTo path lines first).names True (upTo path lines first).scopes
      (Chunk.entry path lines first context
        (ChunkPlan.Marker.after {} (lines.take (first - context))).class?).scopes := by
  have hstart : first - context < lines.length := by omega
  have hlexical : (upTo path lines (first - context)).lexical = {} := by
    rw [lexical_upTo]
    exact Lexical.eq_of_atStatementStart (h.starts _ hstart)
  have hmem : ∀ line ∈ (lines.take first).drop (first - context),
      isClass line = true → indentation line = 0 := fun line hline =>
    h.classes line (List.mem_of_mem_take (List.mem_of_mem_drop hline))
  have hlength : ((lines.take first).drop (first - context)).length ≤ context := by
    rw [List.length_drop, List.length_take]
    omega
  rw [upTo_eq_walk (Nat.sub_le first context) (Nat.le_of_lt hf)]
  unfold Chunk.entry
  exact views_walk_context (h.views_upTo (Nat.le_of_lt hstart)) hlexical
    (nested_upTo ..) hmem hlength

/-- Every window of a flat source joins. -/
theorem joins (h : Flat path lines) (index : Nat) {first context stop : Nat} (hc : context ≤ first)
    (hown : first < stop) (hstop : stop ≤ lines.length) :
    (Chunk.window (ChunkPlan.annotate {} lines) index (first - context) context stop).Joins path
      lines := by
  have hstart : first - context < lines.length := by omega
  have henclosing : (ChunkPlan.annotate {} lines)[first - context]?.bind MarkedLine.openClass? =
      (ChunkPlan.Marker.after {} (lines.take (first - context))).class? := by
    rw [ChunkPlan.getElem?_annotate, List.getElem?_eq_getElem hstart]
    rfl
  refine (Chunk.joins_of_agree True index (ChunkPlan.map_text_annotate {} lines) hc
    (Nat.le_of_lt hown) hstop ?_).1
  rw [henclosing]
  refine Agree.walk ⟨Chunk.lexical_entry_eq (h.starts _ hstart), h.views_entry context (by omega), ?_,
    fun h => absurd trivial h⟩ (nested_upTo ..) fun _ i hi => ?_
  · rw [Chunk.outline_entry hc, Module.addOutline_empty]
  · rw [List.length_drop, List.length_take] at hi
    have hline : first + i < lines.length := by omega
    have htake : ((lines.take stop).drop first).take i = (lines.take (first + i)).drop first := by
      rw [List.take_drop, List.take_take, Nat.min_eq_left (by omega)]
    rw [List.getElem_drop, List.getElem_take, htake,
      ← upTo_eq_walk (Nat.le_add_right first i) (Nat.le_of_lt hline)]
    exact h.functions _ hline

end Flat

end Outline

/-- A flat source that is read in chunks has the record of its text, up to the number of chunks. -/
theorem LargeFiles.parseFile_flat (l : LargeFiles) {t : Tree} {path : Path} {text : List Char}
    (hr : '\r' ∉ text) (hread : t.read path = .ok (Text.encode text))
    (hf : Outline.Flat path (Text.lines text)) :
    (l.parseFile t path).1 = .ok { Outline.ofText path text with
      chunkCount := max (l.plan.chunks (Text.encode text)).1.length 1 } := by
  have hw := l.plan.chunksOf_windows (Text.lines text)
  have hall : ∀ c ∈ l.plan.chunksOf (Text.lines text) .complete, c.Joins path (Text.lines text) := by
    intro c hmem
    obtain ⟨index, first, context, stop, hc, hown, hstop, rfl⟩ := hw.exists_eq (Nat.le_refl 0) c hmem
    rw [ChunkPlan.length_annotate] at hstop
    exact hf.joins index hc hown hstop
  rw [parseFile_eq l hr hread, ChunkPlan.chunks_encode l.plan hr, ChunkPlan.merge_eq hw hall]

namespace LargeFiles

/-- A class with two methods and a variable. -/
def pairText : List Char :=
  "class A(B):\n    x = 1\n    def f(self):\n        pass\n    def g(self):\n        pass\ny = 2\n".toList

/-- A tree with a file of that text. -/
def pairTree : Tree :=
  { nodes := [(["a"], .file (Text.encode pairText) ⟨0, 0⟩)], now := ⟨0, 0⟩ }

/-- Chunks of two lines that repeat one, split anywhere. -/
def pairFiles : LargeFiles := ⟨⟨1000, 2, 1, false⟩, 0⟩

/-- The file is split inside of the class and inside of its methods. -/
theorem parseFile_flat_pair :
    (pairFiles.parseFile pairTree ⟨"/a"⟩).1 =
        .ok { Outline.ofText ⟨"/a"⟩ pairText with chunkCount := 6 } ∧
      (Outline.ofText ⟨"/a"⟩ pairText).classes.map (fun c => c.methods.map FunctionDef.name) =
        [["f", "g"]] := by
  have hlocate : pairTree.locate ⟨"/a"⟩ = .ok (["a"], .file (Text.encode pairText) ⟨0, 0⟩) :=
    Tree.locate_top ⟨by decide, by decide⟩ (by decide) (by decide) (by decide)
      (.of_name (by decide) (by decide)) rfl
  have hread : pairTree.read ⟨"/a"⟩ = .ok (Text.encode pairText) := by
    rw [Tree.read, hlocate]
    rfl
  have hchunks : (pairFiles.plan.chunks (Text.encode pairText)).1.length = 6 := by decide +kernel
  have hflat := parseFile_flat pairFiles (by decide) hread (by decide +kernel)
  rw [hchunks] at hflat
  exact ⟨hflat, by decide +kernel⟩

end LargeFiles
end SourceSurvey
