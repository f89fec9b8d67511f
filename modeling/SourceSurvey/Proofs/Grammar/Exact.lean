import Mathlib.Data.List.DropRight
import SourceSurvey.Proofs.Chunk.View
import SourceSurvey.Proofs.Grammar.Statements

/-!
# Sources are read exactly

The record of the text of a `Grammar.Source` is what the source declares (`Grammar.ofText_text`). The
walk goes over the text piece by piece: between two blocks nothing is open and the record is that of
the blocks so far (`Grammar.Reads`).

* `Grammar.walk_routine`: a routine declares a function in the scope that is open at its margin.
* `Grammar.walk_members`: in the body of a class that scope is the class, and stays it.
* `Grammar.Reads.block` is the step over one block, `Grammar.Reads.items` the run over all.
-/

namespace SourceSurvey
namespace Grammar

open Text (isBlank dropReturn)
open Outline (State walk step)

variable {s : State} {line margin : List Char}

/-! ## Routines -/

/-- A margin of blanks and tabs. -/
def IsMargin (margin : List Char) : Prop := ∀ c ∈ margin, c = ' ' ∨ c = '\t'

namespace IsMargin

theorem nil : IsMargin [] := List.forall_mem_nil _

theorem append (h : IsMargin margin) (indent : Indent) : IsMargin (margin ++ indent.text) :=
  List.forall_mem_append.mpr ⟨h, indent.blank⟩

theorem blank (h : IsMargin margin) : ∀ c ∈ margin, isBlank c = true := by
  intro c hc
  rcases h c hc with rfl | rfl
  · rfl
  · rfl

theorem plain (h : IsMargin margin) : IsPlain margin := by
  intro c hc
  rcases h c hc with rfl | rfl
  · decide
  · decide

end IsMargin

theorem byteLength_pos {cs : List Char} (h : cs ≠ []) : 0 < Text.byteLength cs := by
  obtain ⟨c, cs, rfl⟩ := List.exists_cons_of_ne_nil h
  have := c.utf8Size_pos
  rw [Text.byteLength_cons]
  omega

theorem isStatement_pass (hmargin : IsMargin margin) (indent : Indent) :
    IsStatement (margin ++ indent.text ++ "pass".toList) :=
  IsPlain.isStatement
    (isPlain_append.mpr ⟨(hmargin.append indent).plain, isPlain_of_all (by decide)⟩)

/-- The `pass` of a body closes the scopes of its indentation and deeper ones. -/
theorem step_pass (hs : s.lexical = {}) (hmargin : IsMargin margin) (indent : Indent) (number : Nat) :
    step s true number (dropReturn (margin ++ indent.text ++ "pass".toList)) =
      { s with scopes := Outline.openScopes s.scopes (Text.byteLength (margin ++ indent.text)) } := by
  have hinner := hmargin.append indent
  have hstarts : StartsPlain (margin ++ indent.text) "pass".toList [] :=
    startsPlain_word (by decide) hinner.blank (Text.stops_nil _)
  have hline : IsStatement (margin ++ indent.text ++ ("pass".toList ++ [])) :=
    isStatement_pass hmargin indent
  have hpos := byteLength_pos (List.append_ne_nil_of_right_ne_nil margin indent.nonempty)
  have hstep := step_isStatement hs hline hstarts.isSilent number
  rw [hstarts.statement, addPlain_pass (Nat.pos_iff_ne_zero.mp hpos)] at hstep
  exact hstep

/-- A name as a parameter behind white space. -/
def parameterOf (before : Blanks) (i : Identifier) : Parameter where
  before := before
  stars := ⟨0, by decide⟩
  name := i.toWord
  after := noBlanks
  hint? := none
  default? := none

theorem text_parameterOf (before : Blanks) (i : Identifier) :
    (parameterOf before i).text = before.text ++ i.text := by
  simp [parameterOf, Parameter.text, Parameter.front, Parameter.recorded, Parameter.tail,
    Identifier.toWord, noBlanks]

/-- The header of a routine at some margin. -/
def Routine.toHeader (r : Routine) (margin : Blanks) : FunctionHeader where
  indent := margin
  async? := if r.isAsync then some oneBlank else none
  gap := oneBlank
  name := r.name.toName
  after := noBlanks
  parameters := spread parameterOf r.parameters
  last? := none
  rest := [':']

namespace Routine

theorem line_toHeader (r : Routine) (margin : Blanks) :
    (r.toHeader margin).line = margin.text ++ r.header := by
  have hinner : (r.toHeader margin).inner = series (r.parameters.map Identifier.text) :=
    listed_spread text_parameterOf r.parameters
  have hdefinition : (r.toHeader margin).definition = "def ".toList ++ (r.name.text ++
      ("(".toList ++ (series (r.parameters.map Identifier.text) ++ "):".toList))) := by
    rw [FunctionHeader.definition, hinner]
    rfl
  rw [FunctionHeader.line, FunctionHeader.code, hdefinition, header, toHeader]
  simp only [List.append_assoc]
  cases r.isAsync with
  | true => rfl
  | false => rfl

theorem flat_toHeader (r : Routine) (margin : Blanks) : (r.toHeader margin).Flat := by
  have htail : ∀ p ∈ spread parameterOf r.parameters, p.tail = [] :=
    @forall_mem_spread _ _ parameterOf (·.tail = []) (fun _ _ => rfl) _
  constructor
  · intro p hp
    rw [htail p hp]
    exact List.not_mem_nil
  · intro p hp
    rw [htail p (List.dropLast_subset _ hp)]
    exact List.not_mem_nil

theorem record_toHeader (r : Routine) (margin : Blanks) (number : Nat) :
    (r.toHeader margin).record number = r.record number := by
  have hasync : (if r.isAsync then some oneBlank else none).isSome = r.isAsync := by
    cases r.isAsync with
    | true => rfl
    | false => rfl
  have hparameters : (spread parameterOf r.parameters).map (fun p => String.ofList p.recorded) =
      r.parameters.map Identifier.string :=
    @map_spread _ _ _ parameterOf _ Identifier.string (fun _ _ => rfl) r.parameters
  unfold FunctionHeader.record toHeader record
  dsimp only
  rw [hasync, hparameters]
  rfl

theorem isStatement (r : Routine) (hmargin : IsPlain margin) : IsStatement (margin ++ r.header) := by
  have hheader : r.header = (if r.isAsync then "async " else "").toList ++ "def ".toList ++
      r.name.text ++ '(' :: (series (r.parameters.map Identifier.text) ++ ')' :: [':']) := by
    simp only [header, List.append_assoc]
    rfl
  have hasync : IsPlain ((if r.isAsync then "async " else "").toList) := by
    cases r.isAsync with
    | true => exact isPlain_of_all (by decide)
    | false => exact isPlain_of_all (by decide)
  have hdef : IsPlain "def ".toList := isPlain_of_all (by decide)
  have hrest : IsPlain [':'] := isPlain_of_all (by decide)
  rw [hheader, ← List.append_assoc]
  exact isStatement_group
    (isPlain_append.mpr ⟨hmargin, isPlain_append.mpr ⟨isPlain_append.mpr ⟨hasync, hdef⟩,
      r.name.plain⟩⟩)
    (identifiers_plain r.parameters) hrest

end Routine

theorem indentation_function (h : FunctionHeader) :
    Outline.indentation h.line = Text.byteLength h.indent.text := by
  rw [Outline.indentation, FunctionHeader.line,
    Text.takeWhile_append_run h.indent.blank (stops_isBlank_code h)]

/-- The scopes and the outline that a routine leaves: that of the routine on top of those that stay
open at its margin. -/
def afterRoutine (s : State) (indent : Nat) (f : FunctionDef) : State :=
  { s with
    scopes := .ofFunction indent :: Outline.openScopes s.scopes indent
    outline := Outline.addFunction s.outline (Outline.openScopes s.scopes indent) f }

/-- The same scopes stay open at the margin of a routine before and after it. -/
theorem openScopes_afterRoutine (s : State) (indent : Nat) (f : FunctionDef) :
    Outline.openScopes (afterRoutine s indent f).scopes indent =
      Outline.openScopes s.scopes indent := by
  have hindent : indent ≤ (Scope.ofFunction indent).indent := Nat.le_refl _
  rw [afterRoutine, Outline.openScopes_cons, if_pos hindent]
  exact List.dropWhile_idempotent _ _

/-- A routine declares a function in the scope that is open at its margin. -/
theorem walk_routine (hs : s.lexical = {}) (hmargin : IsMargin margin) (r : Routine) (number : Nat) :
    walk s number 0 ((r.lines margin).map dropReturn) =
      afterRoutine s (Text.byteLength margin) (r.record number) := by
  have hheader : step s true number (dropReturn (margin ++ r.header)) =
      afterRoutine s (Text.byteLength margin) (r.record number) := by
    have hline := r.line_toHeader ⟨margin, hmargin.blank⟩
    have hsilent := isSilent_function (r.toHeader ⟨margin, hmargin.blank⟩)
    have hindent := indentation_function (r.toHeader ⟨margin, hmargin.blank⟩)
    have hheading := (r.flat_toHeader ⟨margin, hmargin.blank⟩).heading number
    rw [hline] at hsilent hindent hheading
    rw [step_isStatement hs (r.isStatement hmargin.plain) hsilent, Outline.statement_eq, hheading,
      Outline.opened, hindent, r.record_toHeader]
    rfl
  have hlexical : (afterRoutine s (Text.byteLength margin) (r.record number)).lexical = {} := hs
  have hpos := byteLength_pos r.indent.nonempty
  have hscopes : Outline.openScopes
      (afterRoutine s (Text.byteLength margin) (r.record number)).scopes
        (Text.byteLength (margin ++ r.indent.text)) =
      (afterRoutine s (Text.byteLength margin) (r.record number)).scopes := by
    rw [afterRoutine, Outline.openScopes_cons, if_neg]
    rw [Text.byteLength_append, Scope.indent]
    omega
  rw [Routine.lines, List.map_cons, walk_cons_owned, hheader, List.map_append, walk_append_owned,
    walk_fillers hlexical, List.map_singleton, walk_cons_owned, step_pass hlexical hmargin, hscopes]
  rfl

/-! ## Classes -/

/-- A base behind white space. -/
def baseOf (before : Blanks) (d : Dotted) : Spaced where
  before := before
  expression := d.toExpression
  after := noBlanks

theorem text_baseOf (before : Blanks) (d : Dotted) :
    (baseOf before d).text = before.text ++ d.text := by
  simp [baseOf, Spaced.text, Dotted.toExpression, noBlanks]

namespace ClassBlock

/-- The header of a class with bases. -/
def toHeader (c : ClassBlock) : ClassHeader where
  indent := noBlanks
  gap := oneBlank
  name := c.name.toName
  after := noBlanks
  bases := spread baseOf c.bases
  last? := none
  closing := noBlanks
  rest := []

theorem header_of_bases {c : ClassBlock} (h : c.bases.isEmpty = false) :
    c.header = "class ".toList ++ c.name.text ++
      '(' :: (series (c.bases.map Dotted.text) ++ ')' :: [':']) := by
  have hopen : "(".toList = ['('] := rfl
  have hclose : ")".toList = [')'] := rfl
  have hcolon : ":".toList = [':'] := rfl
  unfold header
  rw [if_neg (by simp [h]), hopen, hclose, hcolon]
  simp only [List.append_assoc, List.cons_append, List.nil_append]

theorem header_of_isEmpty {c : ClassBlock} (h : c.bases.isEmpty = true) :
    c.header = "class ".toList ++ (c.name.text ++ [':']) := by
  have hcolon : ":".toList = [':'] := rfl
  unfold header
  rw [if_pos h, hcolon, List.append_nil, List.append_assoc]

/-- The header of a class stands at the left edge. -/
theorem exists_header (c : ClassBlock) : ∃ rest, c.header = 'c' :: rest := by
  have hclass : "class ".toList = 'c' :: "lass ".toList := by decide
  unfold header
  rw [hclass]
  exact ⟨_, rfl⟩

theorem line_toHeader {c : ClassBlock} (h : c.bases.isEmpty = false) :
    c.toHeader.line = c.header := by
  have hinner : c.toHeader.inner = series (c.bases.map Dotted.text) :=
    listed_spread text_baseOf c.bases
  rw [ClassHeader.line, ClassHeader.code, hinner, header_of_bases h, List.append_assoc]
  rfl

theorem flat_toHeader (c : ClassBlock) : c.toHeader.Flat where
  commas := @forall_mem_spread _ _ baseOf (fun e => ',' ∉ e.expression.text)
    (fun _ d hmem => nomatch chars_dotted d.parts ',' hmem) _
  closings := @forall_mem_spread _ _ baseOf (fun e => ')' ∉ e.expression.text)
    (fun _ d hmem => nomatch chars_dotted d.parts ')' hmem) _

/-- What the header of a class opens: the class without its methods. -/
theorem heading_header (c : ClassBlock) (number : Nat) :
    Outline.heading number c.header = .ofClass { c.record number with methods := [] } := by
  cases h : c.bases.isEmpty with
  | false =>
    have hbases : (spread baseOf c.bases).map (fun e => String.ofList e.expression.text) =
        c.bases.map fun b => String.ofList b.text :=
      @map_spread _ _ _ baseOf _ (fun b : Dotted => String.ofList b.text) (fun _ _ => rfl) c.bases
    rw [← line_toHeader h, c.flat_toHeader.heading, ClassHeader.record, toHeader]
    dsimp only
    rw [hbases]
    rfl
  | true =>
    have hclass : Header.class? c.header = some (c.name.text, none) := by
      obtain ⟨hgap, hname, htrim⟩ :=
        read_name oneBlank c.name.toName noBlanks (c := ':') (by decide) rfl []
      have hword : Header.word? "class" c.header =
          some (oneBlank.text ++ (c.name.toName.text ++ (noBlanks.text ++ [':']))) := by
        rw [header_of_isEmpty h]
        exact Header.word?_append "class" _
      unfold Header.class?
      simp only [hword, hgap, hname, htrim, Option.bind_eq_bind, Option.bind_some]
      rfl
    obtain ⟨rest, hheader⟩ := c.exists_header
    have htrim : Text.trimStart c.header = c.header := by
      rw [hheader]
      rfl
    unfold Outline.heading
    rw [htrim, hclass]
    simp only [record, List.isEmpty_iff.mp h]
    rfl

theorem isSilent_header (c : ClassBlock) : Outline.isSilent c.header = false := by
  obtain ⟨rest, hheader⟩ := c.exists_header
  rw [hheader]
  rfl

theorem indentation_header (c : ClassBlock) : Outline.indentation c.header = 0 := by
  obtain ⟨rest, hheader⟩ := c.exists_header
  rw [hheader]
  rfl

theorem isStatement_header (c : ClassBlock) : IsStatement c.header := by
  have hclass : IsPlain "class ".toList := isPlain_of_all (by decide)
  have hcolon : IsPlain [':'] := isPlain_of_all (by decide)
  have hname : IsPlain ("class ".toList ++ c.name.text) := isPlain_append.mpr ⟨hclass, c.name.plain⟩
  cases h : c.bases.isEmpty with
  | false =>
    rw [header_of_bases h]
    refine isStatement_group hname (series_plain fun word hword => ?_) hcolon
    obtain ⟨d, -, rfl⟩ := List.mem_map.mp hword
    exact isPlain_of_isDottedChar (chars_dotted d.parts)
  | true =>
    rw [header_of_isEmpty h, ← List.append_assoc]
    exact IsPlain.isStatement (isPlain_append.mpr ⟨hname, hcolon⟩)

end ClassBlock

/-- The state after the header of a class: the class is open and has no methods yet. -/
def inClass (s : State) (c : ClassBlock) (number : Nat) : State :=
  { s with
    scopes := [.ofClass 0 (.owned s.outline.module.classes.length)]
    outline := Outline.addClass s.outline { c.record number with methods := [] } }

theorem step_class (hs : s.lexical = {}) (c : ClassBlock) (number : Nat) :
    step s true number (dropReturn c.header) = inClass s c number := by
  rw [step_isStatement hs c.isStatement_header c.isSilent_header, Outline.statement_eq,
    c.heading_header, Outline.opened, c.indentation_header, Outline.openScopes_zero]
  rfl

/-! ## Methods -/

theorem length_lines (r : Routine) (margin : List Char) : (r.lines margin).length = r.height := by
  simp [Routine.lines, Routine.height]

/-- The outline with other classes. -/
def withClasses (o : Outline) (classes : List ClassDef) : Outline :=
  { o with module := { o.module with classes } }

/-- A function in the class that was declared last is a method of it. -/
theorem addFunction_last {o : Outline} {classes : List ClassDef} {c : ClassDef}
    (hclasses : o.module.classes = classes ++ [c]) (f : FunctionDef) :
    Outline.addFunction o [.ofClass 0 (.owned classes.length)] f =
      withClasses o (classes ++ [{ c with methods := c.methods ++ [f] }]) := by
  have hmethod := Outline.addMethod_append_right classes [c] 0 f
  rw [Nat.add_zero] at hmethod
  simp only [Outline.addFunction, hclasses, hmethod]
  rfl

/-- Members at a margin are the methods of the class that was declared last. -/
theorem walk_members {classes : List ClassDef} {c : ClassDef} (hs : s.lexical = {})
    (hmargin : IsMargin margin)
    (hscopes : Outline.openScopes s.scopes (Text.byteLength margin) =
      [.ofClass 0 (.owned classes.length)])
    (hclasses : s.outline.module.classes = classes ++ [c]) (members : List Member) (number : Nat) :
    ∃ scopes, walk s number 0 ((members.flatMap fun m => m.lines margin).map dropReturn) =
      { s with
        scopes
        outline := withClasses s.outline
          (classes ++ [{ c with methods := c.methods ++ methodRecords number members }]) } := by
  induction members generalizing s c number with
  | nil =>
    refine ⟨s.scopes, ?_⟩
    rw [methodRecords, List.append_nil, ← hclasses]
    rfl
  | cons m members ih =>
    have hroutine := walk_routine hs hmargin m.routine (number + m.fillers.length)
    have hlexical : (afterRoutine s (Text.byteLength margin)
        (m.routine.record (number + m.fillers.length))).lexical = {} := hs
    have hopen := (openScopes_afterRoutine s (Text.byteLength margin)
      (m.routine.record (number + m.fillers.length))).trans hscopes
    have houtline : (afterRoutine s (Text.byteLength margin)
        (m.routine.record (number + m.fillers.length))).outline = withClasses s.outline
          (classes ++ [{ c with methods :=
            c.methods ++ [m.routine.record (number + m.fillers.length)] }]) := by
      rw [afterRoutine, hscopes, addFunction_last hclasses]
    obtain ⟨scopes, hwalk⟩ := ih hlexical hopen (by rw [houtline]; rfl)
      (number + m.fillers.length + m.routine.height)
    refine ⟨scopes, ?_⟩
    rw [List.flatMap_cons, List.map_append, Member.lines, List.map_append, List.append_assoc,
      walk_append_owned, walk_fillers hs, walk_append_owned, List.length_map, List.length_map,
      List.length_map, length_lines, hroutine, hwalk, houtline, methodRecords]
    simp only [withClasses, afterRoutine, List.append_assoc, List.singleton_append]

/-- A class is declared with its methods. -/
theorem walk_class (hs : s.lexical = {}) (c : ClassBlock) (number : Nat) :
    ∃ scopes, walk s number 0 (c.lines.map dropReturn) =
      { s with scopes, outline := Outline.addClass s.outline (c.record number) } := by
  have hlexical : (inClass s c number).lexical = {} := hs
  rw [ClassBlock.lines, List.map_cons, walk_cons_owned, step_class hs]
  cases hbody : c.body with
  | pass fillers indent =>
    have hpass := step_pass hlexical IsMargin.nil indent (number + 1 + fillers.length)
    rw [List.nil_append] at hpass
    refine ⟨Outline.openScopes (inClass s c number).scopes (Text.byteLength indent.text), ?_⟩
    rw [ClassBody.lines, List.map_append, walk_append_owned, walk_fillers hlexical,
      List.map_singleton, List.length_map, List.length_map, walk_cons_owned, hpass]
    simp only [inClass, ClassBlock.record, hbody, ClassBody.records]
    rfl
  | methods indent members hne =>
    have hpos := byteLength_pos indent.nonempty
    have hscopes : Outline.openScopes (inClass s c number).scopes (Text.byteLength indent.text) =
        [.ofClass 0 (.owned s.outline.module.classes.length)] :=
      Outline.openScopes_eq_self fun a ha => by
        rw [List.mem_singleton.mp ha]
        exact hpos
    obtain ⟨scopes, hwalk⟩ :=
      walk_members hlexical (IsMargin.nil.append indent) hscopes rfl members (number + 1)
    refine ⟨scopes, ?_⟩
    rw [ClassBody.lines]
    refine hwalk.trans ?_
    simp only [inClass, ClassBlock.record, hbody, ClassBody.records, List.nil_append]
    rfl

/-! ## Blocks -/

/-- The record of a module with what further blocks declare. -/
def extended (m : Module) (blocks : List (Nat × Block)) : Module :=
  { m with
    imports := m.imports ++ blocks.filterMap fun b => b.2.import? b.1
    classes := m.classes ++ blocks.filterMap fun b => b.2.class? b.1
    functions := m.functions ++ blocks.filterMap fun b => b.2.function? b.1
    globals := m.globals ++ blocks.filterMap fun b => b.2.global? b.1 }

theorem extended_cons (m : Module) (b : Nat × Block) (blocks : List (Nat × Block)) :
    extended m (b :: blocks) = extended (extended m [b]) blocks := by
  simp only [extended, List.append_assoc, ← List.filterMap_append, List.singleton_append]

/-- A state in which nothing is open, with the record of what was read. -/
structure Reads (s : State) (m : Module) : Prop where
  closed : s.lexical = {}
  module : s.outline.module = m

theorem lines_plainImport (source : ModuleName) (alias? : Option Identifier) :
    (Block.plainImport source alias?).lines =
      ["import".toList ++ (' ' :: importText source alias?)] := by
  have himport : "import ".toList = "import".toList ++ [' '] := by decide
  unfold Block.lines importText
  rw [himport]
  simp only [List.append_assoc, List.cons_append, List.nil_append]

theorem lines_fromImport (source : ModuleName) {names : List Identifier} (hne : names ≠ []) :
    (Block.fromImport source names hne).lines = ["from".toList ++ (' ' :: (source.text ++
      (' ' :: ("import".toList ++ (' ' :: series (names.map Identifier.text))))))] := by
  have hfrom : "from ".toList = "from".toList ++ [' '] := by decide
  have himport : " import ".toList = ' ' :: ("import".toList ++ [' ']) := by decide
  unfold Block.lines
  rw [hfrom, himport]
  simp only [List.append_assoc, List.cons_append, List.nil_append]

/-- A block is read with what it declares. -/
theorem Reads.block {m : Module} (h : Reads s m) (b : Block) (number : Nat) :
    Reads (walk s number 0 (b.lines.map dropReturn)) (extended m [(number, b)]) := by
  obtain ⟨hs, rfl⟩ := h
  cases b with
  | plainImport source alias? =>
    have hstep := step_plain hs (isStatement_import source alias?)
      (startsPlain_word (by decide) (List.forall_mem_nil _) (stops_blank _)) number
    rw [addPlain_import] at hstep
    rw [lines_plainImport, List.map_singleton, walk_cons_owned, hstep]
    exact ⟨hs, by simp [walk, extended, Block.import?, Block.class?, Block.function?, Block.global?]⟩
  | fromImport source names hne =>
    have hstep := step_plain hs (isStatement_from source names)
      (startsPlain_word (by decide) (List.forall_mem_nil _) (stops_blank _)) number
    rw [addPlain_from _ _ _ _ hne] at hstep
    rw [lines_fromImport, List.map_singleton, walk_cons_owned, hstep]
    exact ⟨hs, by simp [walk, extended, Block.import?, Block.class?, Block.function?, Block.global?]⟩
  | assignment name value =>
    have hstep := step_plain hs (isStatement_assignment name value)
      (startsPlain_identifier name (stops_blank _)) number
    rw [addPlain_assignment] at hstep
    rw [Block.lines, List.append_assoc, List.map_singleton, walk_cons_owned, hstep]
    exact ⟨hs, by simp [walk, extended, Block.import?, Block.class?, Block.function?, Block.global?]⟩
  | function routine =>
    have hwalk := walk_routine hs IsMargin.nil routine number
    rw [Block.lines, hwalk]
    refine ⟨hs, ?_⟩
    simp only [afterRoutine, Text.byteLength_nil, Outline.openScopes_zero, Outline.addFunction]
    simp [extended, Block.import?, Block.class?, Block.function?, Block.global?]
  | classBlock c =>
    obtain ⟨scopes, hwalk⟩ := walk_class hs c number
    rw [Block.lines, hwalk]
    refine ⟨hs, ?_⟩
    simp [extended, Block.import?, Block.class?, Block.function?, Block.global?, Outline.addClass]

/-! ## Sources -/

/-- Items are read with what their blocks declare. -/
theorem Reads.items {m : Module} (h : Reads s m) (items : List Item) (number : Nat) :
    Reads (walk s number 0 ((items.flatMap Item.lines).map dropReturn))
      (extended m (placed number items)) := by
  induction items generalizing s m number with
  | nil =>
    have hm : extended m [] = m := by simp [extended]
    rw [placed, hm]
    exact h
  | cons i items ih =>
    have hblock := h.block i.block (number + i.fillers.length)
    have hitems := ih hblock (number + i.lines.length)
    rw [placed, extended_cons, List.flatMap_cons, List.map_append, walk_append_owned, List.length_map]
    rw [Item.lines] at hitems ⊢
    rw [List.map_append, walk_append_owned, walk_fillers h.closed, List.length_map, List.length_map]
    exact hitems

/-- Lines without line feeds. -/
def Unbroken (lines : List (List Char)) : Prop := ∀ line ∈ lines, '\n' ∉ line

theorem unbroken_append {xs ys : List (List Char)} :
    Unbroken (xs ++ ys) ↔ Unbroken xs ∧ Unbroken ys := List.forall_mem_append

theorem unbroken_cons {line : List Char} {lines : List (List Char)} :
    Unbroken (line :: lines) ↔ '\n' ∉ line ∧ Unbroken lines := List.forall_mem_cons

theorem unbroken_singleton (h : IsStatement line) : Unbroken [line] :=
  unbroken_cons.mpr ⟨h.not_mem, List.forall_mem_nil _⟩

theorem unbroken_flatMap {α : Type} {f : α → List (List Char)} {xs : List α}
    (h : ∀ x, Unbroken (f x)) : Unbroken (xs.flatMap f) := by
  intro line hline
  obtain ⟨x, -, hline⟩ := List.mem_flatMap.mp hline
  exact h x line hline

theorem unbroken_fillers (fillers : List Filler) : Unbroken (fillers.map Filler.text) := by
  intro line hline
  obtain ⟨f, -, rfl⟩ := List.mem_map.mp hline
  exact f.not_mem

theorem Routine.unbroken (r : Routine) (hmargin : IsMargin margin) : Unbroken (r.lines margin) :=
  unbroken_cons.mpr ⟨(r.isStatement hmargin.plain).not_mem,
    unbroken_append.mpr ⟨unbroken_fillers _, unbroken_singleton (isStatement_pass hmargin r.indent)⟩⟩

theorem ClassBody.unbroken (body : ClassBody) : Unbroken body.lines := by
  cases body with
  | pass fillers indent =>
    have hpass := isStatement_pass IsMargin.nil indent
    rw [List.nil_append] at hpass
    exact unbroken_append.mpr ⟨unbroken_fillers _, unbroken_singleton hpass⟩
  | methods indent members hne =>
    exact unbroken_flatMap fun m =>
      unbroken_append.mpr ⟨unbroken_fillers _, m.routine.unbroken (IsMargin.nil.append indent)⟩

theorem Block.unbroken (b : Block) : Unbroken b.lines := by
  cases b with
  | plainImport source alias? =>
    rw [lines_plainImport]
    exact unbroken_singleton (isStatement_import source alias?)
  | fromImport source names hne =>
    rw [lines_fromImport]
    exact unbroken_singleton (isStatement_from source names)
  | assignment name value =>
    rw [Block.lines, List.append_assoc]
    exact unbroken_singleton (isStatement_assignment name value)
  | function routine => exact routine.unbroken IsMargin.nil
  | classBlock c => exact unbroken_cons.mpr ⟨c.isStatement_header.not_mem, c.body.unbroken⟩

theorem Source.unbroken (src : Source) : Unbroken src.lines :=
  unbroken_append.mpr
    ⟨unbroken_flatMap fun i => unbroken_append.mpr ⟨unbroken_fillers _, i.block.unbroken⟩,
      unbroken_fillers _⟩

/-- A source is read exactly: its record is what it declares, block by block. -/
theorem ofText_text (path : Path) (src : Source) :
    Outline.ofText path src.text = src.module path := by
  have hlines : Text.lines src.text = src.lines.map dropReturn := Text.lines_flatMap src.unbroken
  have hstart : Reads { outline := { module := .empty path } } (.empty path) := ⟨rfl, rfl⟩
  have hitems := hstart.items src.items 1
  have hwalk : walk { outline := { module := .empty path } } 1 0 (src.lines.map dropReturn) =
      walk { outline := { module := .empty path } } 1 0
        ((src.items.flatMap Item.lines).map dropReturn) := by
    rw [Source.lines, List.map_append, walk_append_owned, walk_fillers hitems.closed]
  unfold Outline.ofText Outline.extract
  dsimp only
  rw [hlines, hwalk, hitems.module, List.length_map, Nat.sub_zero]
  simp [extended, Source.module, Source.blocks, Module.empty]

end Grammar
end SourceSurvey
