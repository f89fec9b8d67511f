import SourceSurvey.Chunk.Merge
import SourceSurvey.Proofs.Outline.Walk

/-!
# The view of a chunk

The walk over the own lines of a chunk goes beside the walk over the whole source: both read the same
lines, and their scopes differ only in how the owner of a class is known (`Outline.Views`). A class
whose header stands before the chunk is known by its name, and the merged record finds it again as
the last class of the chunks before; a function whose header stands before the chunk is not known
at all.

* `Outline.Agree`: the merged record with the outline of the chunk so far is the record of the whole
  walk so far.
* `Outline.Agree.step` and `Outline.Agree.walk`: every line keeps that, as long as no function header
  inside of a function is met.
-/

namespace SourceSurvey

/-! ## Adding to a merged record -/

namespace Outline

theorem map_name_addMethod (classes : List ClassDef) (index : Nat) (f : FunctionDef) :
    (addMethod classes index f).map ClassDef.name = classes.map ClassDef.name := by
  induction classes generalizing index with
  | nil => cases index <;> rfl
  | cons c classes ih =>
    cases index with
    | zero => rfl
    | succ index =>
      simp only [addMethod] at ih
      simp [addMethod, ih]

theorem addMethod_append_right (xs ys : List ClassDef) (index : Nat) (f : FunctionDef) :
    addMethod (xs ++ ys) (xs.length + index) f = xs ++ addMethod ys index f := by
  induction xs with
  | nil => simp
  | cons x xs ih =>
    simp only [addMethod] at ih
    simp [addMethod, ih, Nat.add_right_comm]

theorem addMethod_append_left {xs : List ClassDef} (ys : List ClassDef) {index : Nat}
    (h : index < xs.length) (f : FunctionDef) :
    addMethod (xs ++ ys) index f = addMethod xs index f ++ ys := by
  induction xs generalizing index with
  | nil => exact absurd h (Nat.not_lt_zero index)
  | cons x xs ih =>
    cases index with
    | zero => rfl
    | succ index =>
      have hrest : addMethod (xs ++ ys) index f = addMethod xs index f ++ ys := ih (by simpa using h)
      simp only [addMethod] at hrest
      simp [addMethod, hrest]

end Outline

namespace Module

open Outline (addMethod map_name_addMethod)

variable {m : Module} {o : Outline}

theorem map_name_addContinued (classes : List ClassDef) (name : String) (f : FunctionDef) :
    (addContinued classes name f).map ClassDef.name = classes.map ClassDef.name := by
  unfold addContinued
  split
  · exact map_name_addMethod ..
  · rfl

/-- A method of the last class joins it. -/
theorem addContinued_last {classes : List ClassDef} {name : String} (f : FunctionDef)
    (h : (classes.map ClassDef.name).getLast? = some name) :
    addContinued classes name f = addMethod classes (classes.length - 1) f := by
  rw [List.getLast?_map, Option.map_eq_some_iff] at h
  obtain ⟨c, hc, rfl⟩ := h
  obtain ⟨before, rfl⟩ := List.getLast?_eq_some_iff.mp hc
  simp [addContinued, List.findIdx?_cons]

/-- The classes of a record with the methods that a further chunk adds to them. -/
def withContinued (m : Module) (o : Outline) : List ClassDef :=
  o.continued.foldl (fun classes (name, f) => addContinued classes name f) m.classes

theorem map_name_withContinued (m : Module) (o : Outline) :
    (m.withContinued o).map ClassDef.name = m.classes.map ClassDef.name := by
  unfold withContinued
  induction o.continued generalizing m with
  | nil => rfl
  | cons p rest ih =>
    have := ih { m with classes := addContinued m.classes p.1 p.2 }
    rw [List.foldl_cons, this, map_name_addContinued]

theorem length_withContinued (m : Module) (o : Outline) :
    (m.withContinued o).length = m.classes.length := by
  simpa using congrArg List.length (m.map_name_withContinued o)

theorem withContinued_concat (m n : Module) (continued : List (String × FunctionDef)) (name : String)
    (f : FunctionDef) :
    m.withContinued { module := n, continued := continued ++ [(name, f)] } =
      addContinued (m.withContinued { module := n, continued }) name f := by
  simp [withContinued]

theorem addOutline_eq (m : Module) (o : Outline) :
    m.addOutline o = { m with
      imports := m.imports ++ o.module.imports
      classes := m.withContinued o ++ o.module.classes
      functions := m.functions ++ o.module.functions
      globals := m.globals ++ o.module.globals } := rfl

/-- Nothing is added where nothing was found. -/
theorem addOutline_empty (m : Module) (path : Path) : m.addOutline { module := .empty path } = m := by
  simp [addOutline_eq, withContinued, Module.empty]

theorem addOutline_addClass (c : ClassDef) :
    m.addOutline (o.addClass c) =
      { m.addOutline o with classes := (m.addOutline o).classes ++ [c] } := by
  simp [addOutline_eq, Outline.addClass, withContinued]

/-- A statement that opens nothing adds the same to a part and to the whole, for at the left edge no
scope is open. -/
theorem addOutline_addPlain {indent : Nat} (number : Nat) (code : List Char) {whole part : List Scope}
    (h : indent = 0 → whole = [] ∧ part = []) :
    m.addOutline (o.addPlain part indent number code) =
      Outline.addStatement (m.addOutline o) whole indent number code := by
  have hleft : (decide (indent = 0) && part.isEmpty) = (decide (indent = 0) && whole.isEmpty) := by
    by_cases hi : indent = 0
    · obtain ⟨rfl, rfl⟩ := h hi
      rfl
    · simp [hi]
  unfold Outline.addPlain Outline.addStatement
  rw [hleft]
  split
  · simp [addOutline_eq, withContinued]
  · split
    · simp [addOutline_eq, withContinued]
    · split
      · split <;> simp [addOutline_eq, withContinued]
      · rfl

end Module

/-! ## Scopes of a part and of the whole -/

namespace Outline

/-- How an open scope of the whole walk looks to the walk over a part, where `before` names the
classes before the part. If the part is `torn` off inside of scopes, the class that was opened last
before it is known by its name. -/
inductive Seen (before : List String) (torn : Prop) : Scope → Scope → Prop
  | function (indent : Nat) : Seen before torn (.ofFunction indent) (.ofFunction indent)
  | owned (indent index : Nat) :
      Seen before torn (.ofClass indent (.owned (before.length + index)))
        (.ofClass indent (.owned index))
  | context (indent : Nat) {name : String} (split : torn) (last : before.getLast? = some name) :
      Seen before torn (.ofClass indent (.owned (before.length - 1))) (.ofClass indent (.context name))

/-- How the open scopes of the whole walk look to the walk over a part: if it is torn off inside of
scopes, functions that were opened before it are hidden. -/
inductive Views (before : List String) (torn : Prop) : List Scope → List Scope → Prop
  | nil : Views before torn [] []
  | cons {a b : Scope} {whole part : List Scope} (seen : Seen before torn a b)
      (rest : Views before torn whole part) : Views before torn (a :: whole) (b :: part)
  | hidden {indent : Nat} {whole part : List Scope} (split : torn)
      (rest : Views before torn whole part) : Views before torn (.ofFunction indent :: whole) part

section Views

variable {before : List String} {torn : Prop} {a b : Scope} {whole part : List Scope} {indent : Nat}

theorem Seen.indent_eq (h : Seen before torn a b) : a.indent = b.indent := by
  cases h <;> rfl

/-- The scopes of a part are at most as deep as those of the whole. -/
theorem Views.indent_lt (h : Views before torn whole part) (hw : ∀ a ∈ whole, a.indent < indent) :
    ∀ b ∈ part, b.indent < indent := by
  induction h with
  | nil => exact hw
  | cons seen rest ih =>
    obtain ⟨ha, hw⟩ := List.forall_mem_cons.mp hw
    exact List.forall_mem_cons.mpr ⟨seen.indent_eq ▸ ha, ih hw⟩
  | hidden split rest ih => exact ih (List.forall_mem_cons.mp hw).2

/-- The scopes that stay open at an indentation look alike again. -/
theorem Views.open (h : Views before torn whole part) (hn : Nested whole) (indent : Nat) :
    Views before torn (openScopes whole indent) (openScopes part indent) := by
  induction h with
  | nil => exact .nil
  | @cons a b whole part seen rest ih =>
    rw [openScopes_cons, openScopes_cons, seen.indent_eq]
    by_cases hi : indent ≤ b.indent
    · rw [if_pos hi, if_pos hi]
      exact ih (List.pairwise_cons.mp hn).2
    · rw [if_neg hi, if_neg hi]
      exact .cons seen rest
  | @hidden i whole part split rest ih =>
    obtain ⟨hdeep, hn⟩ := List.pairwise_cons.mp hn
    rw [openScopes_cons]
    by_cases hi : indent ≤ (Scope.ofFunction i).indent
    · rw [if_pos hi]
      exact ih hn
    · -- the part sees no scope as deep as the hidden function
      rw [if_neg hi, openScopes_eq_self fun b hb => ?_]
      · exact .hidden split rest
      · have := rest.indent_lt hdeep b hb
        omega

end Views

/-! ## Both walks -/

/-- The walk over a part of the lines, whose outline is to be added to `m`, stands where the walk
over all lines stands. Unless the part is torn off inside of scopes, it leaves no method to a class
before it. -/
structure Agree (m : Module) (torn : Prop) (whole part : State) : Prop where
  lexical : whole.lexical = part.lexical
  scopes : Views (m.classes.map ClassDef.name) torn whole.scopes part.scopes
  module : whole.outline.module = m.addOutline part.outline
  clean : ¬torn → part.outline.continued = []

section Agree

variable {m : Module} {torn : Prop} {whole part : State} {number : Nat} {line : List Char}

/-- A method joins the same class in the merged record as in the record of the whole. -/
theorem addOutline_addFunction {o : Outline} {w p : List Scope} (f : FunctionDef)
    (hv : Views (m.classes.map ClassDef.name) torn w p)
    (hf : torn → w.any Scope.isFunction = false) (ho : whole.outline.module = m.addOutline o) :
    (addFunction whole.outline w f).module = m.addOutline (addFunction o p f) ∧
      (¬torn → o.continued = [] → (addFunction o p f).continued = []) := by
  have hlength := m.length_withContinued o
  have hnames := m.map_name_withContinued o
  cases hv with
  | nil => exact ⟨by simp [addFunction, ho, Module.addOutline_eq, Module.withContinued], fun _ h => h⟩
  | cons seen rest =>
    cases seen with
    | function => exact ⟨ho, fun _ h => h⟩
    | owned indent index =>
      refine ⟨?_, fun _ h => h⟩
      have hmethod := addMethod_append_right (m.withContinued o) o.module.classes index f
      rw [hlength] at hmethod
      simp only [addFunction, ho, List.length_map, Module.addOutline_eq, hmethod]
      rfl
    | @context indent name split last =>
      refine ⟨?_, fun ht => absurd split ht⟩
      -- the class is the last one before the part, and the merging finds it by its name
      have hpos : m.classes.length - 1 < (m.withContinued o).length := by
        have hne : m.classes ≠ [] := by
          rintro he
          simp [he] at last
        have := List.length_pos_iff.mpr hne
        omega
      have hmethod := addMethod_append_left o.module.classes hpos f
      have hlast := Module.addContinued_last f (hnames ▸ last)
      rw [hlength] at hlast
      simp only [addFunction, ho, List.length_map, Module.addOutline_eq, hmethod, ← hlast,
        Module.withContinued_concat]
  | hidden split rest => exact absurd (hf split) (by simp [Scope.isFunction])

/-- Both walks agree after a statement if the scopes that stay open look alike. -/
theorem Agree.statement (hl : whole.lexical = part.lexical)
    (hs : Views (m.classes.map ClassDef.name) torn (opened whole line) (opened part line))
    (hm : whole.outline.module = m.addOutline part.outline)
    (hc : ¬torn → part.outline.continued = [])
    (hf : torn → isLocalDef whole line = false) :
    Agree m torn (statement whole true number line) (statement part true number line) := by
  rw [statement_eq, statement_eq]
  cases hh : heading number line with
  | ofClass c =>
    refine ⟨hl, .cons ?_ hs, ?_, hc⟩
    · have hindex : whole.outline.module.classes.length =
          (m.classes.map ClassDef.name).length + part.outline.module.classes.length := by
        rw [hm, Module.addOutline_eq, List.length_append, Module.length_withContinued,
          List.length_map]
      simp only [if_true, hindex]
      exact .owned ..
    · simp only [if_true, Module.addOutline_addClass, ← hm]
      rfl
  | ofFunction f =>
    obtain ⟨hmodule, hclean⟩ := addOutline_addFunction f hs
      (fun ht => isLocalDef_ofFunction hh ▸ hf ht) hm
    exact ⟨hl, .cons (.function _) hs, hmodule, fun ht => hclean ht (hc ht)⟩
  | plain =>
    refine ⟨hl, hs, ?_, hc⟩
    have hleft : indentation line = 0 → opened whole line = [] ∧ opened part line = [] := by
      intro hi
      simp [opened, hi]
    simp only [if_true, Module.addOutline_addPlain _ _ hleft, ← hm]
    rfl

/-- Both walks agree after a line. -/
theorem Agree.step (h : Agree m torn whole part) (hn : Nested whole.scopes)
    (hf : torn → isLocalDef whole line = false) :
    Agree m torn (step whole true number line) (step part true number line) := by
  have hlexical := congrArg (Lexical.advance · line) h.lexical
  have hsame : isStatement whole line = isStatement part line := by
    rw [isStatement, isStatement, h.lexical]
  cases hs : isStatement whole line with
  | true =>
    rw [step_of_isStatement hs, step_of_isStatement (hsame ▸ hs)]
    exact Agree.statement hlexical (h.scopes.open hn _) h.module h.clean hf
  | false =>
    rw [step_of_not_isStatement hs, step_of_not_isStatement (hsame ▸ hs)]
    exact ⟨hlexical, h.scopes, h.module, h.clean⟩

/-- Both walks agree after a statement at the left edge, whatever was open before it. -/
theorem Agree.left (hl : whole.lexical = part.lexical)
    (hm : whole.outline.module = m.addOutline part.outline)
    (hc : ¬torn → part.outline.continued = []) (hs : isStatement whole line = true)
    (hi : indentation line = 0) :
    Agree m torn (Outline.step whole true number line) (Outline.step part true number line) := by
  have hp : isStatement part line = true := by rwa [isStatement, ← hl]
  rw [step_of_isStatement hs, step_of_isStatement hp]
  have hwhole : opened whole line = [] := by rw [opened, hi, openScopes_zero]
  have hpart : opened part line = [] := by rw [opened, hi, openScopes_zero]
  refine Agree.statement (congrArg (Lexical.advance · line) hl) ?_ hm hc fun _ => ?_
  · show Views _ torn (opened whole line) (opened part line)
    rw [hwhole, hpart]
    exact .nil
  · show (isDef line && (opened whole line).any Scope.isFunction) = false
    rw [hwhole, List.any_nil, Bool.and_false]

/-- Both walks agree after further lines. -/
theorem Agree.walk {whole part : State} (h : Agree m torn whole part) (hn : Nested whole.scopes)
    {number : Nat} {lines : List (List Char)}
    (hf : torn → ∀ i (hi : i < lines.length),
      isLocalDef (walk whole number 0 (lines.take i)) lines[i] = false) :
    Agree m torn (walk whole number 0 lines) (walk part number 0 lines) := by
  induction lines generalizing whole part number with
  | nil => exact h
  | cons line rest ih =>
    rw [Outline.walk, Outline.walk, decide_eq_true rfl]
    exact ih (h.step hn fun ht => hf ht 0 (Nat.succ_pos _)) hn.step fun ht i hi =>
      hf ht (i + 1) (Nat.succ_lt_succ hi)

end Agree
end Outline
end SourceSurvey
