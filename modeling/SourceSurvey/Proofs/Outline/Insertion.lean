import SourceSurvey.Proofs.Grammar.Statements

/-!
# Lines that are put in

A blank line or a comment says nothing: put in where a statement can start, it only moves the lines
behind it (`Outline.ofText_insert`). A walk uses the number of a line in one place, the records of that
line, so walks over the same lines under other numbers differ in the numbers of their records alone.

* `Outline.renumber_step`, `Outline.renumber_walk`: what one line and what all lines do under other
  numbers.
* `Grammar.Filler.step_eq_self`: a blank line or a comment leaves a walk as it was.
-/

namespace SourceSurvey

/-! ## Records under other numbers -/

def Import.renumber (g : Nat → Nat) (i : Import) : Import := { i with line := g i.line }

def FunctionDef.renumber (g : Nat → Nat) (f : FunctionDef) : FunctionDef := { f with line := g f.line }

/-- The class and its methods under other numbers. -/
def ClassDef.renumber (g : Nat → Nat) (c : ClassDef) : ClassDef :=
  { c with line := g c.line, methods := c.methods.map (·.renumber g) }

def Variable.renumber (g : Nat → Nat) (v : Variable) : Variable := { v with line := g v.line }

/-- The records of a module under other numbers. -/
def Module.renumber (g : Nat → Nat) (m : Module) : Module :=
  { m with
    imports := m.imports.map (·.renumber g)
    classes := m.classes.map (·.renumber g)
    functions := m.functions.map (·.renumber g)
    globals := m.globals.map (·.renumber g) }

namespace Outline

open Text (trimStart)

variable (g : Nat → Nat)

/-- The outline with its records under other numbers. -/
def renumber (o : Outline) : Outline where
  module := o.module.renumber g
  continued := o.continued.map fun r => (r.1, r.2.renumber g)

/-- The walk with its records under other numbers. -/
def State.renumber (s : State) : State := { s with outline := s.outline.renumber g }

/-- What a line opens, with its record under another number. -/
def Heading.renumber : Heading → Heading
  | .ofClass c => .ofClass (c.renumber g)
  | .ofFunction f => .ofFunction (f.renumber g)
  | .plain => .plain

/-! ## Walks under other numbers -/

theorem heading_renumber (number : Nat) (line : List Char) :
    heading (g number) line = (heading number line).renumber g := by
  unfold heading
  cases Header.class? (trimStart line) with
  | some c => rfl
  | none =>
    cases Header.function? (trimStart line) with
    | some f => rfl
    | none => rfl

theorem renumber_addClass (o : Outline) (c : ClassDef) :
    (addClass o c).renumber g = addClass (o.renumber g) (c.renumber g) := by
  simp [addClass, renumber, Module.renumber]

theorem addMethod_renumber (classes : List ClassDef) (index : Nat) (f : FunctionDef) :
    (addMethod classes index f).map (·.renumber g) =
      addMethod (classes.map (·.renumber g)) index (f.renumber g) := by
  unfold addMethod
  refine List.ext_getElem? fun i => ?_
  simp only [List.getElem?_map, List.getElem?_modify]
  cases classes[i]? with
  | none => rfl
  | some c => by_cases h : index = i <;> simp [h, ClassDef.renumber]

theorem renumber_addFunction (o : Outline) (scopes : List Scope) (f : FunctionDef) :
    (addFunction o scopes f).renumber g = addFunction (o.renumber g) scopes (f.renumber g) := by
  unfold addFunction
  split
  · simp [renumber, Module.renumber]
  · simp [renumber, Module.renumber, addMethod_renumber]
  · simp [renumber]
  · rfl

theorem plainImports_renumber (names : List Char) (number : Nat) :
    (plainImports names number).map (·.renumber g) = plainImports names (g number) := by
  unfold plainImports
  rw [List.map_filterMap]
  congr 1
  funext part
  dsimp only
  split <;> rfl

theorem renumber_addPlain (o : Outline) (scopes : List Scope) (indent number : Nat)
    (code : List Char) :
    (addPlain o scopes indent number code).renumber g =
      addPlain (o.renumber g) scopes indent (g number) code := by
  unfold addPlain addStatement
  split
  · simp [renumber, Module.renumber, Import.renumber]
  · split
    · simp [renumber, Module.renumber, plainImports_renumber]
    · split
      · split
        · simp [renumber, Module.renumber, Variable.renumber]
        · rfl
      · rfl

theorem renumber_statement (s : State) (owned : Bool) (number : Nat) (line : List Char) :
    (statement s owned number line).renumber g =
      statement (s.renumber g) owned (g number) line := by
  have hclasses : (s.renumber g).outline.module.classes.length = s.outline.module.classes.length :=
    List.length_map _
  rw [statement_eq, statement_eq, heading_renumber]
  cases heading number line with
  | ofClass c =>
    cases owned with
    | true =>
      simp only [Heading.renumber, hclasses]
      simp [State.renumber, renumber_addClass, opened]
    | false => rfl
  | ofFunction f =>
    cases owned with
    | true => simp [State.renumber, Heading.renumber, renumber_addFunction, opened]
    | false => rfl
  | plain =>
    cases owned with
    | true => simp [State.renumber, Heading.renumber, renumber_addPlain, opened]
    | false => rfl

/-- A line under another number. -/
theorem renumber_step (s : State) (owned : Bool) (number : Nat) (line : List Char) :
    (step s owned number line).renumber g = step (s.renumber g) owned (g number) line := by
  cases h : isStatement s line with
  | true =>
    have h' : isStatement (s.renumber g) line = true := h
    rw [step_of_isStatement h, step_of_isStatement h', renumber_statement]
    rfl
  | false =>
    have h' : isStatement (s.renumber g) line = false := h
    rw [step_of_not_isStatement h, step_of_not_isStatement h']
    rfl

/-- Lines under other numbers that also count up. -/
theorem renumber_walk {number number' : Nat} {lines : List (List Char)}
    (h : ∀ i < lines.length, g (number + i) = number' + i) (s : State) (context : Nat) :
    (walk s number context lines).renumber g = walk (s.renumber g) number' context lines := by
  induction lines generalizing s number number' context with
  | nil => rfl
  | cons line rest ih =>
    have hfirst : g number = number' := h 0 (Nat.zero_lt_succ _)
    have hrest : ∀ i < rest.length, g (number + 1 + i) = number' + 1 + i := by
      intro i hi
      have hi' := h (i + 1) (by rw [List.length_cons]; omega)
      rwa [← Nat.add_assoc, Nat.add_right_comm, ← Nat.add_assoc, Nat.add_right_comm number'] at hi'
    rw [walk, walk, ih hrest, renumber_step, hfirst]

end Outline

/-! ## Lines that say nothing -/

namespace Grammar

open Outline (State step)

/-- A carriage return behind a filler makes another filler. -/
theorem Filler.exists_return (f : Filler) : ∃ f' : Filler, Text.dropReturn f'.text = f.text := by
  obtain ⟨blanks, comment?, hblanks, hcomment⟩ := f
  cases comment? with
  | none =>
    refine ⟨⟨blanks ++ ['\r'], none, ?_, nofun⟩, ?_⟩
    · exact List.forall_mem_append.mpr ⟨hblanks, List.forall_mem_singleton.mpr (by decide)⟩
    · simp [text]
  | some comment =>
    refine ⟨⟨blanks, some (comment ++ ['\r']), hblanks, ?_⟩, ?_⟩
    · simpa using hcomment
    · have htext : blanks ++ '#' :: (comment ++ ['\r']) = (blanks ++ '#' :: comment) ++ ['\r'] := by
        simp
      rw [text, text, Option.elim_some, Option.elim_some, htext, Text.dropReturn_concat]

/-- Where nothing is open, a filler leaves a walk as it was. -/
theorem Filler.step_eq_self (f : Filler) {s : State} (hs : s.lexical = {}) (number : Nat) :
    step s true number f.text = s := by
  obtain ⟨f', hf'⟩ := f.exists_return
  have hstep := walk_fillers hs number [f']
  rw [List.map_singleton, List.map_singleton, hf'] at hstep
  exact hstep

end Grammar

namespace Outline

variable {text text' : List Char} {before after : List (List Char)}

/-- The number of a line after a further one was put in behind the first `k` lines. -/
def moved (k n : Nat) : Nat := if k < n then n + 1 else n

/-- A blank line or a comment that is put in where a statement can start moves the records of the
lines behind it and says nothing else. -/
theorem ofText_insert (path : Path) (f : Grammar.Filler) (h : Text.lines text = before ++ after)
    (h' : Text.lines text' = before ++ f.text :: after)
    (hstart : (before.foldl Lexical.advance {}).atStatementStart = true) :
    ofText path text' =
      { (ofText path text).renumber (moved before.length) with
        lineCount := (ofText path text).lineCount + 1 } := by
  let s : State := { outline := { module := .empty path } }
  have hopen : (walk s 1 0 before).lexical = {} := by
    rw [lexical_walk]
    obtain ⟨hdepth, htriple⟩ := Bool.and_eq_true_iff.mp hstart
    exact congr (congrArg Lexical.mk (beq_iff_eq.mp hdepth)) (Option.isNone_iff_eq_none.mp htriple)
  -- the lines before the new one keep their numbers, those behind it are moved
  have hbefore : (walk s 1 0 before).renumber (moved before.length) = walk s 1 0 before :=
    renumber_walk (moved before.length) (fun i hi => if_neg (by omega)) s 0
  have hmoved : ∀ i < after.length,
      moved before.length (1 + before.length + i) = 1 + before.length + 1 + i := by
    intro i _
    rw [moved, if_pos (by omega)]
    omega
  have hafter : (walk s 1 0 (before ++ after)).renumber (moved before.length) =
      walk s 1 0 (before ++ f.text :: after) := by
    rw [Grammar.walk_append_owned, Grammar.walk_append_owned, Grammar.walk_cons_owned,
      f.step_eq_self hopen, renumber_walk _ hmoved, hbefore]
  have hlength : (before ++ f.text :: after).length = (before ++ after).length + 1 := by
    simp [Nat.add_assoc]
  rw [ofText, ofText, extract, extract, h, h', hlength]
  dsimp only
  rw [← hafter]
  rfl

/-- A comment at the left edge. -/
def note : Grammar.Filler := ⟨[], some " note".toList, nofun, by simp⟩

/-- The comment between the header of a class and its method. -/
theorem ofText_insert_note :
    let text := "class C:\n    def m(self): pass\nx = 1\n".toList
    let text' := "class C:\n# note\n    def m(self): pass\nx = 1\n".toList
    let before := ["class C:".toList]
    let after := ["    def m(self): pass".toList, "x = 1".toList]
    Text.lines text = before ++ after ∧ Text.lines text' = before ++ note.text :: after ∧
      (before.foldl Lexical.advance {}).atStatementStart = true ∧
      ofText ⟨"a.py"⟩ text' =
        { (ofText ⟨"a.py"⟩ text).renumber (moved before.length) with
          lineCount := (ofText ⟨"a.py"⟩ text).lineCount + 1 } := by
  intro text text' before after
  have h : Text.lines text = before ++ after := by decide +kernel
  have h' : Text.lines text' = before ++ note.text :: after := by decide +kernel
  have hstart : (before.foldl Lexical.advance {}).atStatementStart = true := by decide +kernel
  exact ⟨h, h', hstart, ofText_insert ⟨"a.py"⟩ note h h' hstart⟩

end Outline
end SourceSurvey
