import Mathlib.Data.List.TakeWhile
import SourceSurvey.Outline.Extract

/-!
# Walks over lines

What one line does to the state of a walk, said once for all lines (`Outline.statement_eq`): the line
is the header of a class, the header of a function or neither (`Outline.Heading`), it closes the
scopes of its indentation and deeper ones, and what it adds to the records depends on the scopes that
stay open.

* `Outline.walk_append`: a walk over lines goes on as a walk over further lines.
* `Outline.Nested.walk`: the open scopes are ever deeper.
* `Outline.outline_walk_context`: context lines add no records.
-/

namespace SourceSurvey

/-- Whether a scope is that of a function. -/
def Scope.isFunction : Scope → Bool
  | ofClass .. => false
  | ofFunction _ => true

namespace Outline

variable {s : State} {number : Nat} {line : List Char} {owned : Bool}

/-! ## Headings -/

/-- What the line of a statement opens, with the record that an owned line yields. -/
inductive Heading where
  | ofClass (c : ClassDef)
  | ofFunction (f : FunctionDef)
  | plain

/-- What the line of a statement opens. -/
def heading (number : Nat) (line : List Char) : Heading :=
  match Header.class? (Text.trimStart line) with
  | some (name, bases) =>
    .ofClass { name := String.ofList name, line := number
               bases := ((bases.map Header.bases).getD []).map String.ofList }
  | none =>
    match Header.function? (Text.trimStart line) with
    | some f =>
      .ofFunction { name := String.ofList f.name, line := number, isAsync := f.isAsync
                    parameters := (Header.parameters f.parameters).map String.ofList }
    | none => .plain

/-- The outline with a further class. -/
def addClass (o : Outline) (c : ClassDef) : Outline :=
  { o with module := { o.module with classes := o.module.classes ++ [c] } }

/-- The outline with a statement that opens nothing. -/
def addPlain (o : Outline) (scopes : List Scope) (indent number : Nat) (code : List Char) : Outline :=
  { o with module := addStatement o.module scopes indent number code }

/-- The scopes that stay open at a line. -/
def opened (s : State) (line : List Char) : List Scope := openScopes s.scopes (indentation line)

/-- The state after the line of a statement, by what the line opens. -/
theorem statement_eq (s : State) (owned : Bool) (number : Nat) (line : List Char) :
    statement s owned number line =
      match heading number line with
      | .ofClass c =>
        { s with
          scopes := .ofClass (indentation line)
            (if owned then .owned s.outline.module.classes.length else .context c.name) :: opened s line
          outline := if owned then addClass s.outline c else s.outline }
      | .ofFunction f =>
        { s with
          scopes := .ofFunction (indentation line) :: opened s line
          outline := if owned then addFunction s.outline (opened s line) f else s.outline }
      | .plain =>
        { s with
          scopes := opened s line
          outline :=
            if owned then
              addPlain s.outline (opened s line) (indentation line) number (Text.trimStart line)
            else s.outline } := by
  unfold statement heading opened
  dsimp only
  cases hc : Header.class? (Text.trimStart line) with
  | some c => cases owned <;> rfl
  | none =>
    cases hf : Header.function? (Text.trimStart line) with
    | some f => rfl
    | none => cases owned <;> rfl

/-- Whether a line is the header of a function. -/
def isDef (line : List Char) : Bool := (Header.function? (Text.trimStart line)).isSome

/-- Whether a line is the header of a function inside of another function. -/
def isLocalDef (s : State) (line : List Char) : Bool :=
  isDef line && (opened s line).any Scope.isFunction

theorem isLocalDef_ofFunction {f : FunctionDef} (h : heading number line = .ofFunction f) :
    isLocalDef s line = (opened s line).any Scope.isFunction := by
  have hd : isDef line = true := by
    unfold heading at h
    unfold isDef
    split at h
    · exact nomatch h
    · cases hf : Header.function? (Text.trimStart line) with
      | some f => rfl
      | none =>
        rw [hf] at h
        exact nomatch h
  rw [isLocalDef, hd, Bool.true_and]

/-- Whether a line is a statement for a walk in some state. -/
def isStatement (s : State) (line : List Char) : Bool :=
  s.lexical.atStatementStart && !isSilent line

theorem step_of_isStatement (h : isStatement s line = true) :
    step s owned number line =
      statement { s with lexical := s.lexical.advance line } owned number line :=
  if_pos h

theorem step_of_not_isStatement (h : isStatement s line = false) :
    step s owned number line = { s with lexical := s.lexical.advance line } :=
  if_neg (by rw [isStatement] at h; simp [h])

/-! ## Walking on -/

theorem walk_append (s : State) (number context : Nat) (xs ys : List (List Char)) :
    walk s number context (xs ++ ys) =
      walk (walk s number context xs) (number + xs.length) (context - xs.length) ys := by
  induction xs generalizing s number context with
  | nil => rfl
  | cons x xs ih =>
    rw [List.cons_append, walk, walk, ih, List.length_cons]
    congr 1 <;> omega

@[simp] theorem lexical_statement : (statement s owned number line).lexical = s.lexical := by
  rw [statement_eq]
  split <;> rfl

@[simp] theorem lexical_step :
    (step s owned number line).lexical = s.lexical.advance line := by
  cases h : isStatement s line with
  | true => rw [step_of_isStatement h, lexical_statement]
  | false => rw [step_of_not_isStatement h]

theorem lexical_walk (s : State) (number context : Nat) (lines : List (List Char)) :
    (walk s number context lines).lexical = lines.foldl Lexical.advance s.lexical := by
  induction lines generalizing s number context with
  | nil => rfl
  | cons line rest ih => rw [walk, ih, lexical_step, List.foldl_cons]

/-- Context lines add no records. -/
theorem outline_statement_context :
    (statement s false number line).outline = s.outline := by
  rw [statement_eq]
  split <;> rfl

theorem outline_step_context : (step s false number line).outline = s.outline := by
  cases h : isStatement s line with
  | true => rw [step_of_isStatement h, outline_statement_context]
  | false => rw [step_of_not_isStatement h]

theorem outline_walk_context (s : State) (number : Nat) {context : Nat} {lines : List (List Char)}
    (h : lines.length ≤ context) : (walk s number context lines).outline = s.outline := by
  induction lines generalizing s number context with
  | nil => rfl
  | cons line rest ih =>
    rw [List.length_cons] at h
    have hfalse : (decide (context = 0)) = false := by
      rw [decide_eq_false_iff_not]
      omega
    rw [walk, ih _ _ (by omega), hfalse, outline_step_context]

/-! ## Open scopes -/

@[simp] theorem openScopes_zero (scopes : List Scope) : openScopes scopes 0 = [] :=
  List.dropWhile_eq_nil_iff.mpr fun a _ => decide_eq_true a.indent.zero_le

theorem openScopes_cons (a : Scope) (scopes : List Scope) (indent : Nat) :
    openScopes (a :: scopes) indent =
      if indent ≤ a.indent then openScopes scopes indent else a :: scopes := by
  simp [openScopes, List.dropWhile_cons]

theorem openScopes_eq_self {scopes : List Scope} {indent : Nat}
    (h : ∀ a ∈ scopes, a.indent < indent) : openScopes scopes indent = scopes := by
  cases scopes with
  | nil => rfl
  | cons a scopes =>
    have ha : a.indent < indent := h a List.mem_cons_self
    rw [openScopes_cons, if_neg (by omega)]

/-- Scopes of which each is deeper than those after it. -/
def Nested (scopes : List Scope) : Prop := scopes.Pairwise fun a b => b.indent < a.indent

theorem Nested.open {scopes : List Scope} (h : Nested scopes) (indent : Nat) :
    Nested (openScopes scopes indent) :=
  List.Pairwise.sublist (List.dropWhile_sublist _) h

/-- The scopes that stay open at an indentation are not as deep. -/
theorem Nested.lt_of_mem_open {scopes : List Scope} (h : Nested scopes) {indent : Nat} {a : Scope}
    (ha : a ∈ openScopes scopes indent) : a.indent < indent := by
  induction scopes with
  | nil => exact nomatch ha
  | cons b scopes ih =>
    obtain ⟨hb, h⟩ := List.pairwise_cons.mp h
    rw [openScopes_cons] at ha
    split at ha
    · exact ih h ha
    · rename_i hlt
      rcases List.mem_cons.mp ha with rfl | ha
      · omega
      · have := hb a ha
        omega

theorem Nested.cons_open {scopes : List Scope} (h : Nested scopes) {indent : Nat} {a : Scope}
    (ha : a.indent = indent) : Nested (a :: openScopes scopes indent) :=
  List.pairwise_cons.mpr ⟨fun _ hb => ha ▸ h.lt_of_mem_open hb, h.open indent⟩

theorem Nested.statement (h : Nested s.scopes) : Nested (statement s owned number line).scopes := by
  rw [statement_eq]
  split
  · exact h.cons_open rfl
  · exact h.cons_open rfl
  · exact h.open _

theorem Nested.step (h : Nested s.scopes) : Nested (step s owned number line).scopes := by
  cases hs : isStatement s line with
  | true =>
    rw [step_of_isStatement hs]
    exact Nested.statement h
  | false =>
    rw [step_of_not_isStatement hs]
    exact h

/-- The open scopes of a walk are ever deeper. -/
theorem Nested.walk {s : State} (h : Nested s.scopes) (number context : Nat)
    (lines : List (List Char)) : Nested (walk s number context lines).scopes := by
  induction lines generalizing s number context with
  | nil => exact h
  | cons line rest ih => exact ih h.step _ _

end Outline
end SourceSurvey
