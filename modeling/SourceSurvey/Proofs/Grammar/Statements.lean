import SourceSurvey.Proofs.Grammar.Words

/-!
# Statements on one line

The walk over a line whose first word is none of the words of headers (`Grammar.StartsPlain`), in a
state in which nothing is open: the line opens no scope, closes those of its margin and deeper ones,
and declares what its first word says.

* `Grammar.walk_fillers`: blank lines and comments are passed over.
* `Grammar.StartsPlain.heading`: a line that starts with another word is no header.
* `Grammar.addPlain_import`, `Grammar.addPlain_from`, `Grammar.addPlain_assignment`: what the plain
  statements of a `Grammar.Source` declare.
-/

namespace SourceSurvey
namespace Grammar

open Text (isBlank isWordChar Stops Tight dropReturn)
open Outline (State walk step statement)

variable {s : State} {line margin name rest : List Char}

/-! ## Lines -/

theorem walk_append_owned (s : State) (number : Nat) (xs ys : List (List Char)) :
    walk s number 0 (xs ++ ys) = walk (walk s number 0 xs) (number + xs.length) 0 ys := by
  rw [Outline.walk_append, Nat.zero_sub]

theorem walk_cons_owned (s : State) (number : Nat) (line : List Char) (rest : List (List Char)) :
    walk s number 0 (line :: rest) = walk (step s true number line) (number + 1) 0 rest := rfl

/-- A line of code is read as a statement. -/
theorem step_isStatement (hs : s.lexical = {}) (h : IsStatement line)
    (hsilent : Outline.isSilent line = false) (number : Nat) :
    step s true number (dropReturn line) = statement s true number line := by
  have hstatement : Outline.isStatement s line = true := by
    rw [Outline.isStatement, hs, hsilent]
    rfl
  rw [h.dropReturn, Outline.step_of_isStatement hstatement, hs, h.closed, ← hs]

/-- Fillers are passed over. -/
theorem walk_fillers (hs : s.lexical = {}) (number : Nat) (fillers : List Filler) :
    walk s number 0 ((fillers.map Filler.text).map dropReturn) = s := by
  induction fillers generalizing number with
  | nil => rfl
  | cons f fillers ih =>
    obtain ⟨hsilent, hadvance⟩ := f.silent
    have hstatement : Outline.isStatement s (dropReturn f.text) = false := by
      rw [Outline.isStatement, hsilent, Bool.not_true, Bool.and_false]
    have hstep : step s true number (dropReturn f.text) = s := by
      rw [Outline.step_of_not_isStatement hstatement, hs, hadvance, ← hs]
    rw [List.map_cons, List.map_cons, walk_cons_owned, hstep, ih]

/-! ## First words -/

/-- A line that starts, behind its margin, with a word other than the words of headers. -/
structure StartsPlain (margin name rest : List Char) : Prop where
  margin : ∀ c ∈ margin, isBlank c = true
  word : ∀ c ∈ name, isWordChar c = true
  nonempty : name ≠ []
  notClass : name ≠ "class".toList
  notAsync : name ≠ "async".toList
  notDef : name ≠ "def".toList
  stops : Stops isWordChar rest

namespace StartsPlain

variable (h : StartsPlain margin name rest)
include h

theorem stops_isBlank : Stops isBlank (name ++ rest) := by
  obtain ⟨c, name, rfl⟩ := List.exists_cons_of_ne_nil h.nonempty
  refine Text.stops_cons.mpr ?_
  by_contra hblank
  rw [Bool.not_eq_false] at hblank
  have hc := h.word c List.mem_cons_self
  rw [Text.isWordChar_of_isBlank hblank] at hc
  exact nomatch hc

theorem trimStart : Text.trimStart (margin ++ (name ++ rest)) = name ++ rest :=
  Header.trimStart_append h.margin h.stops_isBlank

theorem isSilent : Outline.isSilent (margin ++ (name ++ rest)) = false := by
  rw [Outline.isSilent, h.trimStart]
  obtain ⟨c, name, rfl⟩ := List.exists_cons_of_ne_nil h.nonempty
  have hc : c ≠ '#' := by
    rintro rfl
    exact absurd (h.word '#' List.mem_cons_self) (by decide)
  simpa using hc

theorem indentation : Outline.indentation (margin ++ (name ++ rest)) = Text.byteLength margin := by
  rw [Outline.indentation, Text.takeWhile_append_run h.margin h.stops_isBlank]

/-- No reader of another word answers. -/
theorem word?_bind {α : Type} {word : String} {f : List Char → Option α}
    (hf : ∀ cs, Stops isBlank cs → f cs = none) (hword : ∀ c ∈ word.toList, isWordChar c = true)
    (hne : name ≠ word.toList) : (Header.word? word (name ++ rest)).bind f = none :=
  Header.word?_bind_of_ne hf hword h.word hne h.stops

/-- The line is no header. -/
theorem heading (number : Nat) : Outline.heading number (margin ++ (name ++ rest)) = .plain := by
  have hgap : ∀ cs, Stops isBlank cs → Header.gap? cs = none := fun _ => Header.gap?_of_stops
  have hclass : Header.class? (name ++ rest) = none :=
    Header.class?_eq_none (h.word?_bind hgap (List.all_eq_true.mp (by decide)) h.notClass)
  have hfunction : Header.function? (name ++ rest) = none :=
    Header.function?_eq_none (h.word?_bind hgap (List.all_eq_true.mp (by decide)) h.notAsync)
      (h.word?_bind hgap (List.all_eq_true.mp (by decide)) h.notDef)
  unfold Outline.heading
  rw [h.trimStart, hclass, hfunction]

/-- A plain statement closes scopes and adds what it declares. -/
theorem statement (s : State) (number : Nat) :
    Outline.statement s true number (margin ++ (name ++ rest)) =
      { s with
        scopes := Outline.openScopes s.scopes (Text.byteLength margin)
        outline := Outline.addPlain s.outline (Outline.openScopes s.scopes (Text.byteLength margin))
          (Text.byteLength margin) number (name ++ rest) } := by
  rw [Outline.statement_eq, h.heading, Outline.opened, h.trimStart, h.indentation]
  rfl

end StartsPlain

/-! ## Plain statements -/

/-- The words that statements of the grammar start with, besides those of headers. -/
def plainWords : List String := ["import", "from", "pass"]

theorem startsPlain_word {word : String} (hword : word ∈ plainWords)
    (hmargin : ∀ c ∈ margin, isBlank c = true) (hrest : Stops isWordChar rest) :
    StartsPlain margin word.toList rest := by
  have hchars : ∀ w ∈ plainWords, w.toList.all isWordChar = true := by decide
  have hnames : ∀ w ∈ plainWords, w.toList ≠ [] ∧ w.toList ≠ "class".toList ∧
      w.toList ≠ "async".toList ∧ w.toList ≠ "def".toList := by decide
  obtain ⟨hne, hclass, hasync, hdef⟩ := hnames word hword
  exact ⟨hmargin, List.all_eq_true.mp (hchars word hword), hne, hclass, hasync, hdef, hrest⟩

theorem startsPlain_identifier (name : Identifier) (hrest : Stops isWordChar rest) :
    StartsPlain [] name.text rest where
  margin := List.forall_mem_nil _
  word := fun c hc => isWordChar_of_isIdentifierChar (name.chars c hc)
  nonempty := name.text_ne_nil
  notClass := name.ne_keyword (by decide)
  notAsync := name.ne_keyword (by decide)
  notDef := name.ne_keyword (by decide)
  stops := hrest

theorem stops_blank (cs : List Char) : Stops isWordChar (' ' :: cs) :=
  Text.stops_cons.mpr (by decide)

/-- A `pass` behind some indentation declares nothing. -/
theorem addPlain_pass {indent : Nat} (h : indent ≠ 0) (o : Outline) (scopes : List Scope)
    (number : Nat) : Outline.addPlain o scopes indent number ("pass".toList ++ []) = o := by
  have hfrom : Header.fromImport? "pass".toList = none := by decide
  have himport : Header.import? "pass".toList = none := by decide
  rw [List.append_nil, Outline.addPlain, Outline.addStatement, hfrom, himport]
  simp [h]

/-- What a plain import is written with behind its first word. -/
def importText (source : ModuleName) (alias? : Option Identifier) : List Char :=
  source.text ++ alias?.elim [] fun other => " as ".toList ++ other.text

theorem importText_facts (source : ModuleName) (alias? : Option Identifier) :
    IsPlain (importText source alias?) ∧ Tight isBlank (importText source alias?) ∧
      importText source alias? ≠ [] ∧ ',' ∉ importText source alias? ∧
      Header.nameAndAlias (importText source alias?) = (source.text, alias?.map Identifier.text) := by
  have hsource := isPlain_of_isDottedChar source.chars
  have hcomma : ',' ∉ source.text := fun hmem => nomatch source.chars ',' hmem
  unfold importText
  cases alias? with
  | none =>
    rw [Option.elim_none, List.append_nil]
    exact ⟨hsource, tight_of_isDottedChar source.chars, source.text_ne_nil, hcomma,
      nameAndAlias_alone source.chars⟩
  | some other =>
    have hother : ',' ∉ other.text := fun hmem => nomatch other.dotted_chars ',' hmem
    have hcomma' : ',' ∉ source.text ++ (" as ".toList ++ other.text) := by
      simp only [List.mem_append, not_or]
      exact ⟨hcomma, by decide, hother⟩
    exact ⟨isPlain_append.mpr ⟨hsource, isPlain_append.mpr ⟨isPlain_of_all (by decide), other.plain⟩⟩,
      (tight_of_isDottedChar source.chars).append source.text_ne_nil
        (tight_of_isDottedChar other.dotted_chars) other.text_ne_nil _,
      List.append_ne_nil_of_left_ne_nil source.text_ne_nil _, hcomma',
      nameAndAlias_as source.chars source.text_ne_nil other⟩

/-- A plain import declares its module. -/
theorem addPlain_import (o : Outline) (scopes : List Scope) (number : Nat) (source : ModuleName)
    (alias? : Option Identifier) :
    Outline.addPlain o scopes 0 number ("import".toList ++ (' ' :: importText source alias?)) =
      { o with module := { o.module with imports := o.module.imports ++
        [{ source := String.ofList source.text, alias? := alias?.map Identifier.string
           line := number }] } } := by
  obtain ⟨hplain, htight, hne, hcomma, halias⟩ := importText_facts source alias?
  have hstarts : StartsPlain [] "import".toList (' ' :: importText source alias?) :=
    startsPlain_word (by decide) (List.forall_mem_nil _) (stops_blank _)
  have hfrom : Header.fromImport? ("import".toList ++ (' ' :: importText source alias?)) = none :=
    Header.fromImport?_eq_none (hstarts.word?_bind (fun _ => Header.gap?_of_stops)
      (List.all_eq_true.mp (by decide))
      (by decide))
  have hfeed : '\n' ∉ importText source alias? := hplain.isStatement.not_mem
  have himport : Header.import? ("import".toList ++ (' ' :: importText source alias?)) =
      some (importText source alias?) := by
    have hblank : ∀ c ∈ [' '], isBlank c = true := List.all_eq_true.mp rfl
    rw [Header.import?, Header.word?_append, Option.bind_some]
    exact Header.remainder?_append hblank (by simp) hne htight.first hfeed
  have hempty : source.text.isEmpty = false := by simpa using source.text_ne_nil
  rw [Outline.addPlain, Outline.addStatement, hfrom, himport]
  dsimp only
  rw [Outline.plainImports, beforeComment_eq_self hplain htight, Text.fields_of_not_mem hcomma]
  simp only [List.filterMap_cons, List.filterMap_nil, halias, hempty, Bool.false_eq_true, if_false,
    Option.map_map]
  rfl

/-- A from-import declares its module and its names. -/
theorem addPlain_from (o : Outline) (scopes : List Scope) (number : Nat) (source : ModuleName)
    {names : List Identifier} (hne : names ≠ []) :
    Outline.addPlain o scopes 0 number ("from".toList ++ (' ' :: (source.text ++
        (' ' :: ("import".toList ++ (' ' :: series (names.map Identifier.text))))))) =
      { o with module := { o.module with imports := o.module.imports ++
        [{ source := String.ofList source.text, names := names.map Identifier.string
           line := number }] } } := by
  obtain ⟨hseries, htight⟩ := identifiers_tight hne fun _ => isBlank_of_isDottedChar
  have hplain := identifiers_plain names
  have hfrom : Header.fromImport? ("from".toList ++ (' ' :: (source.text ++
      (' ' :: ("import".toList ++ (' ' :: series (names.map Identifier.text))))))) =
        some (source.text, series (names.map Identifier.text)) :=
    Header.fromImport?_append (fun c hc => isBlank_of_isDottedChar (source.chars c hc))
      source.text_ne_nil hseries htight.first hplain.isStatement.not_mem
  rw [Outline.addPlain, Outline.addStatement, hfrom]
  dsimp only
  rw [beforeComment_eq_self hplain htight, importedNames_series hne, List.map_map]
  rfl

/-- An assignment at the left edge declares its variable. -/
theorem addPlain_assignment (o : Outline) (number : Nat) (name : Identifier) (value : Digits) :
    Outline.addPlain o [] 0 number (name.text ++ (" = ".toList ++ value.text)) =
      { o with module := { o.module with globals := o.module.globals ++
        [{ name := name.string, line := number }] } } := by
  have hstarts : StartsPlain [] name.text (" = ".toList ++ value.text) :=
    startsPlain_identifier name (stops_blank _)
  have hfrom : Header.fromImport? (name.text ++ (" = ".toList ++ value.text)) = none :=
    Header.fromImport?_eq_none (hstarts.word?_bind (fun _ => Header.gap?_of_stops)
      (List.all_eq_true.mp (by decide))
      (name.ne_keyword (by decide)))
  have himport : Header.import? (name.text ++ (" = ".toList ++ value.text)) = none :=
    hstarts.word?_bind (fun _ => Header.remainder?_of_stops) (List.all_eq_true.mp (by decide))
      (name.ne_keyword (by decide))
  have hname : Header.name? (name.text ++ (" = ".toList ++ value.text)) =
      some (name.text, " = ".toList ++ value.text) :=
    Header.name?_append name.starts
      (fun c hc => isWordChar_of_isIdentifierChar (name.continues c hc)) hstarts.stops
  have hassigned : Header.assigned? (name.text ++ (" = ".toList ++ value.text)) = some name.text := by
    unfold Header.assigned?
    rw [hname]
    rfl
  rw [Outline.addPlain, Outline.addStatement, hfrom, himport]
  dsimp only
  rw [hassigned]
  rfl

/-! ## Statements at the left edge -/

/-- A plain statement at the left edge. -/
theorem step_plain (hs : s.lexical = {}) (hline : IsStatement (name ++ rest))
    (hstarts : StartsPlain [] name rest) (number : Nat) :
    step s true number (dropReturn (name ++ rest)) =
      { s with scopes := [], outline := Outline.addPlain s.outline [] 0 number (name ++ rest) } := by
  have hstep := step_isStatement hs hline hstarts.isSilent number
  have hstatement := hstarts.statement s number
  rw [List.nil_append, Text.byteLength_nil, Outline.openScopes_zero] at hstatement
  rw [hstep, hstatement]

/-- A word of a statement, a blank and plain text. -/
theorem isPlain_word {word : String} (hword : word ∈ plainWords) {cs : List Char} (hcs : IsPlain cs) :
    IsPlain (word.toList ++ (' ' :: cs)) := by
  have hall : ∀ w ∈ plainWords,
      (w.toList.all fun c => isCodeChar c && !Header.isParenthesis c) = true := by decide
  exact isPlain_append.mpr ⟨isPlain_of_all (hall word hword), List.forall_mem_cons.mpr ⟨by decide, hcs⟩⟩

theorem isStatement_import (source : ModuleName) (alias? : Option Identifier) :
    IsStatement ("import".toList ++ (' ' :: importText source alias?)) := by
  obtain ⟨hplain, -⟩ := importText_facts source alias?
  exact (isPlain_word (by decide) hplain).isStatement

theorem isStatement_from (source : ModuleName) (names : List Identifier) :
    IsStatement ("from".toList ++ (' ' :: (source.text ++
      (' ' :: ("import".toList ++ (' ' :: series (names.map Identifier.text))))))) := by
  have himport : IsPlain (' ' :: ("import".toList ++ (' ' :: series (names.map Identifier.text)))) :=
    List.forall_mem_cons.mpr ⟨by decide, isPlain_word (by decide) (identifiers_plain names)⟩
  have hsource := isPlain_of_isDottedChar source.chars
  exact (isPlain_word (by decide) (isPlain_append.mpr ⟨hsource, himport⟩)).isStatement

theorem isStatement_assignment (name : Identifier) (value : Digits) :
    IsStatement (name.text ++ (" = ".toList ++ value.text)) := by
  have hequals : IsPlain " = ".toList := isPlain_of_all (by decide)
  exact IsPlain.isStatement
    (isPlain_append.mpr ⟨name.plain, isPlain_append.mpr ⟨hequals, value.plain⟩⟩)

end Grammar
end SourceSurvey
