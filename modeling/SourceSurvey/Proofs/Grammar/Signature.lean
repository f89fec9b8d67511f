import SourceSurvey.Proofs.Grammar.Reading
import SourceSurvey.Proofs.Outline.Walk

/-!
# Signatures

One-line headers of functions and classes as they may be written: white space wherever it may stand,
annotations, defaults and bases with brackets inside of brackets. The readers of headers do not match
brackets. They end a list at the first closing parenthesis and cut it at every comma, so a comma
inside of an annotation leaves a stray piece (`Grammar.strays`), and what follows a parenthesis that
an annotation closes is not read.

* `Grammar.parameters_listed`: what is recorded of any list of parameters.
* `Grammar.outline_step_signature`: of flat headers, whose annotations, defaults and bases hold no
  comma and close no parenthesis up to the last parameter, exactly the names and the bases are
  recorded.
-/

namespace SourceSurvey
namespace Grammar

open Text (isBlank isWordChar isNameStart Stops Tight)

/-! ## Pieces of a header -/

/-- White space, perhaps none. -/
structure Blanks where
  text : List Char
  blank : ∀ c ∈ text, isBlank c = true

/-- White space between two words. -/
structure Gap extends Blanks where
  nonempty : text ≠ []

/-- The name of a function or a class. -/
structure Name where
  first : Char
  rest : List Char
  starts : isNameStart first = true
  continues : ∀ c ∈ rest, isWordChar c = true

def Name.text (n : Name) : List Char := n.first :: n.rest

/-- The characters of the names of parameters: ASCII letters, digits and underscores, and what is not
white space beyond ASCII. -/
def isNameChar (c : Char) : Bool :=
  c.isAlphanum || c == '_' || (decide (128 ≤ c.toNat) && !isBlank c)

/-- The name of a parameter. -/
structure Word where
  text : List Char
  nonempty : text ≠ []
  chars : ∀ c ∈ text, isNameChar c = true

/-- The bracket that closes a bracket. -/
def closing? : Char → Option Char
  | '(' => some ')'
  | '[' => some ']'
  | '\x7b' => some '\x7d'
  | _ => none

def isClosing (c : Char) : Bool := c == ')' || c == ']' || c == '\x7d'

/-- Whether every bracket is closed by one of its kind and no comma stands outside of brackets.
`awaited` are the closing brackets that are still to come. -/
def isBalanced (awaited : List Char) : List Char → Bool
  | [] => awaited.isEmpty
  | c :: rest =>
    match closing? c with
    | some d => isBalanced (d :: awaited) rest
    | none =>
      if isClosing c then awaited.head? == some c && isBalanced awaited.tail rest
      else (c != ',' || !awaited.isEmpty) && isBalanced awaited rest

/-- The characters that stand in no annotation, default or base: quotes, the hash and the equals
sign. -/
def isForeign (c : Char) : Bool := c == '"' || c == '\'' || c == '#' || c == '='

/-- An annotation, a default or a base. -/
structure Expression where
  text : List Char
  nonempty : text ≠ []
  tight : Tight isBlank text
  balanced : isBalanced [] text = true
  plain : ∀ c ∈ text, isForeign c = false

/-- An expression with white space around it. -/
structure Spaced where
  before : Blanks
  expression : Expression
  after : Blanks

def Spaced.text (e : Spaced) : List Char := e.before.text ++ e.expression.text ++ e.after.text

/-- A parameter: a name with up to two stars, an annotation behind a colon and a default behind an
equals sign. -/
structure Parameter where
  before : Blanks
  stars : Fin 3
  name : Word
  after : Blanks
  hint? : Option Spaced
  default? : Option Spaced

namespace Parameter

/-- The name with its stars. -/
def recorded (p : Parameter) : List Char := List.replicate p.stars '*' ++ p.name.text

/-- What stands before the annotation and the default. -/
def front (p : Parameter) : List Char := p.before.text ++ p.recorded ++ p.after.text

/-- The annotation and the default. -/
def tail (p : Parameter) : List Char :=
  (p.hint?.elim [] fun e => ':' :: e.text) ++ p.default?.elim [] fun e => '=' :: e.text

def text (p : Parameter) : List Char := p.front ++ p.tail

end Parameter

/-- Pieces with commas between them; white space may follow a last comma. -/
def listed (pieces : List (List Char)) (last? : Option Blanks) : List Char :=
  [','].intercalate (pieces ++ last?.toList.map Blanks.text)

/-- The header of a function on one line. `rest` follows the parenthesis that closes the list of
parameters. -/
structure FunctionHeader where
  indent : Blanks
  async? : Option Gap
  gap : Gap
  name : Name
  after : Blanks
  parameters : List Parameter
  last? : Option Blanks
  rest : List Char

namespace FunctionHeader

/-- The list of parameters. -/
def inner (h : FunctionHeader) : List Char := listed (h.parameters.map Parameter.text) h.last?

/-- The header from `def` on. -/
def definition (h : FunctionHeader) : List Char :=
  "def".toList ++ (h.gap.text ++ (h.name.text ++ (h.after.text ++ '(' :: (h.inner ++ ')' :: h.rest))))

/-- The header without its indentation. -/
def code (h : FunctionHeader) : List Char :=
  match h.async? with
  | some gap => "async".toList ++ (gap.text ++ h.definition)
  | none => h.definition

def line (h : FunctionHeader) : List Char := h.indent.text ++ h.code

/-- The record that the header stands for. -/
def record (h : FunctionHeader) (number : Nat) : FunctionDef where
  name := String.ofList h.name.text
  line := number
  parameters := h.parameters.map fun p => String.ofList p.recorded
  isAsync := h.async?.isSome

/-- No annotation and no default holds a comma, unless a parenthesis was closed before it, and only
those of the last parameter close parentheses. -/
structure Flat (h : FunctionHeader) : Prop where
  commas : ∀ p ∈ h.parameters, ',' ∉ p.tail.takeWhile (· != ')')
  closings : ∀ p ∈ h.parameters.dropLast, ')' ∉ p.tail

end FunctionHeader

/-- The header of a class on one line. `rest` follows the colon. -/
structure ClassHeader where
  indent : Blanks
  gap : Gap
  name : Name
  after : Blanks
  bases : List Spaced
  last? : Option Blanks
  closing : Blanks
  rest : List Char

namespace ClassHeader

/-- The list of bases. -/
def inner (h : ClassHeader) : List Char := listed (h.bases.map Spaced.text) h.last?

/-- The header without its indentation. -/
def code (h : ClassHeader) : List Char :=
  "class".toList ++ (h.gap.text ++ (h.name.text ++ (h.after.text ++
    '(' :: (h.inner ++ ')' :: (h.closing.text ++ ':' :: h.rest)))))

def line (h : ClassHeader) : List Char := h.indent.text ++ h.code

/-- The record that the header stands for. -/
def record (h : ClassHeader) (number : Nat) : ClassDef where
  name := String.ofList h.name.text
  line := number
  bases := h.bases.map fun e => String.ofList e.expression.text

/-- No base holds a comma or closes a parenthesis. -/
structure Flat (h : ClassHeader) : Prop where
  commas : ∀ e ∈ h.bases, ',' ∉ e.expression.text
  closings : ∀ e ∈ h.bases, ')' ∉ e.expression.text

end ClassHeader

/-! ## One parameter -/

section Parameters

variable {p : Parameter} {t rest : List Char} {c : Char}

/-- The characters before a colon or an equals sign of a parameter. -/
def isFrontChar (c : Char) : Bool := isBlank c || isNameChar c || c == '*'

/-- Whether a character stands before the annotation and the default. -/
def isUncut (c : Char) : Bool := c != ':' && c != '='

theorem front_chars (hc : c ∈ p.front) : isFrontChar c = true := by
  simp only [Parameter.front, Parameter.recorded, List.mem_append] at hc
  rcases hc with (hc | hc | hc) | hc
  · simp [isFrontChar, p.before.blank c hc]
  · simp [isFrontChar, List.eq_of_mem_replicate hc]
  · simp [isFrontChar, p.name.chars c hc]
  · simp [isFrontChar, p.after.blank c hc]

theorem not_mem_front (h : isFrontChar c = false) : c ∉ p.front := fun hc => by
  rw [front_chars hc] at h
  exact nomatch h

theorem front_uncut (hc : c ∈ p.front) : isUncut c = true := by
  have hfront := front_chars hc
  have hcolon : c ≠ ':' := by rintro rfl; exact nomatch hfront
  have hequals : c ≠ '=' := by rintro rfl; exact nomatch hfront
  simp [isUncut, hcolon, hequals]

theorem not_isBlank_of_isNameChar (h : isNameChar c = true) : isBlank c = false := by
  by_contra hb
  rw [Bool.not_eq_false] at hb
  have hall : ∀ n ∈ Text.blankCodes, isNameChar (Char.ofNat n) = false := by decide +kernel
  have hc := hall _ (Text.mem_blankCodes hb)
  rw [Char.ofNat_toNat, h] at hc
  exact nomatch hc

/-- The last character of what is recorded belongs to the name. -/
theorem mem_name_of_getLast (hc : c ∈ p.recorded.getLast?) : c ∈ p.name.text := by
  rw [Parameter.recorded, List.getLast?_append_of_ne_nil _ p.name.nonempty] at hc
  exact List.mem_of_getLast? hc

theorem recorded_not_isBlank (hc : c ∈ p.recorded) : isBlank c = false := by
  rcases List.mem_append.mp hc with hc | hc
  · rw [List.eq_of_mem_replicate hc]
    rfl
  · exact not_isBlank_of_isNameChar (p.name.chars c hc)

/-- What is recorded is no bare star, no slash and not empty. -/
theorem recorded_ne {word : List Char} (hword : ∀ c ∈ word.getLast?, isNameChar c = false) :
    p.recorded ≠ word := by
  rintro rfl
  have hne : p.recorded ≠ [] := by
    rw [Parameter.recorded]
    exact List.append_ne_nil_of_right_ne_nil _ p.name.nonempty
  have hlast := List.getLast?_eq_getLast_of_ne_nil hne
  have hchar := p.name.chars _ (mem_name_of_getLast hlast)
  rw [hword _ hlast] at hchar
  exact nomatch hchar

theorem trim_front (p : Parameter) : Text.trim p.front = p.recorded :=
  Text.trimWhere_append p.before.blank (Text.tight_of_forall fun _ => recorded_not_isBlank)
    p.after.blank

/-- A parameter whose annotation and default hold no comma is recorded with its name alone. -/
theorem parameters_front_of_not_mem (hstop : Stops isUncut t) (ht : ',' ∉ t) :
    Header.parameters (p.front ++ t) = [p.recorded] := by
  have hcomma : ',' ∉ p.front ++ t := by
    rw [List.mem_append, not_or]
    exact ⟨not_mem_front rfl, ht⟩
  have hcut : (p.front ++ t).takeWhile (fun c => c != ':' && c != '=') = p.front :=
    Text.takeWhile_append_run (fun c => front_uncut) hstop
  have hempty : p.recorded ≠ [] := recorded_ne (by simp)
  have hstar : p.recorded ≠ ['*'] := recorded_ne (by simp; rfl)
  have hslash : p.recorded ≠ ['/'] := recorded_ne (by simp; rfl)
  rw [Header.parameters, Text.fields_of_not_mem hcomma, List.map_singleton, hcut, trim_front]
  simp [hempty, hstar, hslash]

/-- The pieces that the commas of an annotation or a default leave. -/
def strays (t : List Char) : List (List Char) :=
  match t.dropWhile (· != ',') with
  | [] => []
  | _ :: rest => Header.parameters rest

theorem strays_of_not_mem (h : ',' ∉ t) : strays t = [] := by
  have hdrop : t.dropWhile (· != ',') = [] :=
    List.dropWhile_eq_nil_iff.mpr (Header.forall_ne_of_not_mem h)
  rw [strays, hdrop]

theorem strays_append_of_not_mem (h : ',' ∉ t) (rest : List Char) :
    strays (t ++ ',' :: rest) = Header.parameters rest := by
  have hdrop : (t ++ ',' :: rest).dropWhile (· != ',') = ',' :: rest :=
    Text.dropWhile_append_run (Header.forall_ne_of_not_mem h) (Text.stops_cons.mpr rfl)
  rw [strays, hdrop]

/-- A parameter is recorded with its name and with what the commas after it leave. -/
theorem parameters_front (hstop : Stops isUncut t) :
    Header.parameters (p.front ++ t) = p.recorded :: strays t := by
  by_cases h : ',' ∈ t
  · obtain ⟨before, after, rfl, hbefore⟩ := List.eq_append_cons_of_mem h
    have hbstop : Stops isUncut before := by
      cases before with
      | nil => exact Text.stops_nil _
      | cons c before => exact Text.stops_cons.mpr (Text.stops_cons.mp hstop)
    rw [strays_append_of_not_mem hbefore, ← List.append_assoc, Header.parameters_append,
      parameters_front_of_not_mem hbstop hbefore]
    rfl
  · rw [parameters_front_of_not_mem hstop h, strays_of_not_mem h]

/-! ## Lists of parameters -/

/-- What is recorded of parameters: each with the pieces that its commas leave, up to the first
closing parenthesis. -/
def recordedOf : List Parameter → List (List Char)
  | [] => []
  | p :: ps =>
    p.recorded :: strays (p.tail.takeWhile (· != ')')) ++ if ')' ∈ p.tail then [] else recordedOf ps

theorem stops_tail (p : Parameter) : Stops isUncut p.tail := by
  unfold Parameter.tail
  cases p.hint? with
  | some e => exact Text.stops_cons.mpr rfl
  | none =>
    cases p.default? with
    | some e => exact Text.stops_cons.mpr rfl
    | none => exact Text.stops_nil _

theorem stops_takeWhile_tail (p : Parameter) : Stops isUncut (p.tail.takeWhile (· != ')')) := by
  have hstop := stops_tail p
  cases htail : p.tail with
  | nil => exact Text.stops_nil _
  | cons c tail =>
    rw [htail, Text.stops_cons] at hstop
    rw [List.takeWhile_cons]
    split
    · exact Text.stops_cons.mpr hstop
    · exact Text.stops_nil _

theorem listed_cons (piece : List Char) {pieces : List (List Char)} {last? : Option Blanks}
    (h : pieces ++ last?.toList.map Blanks.text ≠ []) :
    listed (piece :: pieces) last? = piece ++ ',' :: listed pieces last? := by
  rw [listed, List.cons_append, List.intercalate_cons_of_ne_nil h, List.append_assoc]
  rfl

/-- A list without pieces is white space. -/
theorem listed_nil_blank (last? : Option Blanks) : ∀ c ∈ listed [] last?, isBlank c = true := by
  cases last? with
  | none => exact fun _ h => nomatch h
  | some b =>
    intro c hc
    exact b.blank c (by simpa [listed] using hc)

theorem takeWhile_of_mem {xs : List Char} (h : c ∈ xs) (ys : List Char) :
    (xs ++ ys).takeWhile (· != c) = xs.takeWhile (· != c) := by
  obtain ⟨before, after, rfl, hbefore⟩ := List.eq_append_cons_of_mem h
  have hrun := Header.forall_ne_of_not_mem hbefore
  have hstop (rest : List Char) : Stops (· != c) (c :: rest) := Text.stops_cons.mpr (by simp)
  rw [List.append_assoc, List.cons_append, Text.takeWhile_append_run hrun (hstop _),
    Text.takeWhile_append_run hrun (hstop _)]

theorem takeWhile_of_not_mem {xs : List Char} (h : c ∉ xs) (ys : List Char) :
    (xs ++ ys).takeWhile (· != c) = xs ++ ys.takeWhile (· != c) :=
  List.takeWhile_append_of_pos (Header.forall_ne_of_not_mem h)

/-- The parameter in front of `rest`, read up to the first closing parenthesis. -/
theorem takeWhile_parameter (p : Parameter) (rest : List Char) :
    (p.text ++ rest).takeWhile (· != ')') =
      p.front ++ (p.tail ++ rest).takeWhile (· != ')') := by
  rw [Parameter.text, List.append_assoc, takeWhile_of_not_mem (not_mem_front rfl)]

/-- What is recorded of any list of parameters. -/
theorem parameters_listed (ps : List Parameter) (last? : Option Blanks) (rest : List Char) :
    Header.parameters
        ((listed (ps.map Parameter.text) last? ++ ')' :: rest).takeWhile (· != ')')) =
      recordedOf ps := by
  have hstop (rest : List Char) : (')' :: rest).takeWhile (· != ')') = [] := rfl
  induction ps with
  | nil =>
    have hblank := listed_nil_blank last?
    have hclosing : ')' ∉ listed [] last? := fun h => nomatch hblank _ h
    rw [List.map_nil, takeWhile_of_not_mem hclosing, hstop, List.append_nil,
      Header.parameters_blanks hblank]
    rfl
  | cons p ps ih =>
    rw [List.map_cons, recordedOf]
    by_cases hnil : ps.map Parameter.text ++ last?.toList.map Blanks.text = []
    · -- the parameter is the last piece: a closing parenthesis ends it, its own or that of the list
      obtain ⟨hps, hlast⟩ := List.append_eq_nil_iff.mp hnil
      have hwhole : (p.tail ++ ')' :: rest).takeWhile (· != ')') = p.tail.takeWhile (· != ')') := by
        by_cases hmem : ')' ∈ p.tail
        · exact takeWhile_of_mem hmem _
        · rw [takeWhile_of_not_mem hmem, hstop, List.append_nil,
            List.takeWhile_eq_self_iff.mpr (Header.forall_ne_of_not_mem hmem)]
      have hone : listed (p.text :: ps.map Parameter.text) last? = p.text := by
        rw [listed, List.cons_append, hnil, List.intercalate_singleton]
      rw [hone, takeWhile_parameter, hwhole, parameters_front (stops_takeWhile_tail p),
        List.map_eq_nil_iff.mp hps]
      simp [recordedOf]
    · rw [listed_cons _ hnil, List.append_assoc, takeWhile_parameter]
      by_cases hmem : ')' ∈ p.tail
      · rw [takeWhile_of_mem hmem, parameters_front (stops_takeWhile_tail p), if_pos hmem,
          List.append_nil]
      · have hcomma (rest : List Char) :
            (',' :: rest).takeWhile (· != ')') = ',' :: rest.takeWhile (· != ')') := rfl
        rw [takeWhile_of_not_mem hmem, List.cons_append, hcomma, if_neg hmem,
          List.takeWhile_eq_self_iff.mpr (Header.forall_ne_of_not_mem hmem), ← List.append_assoc,
          Header.parameters_append, parameters_front (stops_tail p), ih]

/-- Flat parameters are recorded with their names, in order. -/
theorem recordedOf_flat {ps : List Parameter}
    (hcommas : ∀ p ∈ ps, ',' ∉ p.tail.takeWhile (· != ')'))
    (hclosings : ∀ p ∈ ps.dropLast, ')' ∉ p.tail) : recordedOf ps = ps.map Parameter.recorded := by
  induction ps with
  | nil => rfl
  | cons p ps ih =>
    obtain ⟨hcomma, hcommas⟩ := List.forall_mem_cons.mp hcommas
    rw [recordedOf, strays_of_not_mem hcomma, List.map_cons]
    cases ps with
    | nil => simp [recordedOf]
    | cons q ps =>
      rw [List.dropLast_cons_cons] at hclosings
      obtain ⟨hclosing, hclosings⟩ := List.forall_mem_cons.mp hclosings
      rw [if_neg hclosing, ih hcommas hclosings]
      rfl

end Parameters

/-! ## Bases -/

theorem Expression.not_mem {e : Expression} {c : Char} (h : isForeign c = true) : c ∉ e.text :=
  fun hc => by
    rw [e.plain c hc] at h
    exact nomatch h

theorem Spaced.mem_text {e : Spaced} {c : Char} (hblank : isBlank c = false) (h : c ∈ e.text) :
    c ∈ e.expression.text := by
  simp only [Spaced.text, List.mem_append] at h
  rcases h with (h | h) | h
  · rw [e.before.blank c h] at hblank
    exact nomatch hblank
  · exact h
  · rw [e.after.blank c h] at hblank
    exact nomatch hblank

theorem Spaced.trim_text (e : Spaced) : Text.trim e.text = e.expression.text :=
  Text.trimWhere_append e.before.blank e.expression.tight e.after.blank

namespace ClassHeader

variable {h : ClassHeader}

theorem Flat.closing_not_mem (hf : h.Flat) : ')' ∉ h.inner := by
  suffices hall : ∀ c ∈ h.inner, c ≠ ')' from fun hmem => hall _ hmem rfl
  refine Text.forall_mem_intercalate (by simp) fun piece hpiece => ?_
  rintro c hmem rfl
  rcases List.mem_append.mp hpiece with hpiece | hpiece
  · obtain ⟨e, he, rfl⟩ := List.mem_map.mp hpiece
    exact hf.closings e he (e.mem_text rfl hmem)
  · obtain ⟨b, -, rfl⟩ := List.mem_map.mp hpiece
    exact nomatch b.blank _ hmem

/-- Flat bases are recorded as they are written, in order. -/
theorem Flat.bases_inner (hf : h.Flat) :
    Header.bases h.inner = h.bases.map fun e => e.expression.text := by
  have hcommas : ∀ piece ∈ h.bases.map Spaced.text ++ h.last?.toList.map Blanks.text,
      ',' ∉ piece := by
    intro piece hpiece hmem
    rcases List.mem_append.mp hpiece with hpiece | hpiece
    · obtain ⟨e, he, rfl⟩ := List.mem_map.mp hpiece
      exact hf.commas e he (e.mem_text rfl hmem)
    · obtain ⟨b, -, rfl⟩ := List.mem_map.mp hpiece
      exact nomatch b.blank _ hmem
  have htrim : (h.bases.map Spaced.text).map Text.trim = h.bases.map fun e => e.expression.text := by
    rw [List.map_map]
    exact List.map_congr_left fun e _ => e.trim_text
  have hlast : ((h.last?.toList.map Blanks.text).map Text.trim).filter Header.isBase = [] := by
    rw [List.filter_eq_nil_iff]
    intro piece hpiece
    simp only [List.mem_map] at hpiece
    obtain ⟨-, ⟨b, -, rfl⟩, rfl⟩ := hpiece
    rw [Text.trim, Text.trimWhere_run b.blank]
    exact Bool.false_ne_true
  have hkeep : ∀ piece ∈ h.bases.map (fun e => e.expression.text), Header.isBase piece = true := by
    intro piece hpiece
    obtain ⟨e, -, rfl⟩ := List.mem_map.mp hpiece
    have hequals : '=' ∉ e.expression.text := Expression.not_mem rfl
    simp [Header.isBase, e.expression.nonempty, hequals]
  rw [inner, listed, Header.bases_intercalate hcommas, List.map_append, List.filter_append, htrim,
    hlast, List.append_nil, List.filter_eq_self.mpr hkeep]

end ClassHeader

/-! ## Headings -/

section Headings

variable {rest : List Char} {number : Nat} {c : Char}

theorem stops_isBlank_definition (h : FunctionHeader) : Stops isBlank h.definition :=
  Text.stops_cons.mpr rfl

theorem stops_isBlank_code (h : FunctionHeader) : Stops isBlank h.code := by
  unfold FunctionHeader.code
  split
  · exact Text.stops_cons.mpr rfl
  · exact stops_isBlank_definition h

theorem Name.stops (n : Name) (rest : List Char) : Stops isBlank (n.text ++ rest) := by
  refine Text.stops_cons.mpr ?_
  by_contra hb
  rw [Bool.not_eq_false] at hb
  have hall : ∀ m ∈ Text.blankCodes, isNameStart (Char.ofNat m) = false := by decide +kernel
  have hfirst := hall _ (Text.mem_blankCodes hb)
  rw [Char.ofNat_toNat, n.starts] at hfirst
  exact nomatch hfirst

/-- A word, a gap, a name and white space are read in turn. -/
theorem read_name (gap : Gap) (n : Name) (after : Blanks) (hword : isWordChar c = false)
    (hblank : isBlank c = false) (rest : List Char) :
    Header.gap? (gap.text ++ (n.text ++ (after.text ++ c :: rest))) =
        some (n.text ++ (after.text ++ c :: rest)) ∧
      Header.name? (n.text ++ (after.text ++ c :: rest)) = some (n.text, after.text ++ c :: rest) ∧
      Text.trimStart (after.text ++ c :: rest) = c :: rest :=
  ⟨Header.gap?_append gap.blank gap.nonempty (n.stops _),
    Header.name?_append n.starts n.continues
      (Text.stops_isWordChar_append after.blank (Text.stops_cons.mpr hword)),
    Header.trimStart_append after.blank (Text.stops_cons.mpr hblank)⟩

/-- The reader of function headers on a header. -/
theorem function?_code (h : FunctionHeader) :
    Header.function? h.code =
      some { isAsync := h.async?.isSome, name := h.name.text
             parameters := (h.inner ++ ')' :: h.rest).takeWhile (· != ')') } := by
  obtain ⟨hgap, hname, htrim⟩ :=
    read_name (c := '(') h.gap h.name h.after (by decide) rfl (h.inner ++ ')' :: h.rest)
  have hdef : Header.word? "def" h.definition =
      some (h.gap.text ++ (h.name.text ++ (h.after.text ++ '(' :: (h.inner ++ ')' :: h.rest)))) :=
    Header.word?_append "def" _
  unfold Header.function? FunctionHeader.code
  cases h.async? with
  | some gap =>
    have hasync : (Header.word? "async" ("async".toList ++ (gap.text ++ h.definition))).bind
        Header.gap? = some h.definition := by
      rw [Header.word?_append]
      exact Header.gap?_append gap.blank gap.nonempty (stops_isBlank_definition h)
    simp only [hasync, hdef, hgap, hname, htrim, Option.bind_eq_bind,
      Option.bind_some, Option.isSome_some]
  | none =>
    have hasync : (Header.word? "async" h.definition).bind Header.gap? = none := by
      rw [show h.definition = 'd' :: h.definition.tail from rfl,
        Header.word?_cons_ne (by decide) (by decide)]
      rfl
    simp only [hasync, hdef, hgap, hname, htrim, Option.bind_eq_bind,
      Option.bind_some, Option.isSome_none]

theorem class?_function (h : FunctionHeader) : Header.class? h.code = none := by
  have hword : Header.word? "class" h.code = none := by
    unfold FunctionHeader.code
    split
    · exact Header.word?_cons_ne (by decide) (by decide) _
    · exact Header.word?_cons_ne (by decide) (by decide) _
  rw [Header.class?, hword]
  rfl

/-- The reader of class headers on a header. -/
theorem class?_code (h : ClassHeader) (hclosing : ')' ∉ h.inner) :
    Header.class? h.code = some (h.name.text, some h.inner) := by
  obtain ⟨hgap, hname, htrim⟩ :=
    read_name (c := '(') h.gap h.name h.after (by decide) rfl
      (h.inner ++ ')' :: (h.closing.text ++ ':' :: h.rest))
  have hclass := Header.word?_append "class" (h.gap.text ++ (h.name.text ++ (h.after.text ++
    '(' :: (h.inner ++ ')' :: (h.closing.text ++ ':' :: h.rest)))))
  have hrest : Text.trimStart (h.closing.text ++ ':' :: h.rest) = ':' :: h.rest :=
    Header.trimStart_append h.closing.blank (Text.stops_cons.mpr rfl)
  unfold Header.class? ClassHeader.code
  simp only [hclass, hgap, hname, htrim, Header.group?_append hclosing, hrest, Option.bind_eq_bind,
    Option.bind_some, List.head?_cons, if_true]

theorem trimStart_function (h : FunctionHeader) : Text.trimStart h.line = h.code :=
  Header.trimStart_append h.indent.blank (stops_isBlank_code h)

theorem trimStart_class (h : ClassHeader) : Text.trimStart h.line = h.code :=
  Header.trimStart_append h.indent.blank (Text.stops_cons.mpr rfl)

/-- What the line of a function header opens. -/
theorem heading_function (h : FunctionHeader) (number : Nat) :
    Outline.heading number h.line =
      .ofFunction { h.record number with
        parameters := (recordedOf h.parameters).map String.ofList } := by
  unfold Outline.heading
  rw [trimStart_function, class?_function, function?_code]
  dsimp only
  rw [FunctionHeader.inner, parameters_listed]
  rfl

theorem FunctionHeader.Flat.heading {h : FunctionHeader} (hf : h.Flat) (number : Nat) :
    Outline.heading number h.line = .ofFunction (h.record number) := by
  rw [heading_function, recordedOf_flat hf.commas hf.closings, List.map_map]
  rfl

/-- What the line of a flat class header opens. -/
theorem ClassHeader.Flat.heading {h : ClassHeader} (hf : h.Flat) (number : Nat) :
    Outline.heading number h.line = .ofClass (h.record number) := by
  unfold Outline.heading
  rw [trimStart_class, class?_code h hf.closing_not_mem]
  simp [hf.bases_inner, ClassHeader.record]

theorem isSilent_function (h : FunctionHeader) : Outline.isSilent h.line = false := by
  rw [Outline.isSilent, trimStart_function]
  unfold FunctionHeader.code
  cases h.async? with
  | none => rfl
  | some gap => rfl

theorem isSilent_class (h : ClassHeader) : Outline.isSilent h.line = false := by
  rw [Outline.isSilent, trimStart_class]
  rfl

end Headings

/-! ## Two shapes of headers -/

/-- No white space. -/
def noBlanks : Blanks := ⟨[], by simp⟩

/-- One blank. -/
def oneBlank : Gap := ⟨⟨[' '], List.all_eq_true.mp rfl⟩, by decide⟩

/-- The expression of a text behind white space. -/
def Spaced.ofText (before : Blanks) (text : String)
    (h : text.toList ≠ [] ∧ Tight isBlank text.toList ∧ isBalanced [] text.toList = true ∧
      (text.toList.all fun c => !isForeign c) = true) : Spaced where
  before := before
  expression := ⟨text.toList, h.1, h.2.1, h.2.2.1, fun c hc => by
    simpa using List.all_eq_true.mp h.2.2.2 c hc⟩
  after := noBlanks

/-- A name of one character. -/
def nameOf (c : Char) (h : isNameChar c = true) : Word where
  text := [c]
  nonempty := List.cons_ne_nil _ _
  chars := fun d hd => by rwa [List.mem_singleton.mp hd]

/-- The parameters `a: hint, *b, c=default`. -/
def threeParameters (hint default : Spaced) : List Parameter :=
  [{ before := noBlanks, stars := 0, name := nameOf 'a' rfl, after := noBlanks
     hint? := some hint, default? := none },
   { before := oneBlank.toBlanks, stars := 1, name := nameOf 'b' rfl, after := noBlanks
     hint? := none, default? := none },
   { before := oneBlank.toBlanks, stars := 0, name := nameOf 'c' rfl, after := noBlanks
     hint? := none, default? := some default }]

/-- The header `def f(a: hint, *b, c=default):`. -/
def functionOf (hint default : Spaced) : FunctionHeader where
  indent := noBlanks
  async? := none
  gap := oneBlank
  name := ⟨'f', [], rfl, List.forall_mem_nil _⟩
  after := noBlanks
  parameters := threeParameters hint default
  last? := none
  rest := [':']

/-- The header `class C(B, base):`. -/
def classOf (base : Spaced) : ClassHeader where
  indent := noBlanks
  gap := oneBlank
  name := ⟨'C', [], rfl, List.forall_mem_nil _⟩
  after := noBlanks
  bases := [Spaced.ofText noBlanks "B" (by decide), base]
  last? := none
  closing := noBlanks
  rest := []

/-! ## Records -/

/-- Where a statement may start, a flat header on one line is recorded with exactly the names of its
parameters and exactly its bases, in order. -/
theorem outline_step_signature {s : Outline.State} (hs : s.lexical.atStatementStart = true)
    (number : Nat) :
    (∀ h : FunctionHeader, h.Flat →
      (Outline.step s true number h.line).outline =
        Outline.addFunction s.outline (Outline.opened s h.line) (h.record number)) ∧
      ∀ h : ClassHeader, h.Flat →
        (Outline.step s true number h.line).outline =
          Outline.addClass s.outline (h.record number) := by
  constructor
  · intro h hf
    have hstatement : Outline.isStatement s h.line = true := by
      rw [Outline.isStatement, hs, isSilent_function]
      rfl
    rw [Outline.step_of_isStatement hstatement, Outline.statement_eq, hf.heading]
    rfl
  · intro h hf
    have hstatement : Outline.isStatement s h.line = true := by
      rw [Outline.isStatement, hs, isSilent_class]
      rfl
    rw [Outline.step_of_isStatement hstatement, Outline.statement_eq, hf.heading]
    rfl

/-- The header `def f(a: list[int], *b, c=[(), 1]):` and the header `class C(B, M[T]):` are flat. -/
theorem outline_step_signature_flat :
    let s : Outline.State := { outline := { module := .empty ⟨"a.py"⟩ } }
    let function := functionOf (.ofText oneBlank.toBlanks "list[int]" (by decide))
      (.ofText noBlanks "[(), 1]" (by decide))
    let owner := classOf (.ofText oneBlank.toBlanks "M[T]" (by decide))
    s.lexical.atStatementStart = true ∧ function.Flat ∧ owner.Flat ∧
      function.line = "def f(a: list[int], *b, c=[(), 1]):".toList ∧
      owner.line = "class C(B, M[T]):".toList ∧
      (Outline.step s true 1 function.line).outline =
        Outline.addFunction s.outline (Outline.opened s function.line) (function.record 1) ∧
      (Outline.step s true 1 owner.line).outline = Outline.addClass s.outline (owner.record 1) := by
  intro s function owner
  have hs : s.lexical.atStatementStart = true := rfl
  have hfunction : function.Flat := ⟨by decide, by decide⟩
  have howner : owner.Flat := ⟨by decide, by decide⟩
  exact ⟨hs, hfunction, howner, by decide, by decide,
    (outline_step_signature hs 1).1 function hfunction,
    (outline_step_signature hs 1).2 owner howner⟩

/-- A comma inside of brackets cuts an annotation and a base. A closing parenthesis inside of brackets
ends the list: the parameters after it are not recorded, and a class with such a base is none. A
header whose name starts with a letter beyond ASCII is not recognized. -/
theorem nested_signature_recorded :
    let s : Outline.State := { outline := { module := .empty ⟨"a.py"⟩ } }
    let function (hint : Spaced) := functionOf hint (.ofText noBlanks "1" (by decide))
    let pair := function (.ofText oneBlank.toBlanks "dict[str, int]" (by decide))
    let unit := function (.ofText oneBlank.toBlanks "tuple[()]" (by decide))
    let table := classOf (.ofText oneBlank.toBlanks "M[K, V]" (by decide))
    let made := classOf (.ofText oneBlank.toBlanks "make(T)" (by decide))
    let parameters (h : FunctionHeader) :=
      (Outline.step s true 1 h.line).outline.module.functions.map FunctionDef.parameters
    let bases (h : ClassHeader) :=
      (Outline.step s true 1 h.line).outline.module.classes.map ClassDef.bases
    (pair.line = "def f(a: dict[str, int], *b, c=1):".toList ∧
        (pair.record 1).parameters = ["a", "*b", "c"] ∧
        parameters pair = [["a", "int]", "*b", "c"]]) ∧
      (unit.line = "def f(a: tuple[()], *b, c=1):".toList ∧
        (unit.record 1).parameters = ["a", "*b", "c"] ∧ parameters unit = [["a"]]) ∧
      (table.line = "class C(B, M[K, V]):".toList ∧
        (table.record 1).bases = ["B", "M[K, V]"] ∧ bases table = [["B", "M[K", "V]"]]) ∧
      (made.line = "class C(B, make(T)):".toList ∧
        (made.record 1).bases = ["B", "make(T)"] ∧ bases made = []) ∧
      (Outline.step s true 1 "def é(a):".toList).outline.module.functions = [] := by
  decide +kernel

end Grammar
end SourceSurvey
