import SourceSurvey.Proofs.Grammar.Signature
import SourceSurvey.Proofs.Grammar.Source
import SourceSurvey.Proofs.Lexical.Plain

/-!
# Words and lines of the small grammar

What the readers need of the words of a `Grammar.Source`: which characters they hold, that none of
them is reserved, and that they are names, expressions and pieces of lists as the headers of
`Grammar.FunctionHeader` and `Grammar.ClassHeader` have them.

* `Grammar.listed_spread`: a series of words is a list of pieces with commas between them.
* `Grammar.importedNames_series`, `Grammar.nameAndAlias_as`: the names of imports are read back.
* `Grammar.IsStatement`: a line of words leaves nothing open.
* `Grammar.Filler.silent`: a filler starts no statement and leaves nothing open.
-/

namespace SourceSurvey
namespace Grammar

open Text (isBlank isWordChar isNameStart Stops Tight)

/-! ## Characters -/

section Characters

variable {c : Char}

/-- The characters of statements. -/
def isCodeChar (c : Char) : Bool :=
  isIdentifierChar c || [' ', '\t', '.', ',', ':', '=', '(', ')'].contains c

/-- The characters of names with dots. -/
def isDottedChar (c : Char) : Bool := isIdentifierChar c || c == '.'

/-- Lean's letters and digits are those of ASCII. -/
theorem toNat_lt_of_isAlphanum (h : c.isAlphanum = true) : c.toNat < 128 := by
  have hbound {d : Char} (hd : d.toNat < 128) (hle : c.val ≤ d.val) : c.toNat < 128 :=
    Nat.lt_of_le_of_lt (UInt32.le_iff_toNat_le.mp hle) hd
  rcases Bool.or_eq_true_iff.mp h with h | hdigit
  · rcases Bool.or_eq_true_iff.mp h with hupper | hlower
    · have hle : c.val ≤ 'Z'.val := (of_decide_eq_true hupper).2
      exact hbound (by decide) hle
    · have hle : c.val ≤ 'z'.val := of_decide_eq_true (Bool.and_eq_true_iff.mp hlower).2
      exact hbound (by decide) hle
  · have hle : c.val ≤ '9'.val := of_decide_eq_true (Bool.and_eq_true_iff.mp hdigit).2
    exact hbound (by decide) hle

theorem toNat_lt_of_isCodeChar (h : isCodeChar c = true) : c.toNat < 128 := by
  have hc : isIdentifierChar c = true ∨ c ∈ [' ', '\t', '.', ',', ':', '=', '(', ')'] := by
    simpa [isCodeChar] using h
  rcases hc with hc | hc
  · rcases Bool.or_eq_true_iff.mp hc with hc | hc
    · exact toNat_lt_of_isAlphanum hc
    · rw [beq_iff_eq.mp hc]
      decide
  · have hall : ∀ n ∈ [' ', '\t', '.', ',', ':', '=', '(', ')'].map Char.toNat, n < 128 := by decide
    exact hall c.toNat (List.mem_map_of_mem hc)

/-- What the characters of one kind have in common, checked for all of ASCII. -/
theorem forall_ascii {k p : Char → Bool}
    (hall : ∀ n < 128, (!k (Char.ofNat n) || p (Char.ofNat n)) = true) (hc : c.toNat < 128)
    (h : k c = true) : p c = true := by
  have hp := hall c.toNat hc
  rwa [Char.ofNat_toNat, h, Bool.not_true, Bool.false_or] at hp

theorem forall_ascii_not {k p : Char → Bool}
    (hall : ∀ n < 128, (!k (Char.ofNat n) || !p (Char.ofNat n)) = true) (hc : c.toNat < 128)
    (h : k c = true) : p c = false := by
  simpa using forall_ascii (p := (!p ·)) hall hc h

theorem isCodeChar_of_isDottedChar (h : isDottedChar c = true) : isCodeChar c = true := by
  rcases Bool.or_eq_true_iff.mp h with h | h
  · rw [isCodeChar, h, Bool.true_or]
  · rw [beq_iff_eq] at h
    subst h
    rfl

theorem isDottedChar_of_isIdentifierChar (h : isIdentifierChar c = true) : isDottedChar c = true := by
  rw [isDottedChar, h, Bool.true_or]

theorem isIdentifierChar_of_isNameStart (h : isNameStart c = true) : isIdentifierChar c = true := by
  rw [isIdentifierChar, Char.isAlphanum]
  rcases Bool.or_eq_true_iff.mp h with h | h
  · rw [h]
    rfl
  · rw [h, Bool.or_true]

theorem toNat_lt_of_isDottedChar (h : isDottedChar c = true) : c.toNat < 128 :=
  toNat_lt_of_isCodeChar (isCodeChar_of_isDottedChar h)

theorem toNat_lt_of_isIdentifierChar (h : isIdentifierChar c = true) : c.toNat < 128 :=
  toNat_lt_of_isDottedChar (isDottedChar_of_isIdentifierChar h)

/-- The characters of identifiers are those of words and of names. -/
theorem identifierChar_spec (h : isIdentifierChar c = true) :
    isWordChar c = true ∧ isNameChar c = true :=
  Bool.and_eq_true_iff.mp (forall_ascii (p := fun c => isWordChar c && isNameChar c)
    (by decide +kernel) (toNat_lt_of_isIdentifierChar h) h)

theorem isWordChar_of_isIdentifierChar (h : isIdentifierChar c = true) : isWordChar c = true :=
  (identifierChar_spec h).1

theorem isNameChar_of_isIdentifierChar (h : isIdentifierChar c = true) : isNameChar c = true :=
  (identifierChar_spec h).2

/-- The characters of names with dots have no other meaning. -/
theorem dottedChar_spec (h : isDottedChar c = true) :
    isBlank c = false ∧ Header.isParenthesis c = false ∧ isClosing c = false ∧
      (closing? c).isSome = false ∧ isForeign c = false := by
  have hany := forall_ascii_not (p := fun c => isBlank c || (Header.isParenthesis c ||
    (isClosing c || ((closing? c).isSome || isForeign c)))) (by decide +kernel)
    (toNat_lt_of_isDottedChar h) h
  simpa only [Bool.or_eq_false_iff] using hany

theorem isBlank_of_isDottedChar (h : isDottedChar c = true) : isBlank c = false :=
  (dottedChar_spec h).1

theorem isParenthesis_of_isDottedChar (h : isDottedChar c = true) : Header.isParenthesis c = false :=
  (dottedChar_spec h).2.1

theorem isClosing_of_isDottedChar (h : isDottedChar c = true) : isClosing c = false :=
  (dottedChar_spec h).2.2.1

theorem closing?_of_isDottedChar (h : isDottedChar c = true) : closing? c = none := by
  simpa using (dottedChar_spec h).2.2.2.1

theorem isForeign_of_isDottedChar (h : isDottedChar c = true) : isForeign c = false :=
  (dottedChar_spec h).2.2.2.2

theorem ne_of_isDottedChar {d : Char} (h : isDottedChar c = true) (hd : isDottedChar d = false) :
    c ≠ d := by
  rintro rfl
  rw [hd] at h
  exact nomatch h

/-- The characters of statements end no line. -/
theorem ne_lineEnd_of_isCodeChar (h : isCodeChar c = true) : c ≠ '\n' ∧ c ≠ '\r' := by
  constructor
  · rintro rfl
    exact nomatch h
  · rintro rfl
    exact nomatch h

/-- Parentheses are the only characters of statements with a meaning to the scanner. -/
theorem isMark_of_isCodeChar (h : isCodeChar c = true) (hp : Header.isParenthesis c = false) :
    Lexical.isMark c = false :=
  forall_ascii_not (k := fun c => isCodeChar c && !Header.isParenthesis c) (by decide +kernel)
    (toNat_lt_of_isCodeChar h) (by rw [h, hp]; rfl)

end Characters

/-! ## Words -/

namespace Identifier

theorem chars (i : Identifier) : ∀ c ∈ i.text, isIdentifierChar c = true :=
  List.forall_mem_cons.mpr ⟨isIdentifierChar_of_isNameStart i.starts, i.continues⟩

/-- An identifier as the name of a function or a class. -/
def toName (i : Identifier) : Name where
  first := i.first
  rest := i.rest
  starts := i.starts
  continues := fun c hc => isWordChar_of_isIdentifierChar (i.continues c hc)

/-- An identifier as the name of a parameter. -/
def toWord (i : Identifier) : Word where
  text := i.text
  nonempty := List.cons_ne_nil _ _
  chars := fun c hc => isNameChar_of_isIdentifierChar (i.chars c hc)

theorem dotted_chars (i : Identifier) : ∀ c ∈ i.text, isDottedChar c = true :=
  fun c hc => isDottedChar_of_isIdentifierChar (i.chars c hc)

/-- An identifier is no reserved word. -/
theorem ne_keyword (i : Identifier) {word : String} (h : word ∈ keywords) : i.text ≠ word.toList := by
  intro he
  have hstring : String.ofList i.text = word := by rw [he, String.ofList_toList]
  exact i.free (hstring ▸ h)

end Identifier

theorem chars_dotted (parts : List Identifier) : ∀ c ∈ dotted parts, isDottedChar c = true := by
  refine Text.forall_mem_intercalate (List.all_eq_true.mp rfl) fun piece hpiece => ?_
  obtain ⟨i, -, rfl⟩ := List.mem_map.mp hpiece
  exact i.dotted_chars

theorem dotted_ne_nil {parts : List Identifier} (h : parts ≠ []) : dotted parts ≠ [] := by
  obtain ⟨i, rest, rfl⟩ := List.exists_cons_of_ne_nil h
  intro hnil
  have hfirst : i.first ∈ dotted (i :: rest) :=
    Text.mem_intercalate (List.mem_map_of_mem List.mem_cons_self) List.mem_cons_self
  rw [hnil] at hfirst
  exact nomatch hfirst

theorem ModuleName.chars (m : ModuleName) : ∀ c ∈ m.text, isDottedChar c = true := by
  intro c hc
  rcases List.mem_append.mp hc with hc | hc
  · rw [List.eq_of_mem_replicate hc]
    rfl
  · exact chars_dotted m.parts c hc

theorem ModuleName.text_ne_nil (m : ModuleName) : m.text ≠ [] := by
  rcases m.nonempty with h | h
  · exact List.append_ne_nil_of_left_ne_nil (by simpa [List.replicate_eq_nil_iff] using h) _
  · exact List.append_ne_nil_of_right_ne_nil _ (dotted_ne_nil h)

theorem tight_of_isDottedChar {cs : List Char} (h : ∀ c ∈ cs, isDottedChar c = true) :
    Tight isBlank cs :=
  Text.tight_of_forall fun c hc => isBlank_of_isDottedChar (h c hc)

/-- A text without brackets and commas is balanced. -/
theorem isBalanced_of_isDottedChar {cs : List Char} (h : ∀ c ∈ cs, isDottedChar c = true) :
    isBalanced [] cs = true := by
  induction cs with
  | nil => rfl
  | cons c cs ih =>
    obtain ⟨hc, hcs⟩ := List.forall_mem_cons.mp h
    have hcomma : c ≠ ',' := ne_of_isDottedChar hc rfl
    rw [isBalanced, closing?_of_isDottedChar hc]
    simp [isClosing_of_isDottedChar hc, hcomma, ih hcs]

/-- The name of a base as an expression. -/
def Dotted.toExpression (d : Dotted) : Expression where
  text := d.text
  nonempty := dotted_ne_nil d.nonempty
  tight := tight_of_isDottedChar (chars_dotted d.parts)
  balanced := isBalanced_of_isDottedChar (chars_dotted d.parts)
  plain := fun c hc => isForeign_of_isDottedChar (chars_dotted d.parts c hc)

/-! ## Plain texts -/

/-- A text of the characters of statements without parentheses. -/
def IsPlain (cs : List Char) : Prop :=
  ∀ c ∈ cs, isCodeChar c = true ∧ Header.isParenthesis c = false

/-- A text whose characters are checked one by one. -/
theorem isPlain_of_all {cs : List Char}
    (h : (cs.all fun c => isCodeChar c && !Header.isParenthesis c) = true) : IsPlain cs :=
  fun c hc => by simpa using List.all_eq_true.mp h c hc

theorem isPlain_append {cs ds : List Char} : IsPlain (cs ++ ds) ↔ IsPlain cs ∧ IsPlain ds :=
  List.forall_mem_append

theorem isPlain_of_isDottedChar {cs : List Char} (h : ∀ c ∈ cs, isDottedChar c = true) : IsPlain cs :=
  fun c hc => ⟨isCodeChar_of_isDottedChar (h c hc), isParenthesis_of_isDottedChar (h c hc)⟩

theorem Identifier.plain (i : Identifier) : IsPlain i.text := isPlain_of_isDottedChar i.dotted_chars

theorem Digits.plain (d : Digits) : IsPlain d.text := by
  refine isPlain_of_isDottedChar fun c hc => isDottedChar_of_isIdentifierChar ?_
  rw [isIdentifierChar, Char.isAlphanum, d.digits c hc, Bool.or_true, Bool.true_or]

/-! ## Series -/

/-- A series of words is a list with commas, with a blank in front of all words but the first. -/
theorem series_cons (word : List Char) (words : List (List Char)) :
    series (word :: words) = [','].intercalate (word :: words.map (' ' :: ·)) := by
  induction words generalizing word with
  | nil => rfl
  | cons next words ih =>
    have hblank (word : List Char) (rest : List (List Char)) :
        [','].intercalate ((' ' :: word) :: rest) = ' ' :: [','].intercalate (word :: rest) := by
      cases rest with
      | nil => rfl
      | cons _ _ => rfl
    have hseries : series (word :: next :: words) = word ++ ',' :: ' ' :: series (next :: words) := by
      rw [series, List.intercalate_cons_of_ne_nil (List.cons_ne_nil _ _), List.append_assoc]
      rfl
    rw [hseries, ih, List.map_cons, List.intercalate_cons_of_ne_nil (List.cons_ne_nil _ _), hblank,
      List.append_assoc]
    rfl

/-- The members of a series: all but the first stand behind a blank. -/
def spread {α β : Type} (f : Blanks → α → β) : List α → List β
  | [] => []
  | first :: more => f noBlanks first :: more.map (f oneBlank.toBlanks)

section Spread

variable {α β γ : Type} {f : Blanks → α → β}

theorem map_spread {g : β → γ} {k : α → γ} (h : ∀ before a, g (f before a) = k a) (xs : List α) :
    (spread f xs).map g = xs.map k := by
  cases xs with
  | nil => rfl
  | cons first more =>
    rw [spread, List.map_cons, h, List.map_map, List.map_cons]
    exact congrArg _ (List.map_congr_left fun a _ => h _ a)

theorem forall_mem_spread {P : β → Prop} (h : ∀ before a, P (f before a)) {xs : List α} :
    ∀ b ∈ spread f xs, P b := by
  cases xs with
  | nil => exact List.forall_mem_nil _
  | cons first more =>
    refine List.forall_mem_cons.mpr ⟨h _ _, fun b hb => ?_⟩
    obtain ⟨a, -, rfl⟩ := List.mem_map.mp hb
    exact h _ a

/-- Members with commas between them are written as a series. -/
theorem listed_spread {text : β → List Char} {word : α → List Char}
    (h : ∀ before a, text (f before a) = before.text ++ word a) (xs : List α) :
    listed ((spread f xs).map text) none = series (xs.map word) := by
  cases xs with
  | nil => rfl
  | cons first more =>
    have hmore : (more.map (f oneBlank.toBlanks)).map text = (more.map word).map (' ' :: ·) := by
      rw [List.map_map, List.map_map]
      exact List.map_congr_left fun a _ => h _ a
    rw [spread, List.map_cons, hmore, h, List.map_cons, series_cons, listed]
    simp [noBlanks]

end Spread

theorem forall_mem_series {P : Char → Prop} {words : List (List Char)} (hcomma : P ',')
    (hblank : P ' ') (h : ∀ word ∈ words, ∀ c ∈ word, P c) : ∀ c ∈ series words, P c :=
  Text.forall_mem_intercalate (by
    intro c hc
    have hc : c = ',' ∨ c = ' ' := by simpa using hc
    rcases hc with rfl | rfl
    · exact hcomma
    · exact hblank) h

theorem series_plain {words : List (List Char)} (h : ∀ word ∈ words, IsPlain word) :
    IsPlain (series words) :=
  forall_mem_series (by decide) (by decide) h

/-- A series of tight words is tight. -/
theorem series_tight {p : Char → Bool} {words : List (List Char)} (hne : words ≠ [])
    (h : ∀ word ∈ words, word ≠ [] ∧ Tight p word) :
    series words ≠ [] ∧ Tight p (series words) := by
  induction words with
  | nil => exact absurd rfl hne
  | cons word words ih =>
    obtain ⟨⟨hword, htight⟩, hwords⟩ := List.forall_mem_cons.mp h
    by_cases hnil : words = []
    · rw [hnil, series, List.intercalate_singleton]
      exact ⟨hword, htight⟩
    · obtain ⟨hseries, hseriesTight⟩ := ih hnil hwords
      rw [series, List.intercalate_cons_of_ne_nil hnil, List.append_assoc]
      exact ⟨List.append_ne_nil_of_left_ne_nil hword _,
        htight.append hword hseriesTight hseries ", ".toList⟩

theorem Identifier.text_ne_nil (i : Identifier) : i.text ≠ [] := List.cons_ne_nil _ _

theorem Identifier.tight (i : Identifier) {p : Char → Bool}
    (hp : ∀ c, isDottedChar c = true → p c = false) : Tight p i.text :=
  Text.tight_of_forall fun c hc => hp c (i.dotted_chars c hc)

theorem identifiers_tight {p : Char → Bool} {names : List Identifier} (hne : names ≠ [])
    (hp : ∀ c, isDottedChar c = true → p c = false) :
    series (names.map Identifier.text) ≠ [] ∧ Tight p (series (names.map Identifier.text)) := by
  refine series_tight (by simpa using hne) fun word hword => ?_
  obtain ⟨i, -, rfl⟩ := List.mem_map.mp hword
  exact ⟨i.text_ne_nil, i.tight hp⟩

theorem identifiers_plain (names : List Identifier) :
    IsPlain (series (names.map Identifier.text)) := by
  refine series_plain fun word hword => ?_
  obtain ⟨i, -, rfl⟩ := List.mem_map.mp hword
  exact i.plain

/-! ## Imported names -/

/-- Names are no comments. -/
theorem beforeComment_eq_self {cs : List Char} (hplain : IsPlain cs) (htight : Tight isBlank cs) :
    Header.beforeComment cs = cs := by
  have hhash : '#' ∉ cs := fun h => nomatch (hplain '#' h).1
  rw [Header.beforeComment, List.takeWhile_eq_self_iff.mpr (Header.forall_ne_of_not_mem hhash)]
  exact Text.trimWhere_eq_self htight

/-- A name without an alias. -/
theorem nameAndAlias_alone {cs : List Char} (h : ∀ c ∈ cs, isDottedChar c = true) :
    Header.nameAndAlias cs = (cs, none) := by
  have hblank : ' ' ∉ cs := fun hmem => nomatch h ' ' hmem
  have hcut : Text.cutAt " as ".toList cs = none := Text.cutAt_of_not_mem hblank
  have htrim : Text.trim cs = cs := Text.trimWhere_eq_self (tight_of_isDottedChar h)
  simp only [Header.nameAndAlias, htrim, hcut]

/-- A name with an alias. -/
theorem nameAndAlias_as {cs : List Char} (h : ∀ c ∈ cs, isDottedChar c = true) (hne : cs ≠ [])
    (other : Identifier) :
    Header.nameAndAlias (cs ++ (" as ".toList ++ other.text)) = (cs, some other.text) := by
  have hblank : ' ' ∉ cs := fun hmem => nomatch h ' ' hmem
  have htight : Tight isBlank (cs ++ (" as ".toList ++ other.text)) :=
    (tight_of_isDottedChar h).append hne (tight_of_isDottedChar other.dotted_chars)
      other.text_ne_nil _
  have hcut : Text.cutAt " as ".toList (cs ++ (" as ".toList ++ other.text)) =
      some (cs, other.text) := Text.cutAt_append hblank other.text
  have htrim : Text.trim (cs ++ (" as ".toList ++ other.text)) =
      cs ++ (" as ".toList ++ other.text) := Text.trimWhere_eq_self htight
  have hname : Text.trim cs = cs := Text.trimWhere_eq_self (tight_of_isDottedChar h)
  have hother : Text.trim other.text = other.text :=
    Text.trimWhere_eq_self (tight_of_isDottedChar other.dotted_chars)
  simp only [Header.nameAndAlias, htrim, hcut, hname, hother]

/-- A name in a list, behind white space or not. -/
theorem nameAndAlias_piece {before : List Char} (hbefore : ∀ c ∈ before, isBlank c = true)
    (hparenthesis : ∀ c ∈ before, Header.isParenthesis c = false) (i : Identifier) :
    (Header.nameAndAlias (Text.trimWhere Header.isParenthesis (before ++ i.text))).1 = i.text := by
  have htight : Tight Header.isParenthesis (before ++ i.text) :=
    Text.tight_of_forall fun c hc => (List.mem_append.mp hc).elim (hparenthesis c)
      fun hc => isParenthesis_of_isDottedChar (i.dotted_chars c hc)
  have hblank : ' ' ∉ i.text := fun hmem => nomatch i.dotted_chars ' ' hmem
  have hcut : Text.cutAt " as ".toList i.text = none := Text.cutAt_of_not_mem hblank
  have htrim : Text.trim (before ++ i.text) = i.text := by
    have htrim := Text.trimWhere_append hbefore (tight_of_isDottedChar i.dotted_chars)
      (List.forall_mem_nil _)
    rwa [List.append_nil] at htrim
  rw [Text.trimWhere_eq_self htight]
  simp only [Header.nameAndAlias, htrim, hcut]

/-- The names of a from-import. -/
theorem importedNames_series {names : List Identifier} (hne : names ≠ []) :
    Header.importedNames (series (names.map Identifier.text)) = names.map Identifier.text := by
  obtain ⟨-, htight⟩ := identifiers_tight hne
    (p := fun c => Header.isParenthesis c || c == '\\' || isBlank c) fun c hc => by
      have hslash : c ≠ '\\' := ne_of_isDottedChar hc rfl
      simp [isParenthesis_of_isDottedChar hc, isBlank_of_isDottedChar hc, hslash]
  obtain ⟨first, more, rfl⟩ := List.exists_cons_of_ne_nil hne
  have hcomma : ∀ piece ∈ first.text :: more.map (fun i => ' ' :: i.text), ',' ∉ piece := by
    have hword (i : Identifier) : ',' ∉ i.text := fun hmem => nomatch i.dotted_chars ',' hmem
    refine List.forall_mem_cons.mpr ⟨hword first, fun piece hpiece hmem => ?_⟩
    obtain ⟨i, -, rfl⟩ := List.mem_map.mp hpiece
    exact hword i (List.mem_of_ne_of_mem (by decide) hmem)
  have hlist : series ((first :: more).map Identifier.text) =
      [','].intercalate (first.text :: more.map fun i => ' ' :: i.text) := by
    rw [List.map_cons, series_cons, List.map_map]
    rfl
  have hfirst := nameAndAlias_piece (List.forall_mem_nil _) (List.forall_mem_nil _) first
  have hblank : ∀ c ∈ [' '], isBlank c = true ∧ Header.isParenthesis c = false := fun c hc => by
    rw [List.mem_singleton.mp hc]
    exact ⟨rfl, rfl⟩
  have hmore : (more.map fun i => ' ' :: i.text).map
      (fun part => (Header.nameAndAlias (Text.trimWhere Header.isParenthesis part)).1) =
        more.map Identifier.text := by
    rw [List.map_map]
    exact List.map_congr_left fun i _ =>
      nameAndAlias_piece (fun c hc => (hblank c hc).1) (fun c hc => (hblank c hc).2) i
  have hkeep : ∀ word ∈ (first :: more).map Identifier.text, (!word.isEmpty) = true := by
    intro word hword
    obtain ⟨i, -, rfl⟩ := List.mem_map.mp hword
    rfl
  rw [Header.importedNames, Text.trimWhere_eq_self htight, hlist,
    Text.fields_intercalate ',' (List.cons_ne_nil _ _) hcomma, List.map_cons, hmore]
  rw [List.nil_append] at hfirst
  rw [hfirst, ← List.map_cons, List.filter_eq_self.mpr hkeep]

/-! ## Lines of code -/

section Lines

variable {line before inner rest cs : List Char}

/-- A line of the characters of statements that leaves nothing open. -/
structure IsStatement (line : List Char) : Prop where
  chars : ∀ c ∈ line, isCodeChar c = true
  closed : ({} : Lexical).advance line = {}

theorem IsPlain.not_isMark (h : IsPlain cs) : ∀ c ∈ cs, Lexical.isMark c = false :=
  fun c hc => isMark_of_isCodeChar (h c hc).1 (h c hc).2

theorem IsPlain.isStatement (h : IsPlain line) : IsStatement line where
  chars := fun c hc => (h c hc).1
  closed := Lexical.advance_plain rfl h.not_isMark

/-- Plain text with one pair of parentheses. -/
theorem isStatement_group (hbefore : IsPlain before) (hinner : IsPlain inner) (hrest : IsPlain rest) :
    IsStatement (before ++ '(' :: (inner ++ ')' :: rest)) where
  chars := by
    intro c hc
    simp only [List.mem_append, List.mem_cons] at hc
    rcases hc with hc | rfl | hc | rfl | hc
    · exact (hbefore c hc).1
    · rfl
    · exact (hinner c hc).1
    · rfl
    · exact (hrest c hc).1
  closed := Lexical.advance_group rfl (Int32.le_refl _) hbefore.not_isMark hinner.not_isMark hrest.not_isMark

/-- No line feed ends the line before its end. -/
theorem IsStatement.not_mem (h : IsStatement line) : '\n' ∉ line :=
  fun hmem => (ne_lineEnd_of_isCodeChar (h.chars _ hmem)).1 rfl

theorem IsStatement.dropReturn (h : IsStatement line) : Text.dropReturn line = line :=
  Text.dropReturn_eq_self fun hmem => (ne_lineEnd_of_isCodeChar (h.chars _ hmem)).2 rfl

end Lines

/-! ## Fillers -/

theorem isMark_of_isBlank {c : Char} (h : isBlank c = true) : Lexical.isMark c = false := by
  have hall : ∀ n ∈ Text.blankCodes, Lexical.isMark (Char.ofNat n) = false := by decide
  simpa using hall _ (Text.mem_blankCodes h)

theorem dropReturn_append_cons {c : Char} (hc : c ≠ '\r') (before after : List Char) :
    ∃ after', Text.dropReturn (before ++ c :: after) = before ++ c :: after' := by
  unfold Text.dropReturn
  split
  · rename_i hlast
    cases after with
    | nil =>
      rw [List.getLast?_concat, Option.some_inj] at hlast
      exact absurd hlast hc
    | cons d after => exact ⟨(d :: after).dropLast, by simp⟩
  · exact ⟨after, rfl⟩

/-- A line of a filler, as it is read, starts no statement and leaves nothing open. -/
theorem Filler.silent (f : Filler) :
    Outline.isSilent (Text.dropReturn f.text) = true ∧
      ({} : Lexical).advance (Text.dropReturn f.text) = {} := by
  have hblank : ∀ c ∈ f.blanks, isBlank c = true := fun c hc => (f.blank c hc).1
  have hmark : ∀ c ∈ f.blanks, Lexical.isMark c = false := fun c hc => isMark_of_isBlank (hblank c hc)
  unfold Filler.text
  cases f.comment? with
  | none =>
    have hsub : ∀ c ∈ Text.dropReturn f.blanks, c ∈ f.blanks := Text.dropReturn_subset _
    have htrim : Text.trimStart (Text.dropReturn f.blanks) = [] :=
      List.dropWhile_eq_nil_iff.mpr fun c hc => hblank c (hsub c hc)
    rw [Option.elim_none, List.append_nil]
    refine ⟨?_, Lexical.advance_plain rfl fun c hc => hmark c (hsub c hc)⟩
    rw [Outline.isSilent, htrim]
  | some comment =>
    obtain ⟨comment', hcomment⟩ := dropReturn_append_cons (c := '#') (by decide) f.blanks comment
    rw [Option.elim_some, hcomment]
    refine ⟨?_, Lexical.advance_comment rfl hmark comment'⟩
    rw [Outline.isSilent, Header.trimStart_append hblank (Text.stops_cons.mpr rfl)]
    rfl

/-- A filler stands on one line. -/
theorem Filler.not_mem (f : Filler) : '\n' ∉ f.text := by
  intro hmem
  rcases List.mem_append.mp hmem with hmem | hmem
  · exact (f.blank _ hmem).2 rfl
  · cases hcomment : f.comment? with
    | none =>
      rw [hcomment] at hmem
      exact nomatch hmem
    | some comment =>
      rw [hcomment, Option.elim_some, List.mem_cons] at hmem
      exact f.comment comment hcomment (hmem.resolve_left (by decide))

end Grammar
end SourceSurvey
