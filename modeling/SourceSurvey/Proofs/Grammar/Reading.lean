import Mathlib.Data.List.TakeWhile
import SourceSurvey.Outline.Header
import SourceSurvey.Proofs.Text

/-!
# Reading what was written

What the readers of header lines answer on words, gaps and names that stand one after the other.
A reader takes the longest run of characters of its kind, so a run has to stop where it ends
(`Text.Stops`).

* `Text.trimWhere_append`: trimming gives back what stands between two runs.
* `Header.word?_append`, `Header.gap?_append`, `Header.name?_append`, `Header.group?_append`: each
  reader takes the piece that it is for and leaves the rest.
* `Header.word?_bind_of_ne`: a word is not read from a text that starts with another word.
* `Header.parameters_append`: the parameters of a text are those before a comma and those after it.
-/

namespace SourceSurvey

namespace Text

/-! ## Runs of characters -/

/-- A text does not go on with a character of some kind. -/
def Stops (p : Char → Bool) (rest : List Char) : Prop := ∀ c ∈ rest.head?, p c = false

variable {p : Char → Bool} {run rest before after cs : List Char} {c : Char}

@[simp] theorem stops_nil (p : Char → Bool) : Stops p [] := fun _ h => nomatch h

@[simp] theorem stops_cons : Stops p (c :: rest) ↔ p c = false := by simp [Stops]

theorem takeWhile_append_run (hrun : ∀ c ∈ run, p c = true) (hrest : Stops p rest) :
    (run ++ rest).takeWhile p = run := by
  rw [List.takeWhile_append_of_pos hrun]
  cases rest with
  | nil => exact List.append_nil run
  | cons c rest =>
    rw [stops_cons] at hrest
    rw [List.takeWhile_cons_of_neg (by simp [hrest]), List.append_nil]

theorem dropWhile_append_run (hrun : ∀ c ∈ run, p c = true) (hrest : Stops p rest) :
    (run ++ rest).dropWhile p = rest := by
  rw [List.dropWhile_append_of_pos hrun]
  cases rest with
  | nil => rfl
  | cons c rest =>
    rw [stops_cons] at hrest
    rw [List.dropWhile_cons_of_neg (by simp [hrest])]

/-- A text that neither starts nor ends with a character of some kind. -/
structure Tight (p : Char → Bool) (cs : List Char) : Prop where
  first : Stops p cs
  last : Stops p cs.reverse

instance (p : Char → Bool) (rest : List Char) : Decidable (Stops p rest) :=
  match rest with
  | [] => isTrue (stops_nil p)
  | _ :: _ => decidable_of_iff _ stops_cons.symm

instance (p : Char → Bool) (cs : List Char) : Decidable (Tight p cs) :=
  decidable_of_iff (Stops p cs ∧ Stops p cs.reverse) ⟨fun h => ⟨h.1, h.2⟩, fun h => ⟨h.1, h.2⟩⟩

theorem tight_of_forall (h : ∀ c ∈ cs, p c = false) : Tight p cs where
  first := fun c hc => h c (List.mem_of_head? hc)
  last := fun c hc => h c (List.mem_reverse.mp (List.mem_of_head? hc))

/-- A text is tight if its first and its last part are. -/
theorem Tight.append {first last : List Char} (hfirst : Tight p first) (hne : first ≠ [])
    (hlast : Tight p last) (hne' : last ≠ []) (between : List Char) :
    Tight p (first ++ (between ++ last)) := by
  constructor
  · obtain ⟨c, first, rfl⟩ := List.exists_cons_of_ne_nil hne
    exact stops_cons.mpr (stops_cons.mp hfirst.first)
  · obtain ⟨c, last, hreverse⟩ := List.exists_cons_of_ne_nil (List.reverse_ne_nil_iff.mpr hne')
    have hstops := hlast.last
    rw [hreverse, stops_cons] at hstops
    rw [List.reverse_append, List.reverse_append, hreverse, List.append_assoc]
    exact stops_cons.mpr hstops

theorem trimWhere_run (hrun : ∀ c ∈ run, p c = true) : trimWhere p run = [] := by
  rw [trimWhere, List.dropWhile_eq_nil_iff.mpr hrun]
  rfl

/-- What holds of the pieces and of what stands between them holds of all of it. -/
theorem forall_mem_intercalate {P : Char → Prop} {sep : List Char} {pieces : List (List Char)}
    (hsep : ∀ c ∈ sep, P c) (h : ∀ piece ∈ pieces, ∀ c ∈ piece, P c) :
    ∀ c ∈ sep.intercalate pieces, P c := by
  induction pieces with
  | nil => exact fun _ hc => nomatch hc
  | cons piece pieces ih =>
    obtain ⟨hpiece, hpieces⟩ := List.forall_mem_cons.mp h
    by_cases hnil : pieces = []
    · rwa [hnil, List.intercalate_singleton]
    · rw [List.intercalate_cons_of_ne_nil hnil]
      intro c hc
      rcases List.mem_append.mp hc with hc | hc
      · exact (List.mem_append.mp hc).elim (hpiece c) (hsep c)
      · exact ih hpieces c hc

/-- Trimming gives back what stands between two runs. -/
theorem trimWhere_append (hbefore : ∀ c ∈ before, p c = true) (hcs : Tight p cs)
    (hafter : ∀ c ∈ after, p c = true) : trimWhere p (before ++ cs ++ after) = cs := by
  by_cases hnil : cs = []
  · subst hnil
    refine trimWhere_run fun c hc => ?_
    rw [List.append_nil] at hc
    exact (List.mem_append.mp hc).elim (hbefore c) (hafter c)
  · have hfirst : Stops p (cs ++ after) := by
      obtain ⟨c, cs, rfl⟩ := List.exists_cons_of_ne_nil hnil
      exact stops_cons.mpr (stops_cons.mp hcs.first)
    have hreverse : ∀ c ∈ after.reverse, p c = true := fun c hc => hafter c (List.mem_reverse.mp hc)
    rw [trimWhere, trimEndWhere, List.append_assoc, dropWhile_append_run hbefore hfirst,
      List.reverse_append, dropWhile_append_run hreverse hcs.last, List.reverse_reverse]

theorem trimWhere_eq_self (hcs : Tight p cs) : trimWhere p cs = cs := by
  simpa using trimWhere_append (List.forall_mem_nil _) hcs (List.forall_mem_nil _)

/-! ## Cuts -/

theorem cutAt_of_not_mem {pattern : List Char} (h : c ∉ cs) : cutAt (c :: pattern) cs = none := by
  induction cs with
  | nil => rfl
  | cons d cs ih =>
    rw [List.mem_cons, not_or] at h
    have hprefix : (c :: pattern).isPrefixOf (d :: cs) = false := by
      simp [List.isPrefixOf, h.1]
    rw [cutAt, hprefix, ih h.2]
    rfl

/-- A text is cut at a pattern whose first character it does not hold before. -/
theorem cutAt_append {pattern : List Char} (h : c ∉ cs) (rest : List Char) :
    cutAt (c :: pattern) (cs ++ (c :: pattern ++ rest)) = some (cs, rest) := by
  induction cs with
  | nil =>
    have hprefix : (c :: pattern).isPrefixOf (c :: pattern ++ rest) = true :=
      List.isPrefixOf_iff_prefix.mpr (List.prefix_append _ _)
    rw [List.nil_append, List.cons_append, cutAt, ← List.cons_append, hprefix, if_pos rfl,
      List.drop_left]
  | cons d cs ih =>
    rw [List.mem_cons, not_or] at h
    have hprefix : (c :: pattern).isPrefixOf (d :: (cs ++ (c :: pattern ++ rest))) = false := by
      simp [List.isPrefixOf, h.1]
    rw [List.cons_append, cutAt, hprefix, ih h.2]
    rfl

/-! ## Kinds of characters -/

/-- The code points of white space. -/
def blankCodes : List Nat :=
  [0x9, 0xa, 0xb, 0xc, 0xd, 0x20, 0x85, 0xa0, 0x1680, 0x2000, 0x2001, 0x2002, 0x2003, 0x2004, 0x2005,
    0x2006, 0x2007, 0x2008, 0x2009, 0x200a, 0x2028, 0x2029, 0x202f, 0x205f, 0x3000]

theorem mem_blankCodes (h : isBlank c = true) : c.toNat ∈ blankCodes := by
  simp only [isBlank, Bool.or_eq_true, Bool.and_eq_true, decide_eq_true_eq, beq_iff_eq] at h
  simp only [blankCodes, List.mem_cons, List.not_mem_nil, or_false]
  omega

theorem inTable_eq (table : Array (Nat × Nat)) (n : Nat) :
    inTable table n = table.toList.any fun r => r.1 ≤ n && n ≤ r.2 :=
  Array.any_toList.symm

/-- White space is no part of a name. -/
theorem isWordChar_of_isBlank (h : isBlank c = true) : isWordChar c = false := by
  have hall : ∀ n ∈ blankCodes, isWordChar (Char.ofNat n) = false := by
    simp only [isWordChar, inTable_eq]
    decide +kernel
  simpa using hall _ (mem_blankCodes h)

theorem stops_isWordChar_append (hbefore : ∀ c ∈ before, isBlank c = true)
    (hrest : Stops isWordChar rest) : Stops isWordChar (before ++ rest) := by
  cases before with
  | nil => exact hrest
  | cons c before => exact stops_cons.mpr (isWordChar_of_isBlank (hbefore c List.mem_cons_self))

end Text

namespace Header

open Text (isBlank isWordChar isNameStart Stops fields trim)

variable {xs ys rest gap name inner : List Char} {c first : Char}

/-! ## Words, gaps and names -/

theorem word?_append (word : String) (rest : List Char) :
    word? word (word.toList ++ rest) = some rest := by
  have hlength : word.length = word.toList.length := rfl
  rw [word?, if_pos (List.isPrefixOf_iff_prefix.mpr (List.prefix_append _ _)), hlength,
    List.drop_left]

/-- A text that starts with another character does not start with the word. -/
theorem word?_cons_ne {word : String} (h : word.toList.head? ≠ some c) (hne : word.toList ≠ [])
    (rest : List Char) : word? word (c :: rest) = none := by
  refine if_neg fun hprefix => ?_
  obtain ⟨d, ds, hword⟩ := List.exists_cons_of_ne_nil hne
  rw [hword, List.isPrefixOf_iff_prefix, List.cons_prefix_cons] at hprefix
  rw [hword, List.head?_cons, hprefix.1] at h
  exact h rfl

theorem trimStart_append (hgap : ∀ c ∈ gap, isBlank c = true) (hrest : Stops isBlank rest) :
    Text.trimStart (gap ++ rest) = rest :=
  Text.dropWhile_append_run hgap hrest

theorem gap?_append (hgap : ∀ c ∈ gap, isBlank c = true) (hne : gap ≠ [])
    (hrest : Stops isBlank rest) : gap? (gap ++ rest) = some rest := by
  obtain ⟨c, gap, rfl⟩ := List.exists_cons_of_ne_nil hne
  have hblank : isBlank c = true := hgap c List.mem_cons_self
  rw [List.cons_append, gap?, if_pos hblank, ← List.cons_append, trimStart_append hgap hrest]

theorem name?_append (hfirst : isNameStart first = true) (hname : ∀ c ∈ name, isWordChar c = true)
    (hrest : Stops isWordChar rest) :
    name? (first :: name ++ rest) = some (first :: name, rest) := by
  rw [List.cons_append, name?, if_pos hfirst, Text.takeWhile_append_run hname hrest,
    Text.dropWhile_append_run hname hrest]

theorem forall_ne_of_not_mem (h : c ∉ xs) : ∀ d ∈ xs, (d != c) = true := by
  intro d hd
  rw [bne_iff_ne]
  rintro rfl
  exact h hd

theorem group?_append (hinner : ')' ∉ inner) (rest : List Char) :
    group? ('(' :: (inner ++ ')' :: rest)) = some (inner, rest) := by
  have hrun := forall_ne_of_not_mem hinner
  have hstop : Stops (· != ')') (')' :: rest) := Text.stops_cons.mpr rfl
  simp only [group?]
  rw [Text.dropWhile_append_run hrun hstop, Text.takeWhile_append_run hrun hstop]

/-! ## Other words -/

theorem gap?_of_stops {cs : List Char} (h : Stops isBlank cs) : gap? cs = none := by
  cases cs with
  | nil => rfl
  | cons c cs =>
    rw [Text.stops_cons] at h
    rw [gap?, h]
    rfl

theorem remainder?_of_stops {cs : List Char} (h : Stops isBlank cs) : remainder? cs = none := by
  have hgap : cs.takeWhile isBlank = [] := by
    cases cs with
    | nil => rfl
    | cons c cs => exact List.takeWhile_cons_of_neg (by simpa using h)
  rw [remainder?, hgap]
  rfl

/-- The rest of a line behind a gap. -/
theorem remainder?_append (hgap : ∀ c ∈ gap, isBlank c = true) (hne : gap ≠ []) (hrest : rest ≠ [])
    (hstop : Stops isBlank rest) (hfeed : '\n' ∉ rest) : remainder? (gap ++ rest) = some rest := by
  rw [remainder?, Text.takeWhile_append_run hgap hstop, Text.dropWhile_append_run hgap hstop]
  simp [hne, hrest, hfeed]

/-- A text that starts with another word is not read as a word with white space behind it: the word
may only be part of the other one. -/
theorem word?_bind_of_ne {α : Type} {word : String} {f : List Char → Option α}
    (hf : ∀ cs, Stops isBlank cs → f cs = none) (hword : ∀ c ∈ word.toList, isWordChar c = true)
    (hname : ∀ c ∈ name, isWordChar c = true) (hne : name ≠ word.toList)
    (hrest : Stops isWordChar rest) : (word? word (name ++ rest)).bind f = none := by
  unfold word?
  split
  · rename_i hprefix
    obtain ⟨behind, hbehind⟩ := List.isPrefixOf_iff_prefix.mp hprefix
    have hlength : word.length = word.toList.length := rfl
    rw [← hbehind, hlength, List.drop_left, Option.bind_some]
    rcases List.append_eq_append_iff.mp hbehind with ⟨more, rfl, rfl⟩ | ⟨more, hmore, rfl⟩
    · cases more with
      | nil => exact absurd (List.append_nil _) hne
      | cons c more =>
        refine hf _ (Text.stops_cons.mpr ?_)
        by_contra hblank
        rw [Bool.not_eq_false] at hblank
        have hc := hname c (List.mem_append_right _ List.mem_cons_self)
        rw [Text.isWordChar_of_isBlank hblank] at hc
        exact nomatch hc
    · cases more with
      | nil => exact absurd (by rw [hmore, List.append_nil]) hne
      | cons c more =>
        have hc := hword c (by rw [hmore]; exact List.mem_append_right _ List.mem_cons_self)
        rw [List.cons_append, Text.stops_cons] at hrest
        rw [hrest] at hc
        exact nomatch hc
  · rfl

theorem class?_eq_none {code : List Char} (h : (word? "class" code).bind gap? = none) :
    class? code = none := by
  unfold class?
  cases hw : word? "class" code with
  | none => rfl
  | some cs =>
    rw [hw, Option.bind_some] at h
    simp [h]

theorem function?_eq_none {code : List Char} (hasync : (word? "async" code).bind gap? = none)
    (hdef : (word? "def" code).bind gap? = none) : function? code = none := by
  unfold function?
  rw [hasync]
  cases hw : word? "def" code with
  | none => simp [hw]
  | some cs =>
    rw [hw, Option.bind_some] at hdef
    simp [hw, hdef]

theorem fromImport?_eq_none {code : List Char} (h : (word? "from" code).bind gap? = none) :
    fromImport? code = none := by
  unfold fromImport?
  cases hw : word? "from" code with
  | none => rfl
  | some cs =>
    rw [hw, Option.bind_some] at h
    simp [h]

/-- The module and the names of a from-import. -/
theorem fromImport?_append {source names : List Char} (hsource : ∀ c ∈ source, isBlank c = false)
    (hne : source ≠ []) (hnames : names ≠ []) (hstop : Stops isBlank names) (hfeed : '\n' ∉ names) :
    fromImport? ("from".toList ++ (' ' :: (source ++ (' ' :: ("import".toList ++ (' ' :: names)))))) =
      some (source, names) := by
  have hblank : ∀ c ∈ [' '], isBlank c = true := List.all_eq_true.mp rfl
  have hsourceStops : Stops isBlank (source ++ (' ' :: ("import".toList ++ (' ' :: names)))) := by
    obtain ⟨c, source, rfl⟩ := List.exists_cons_of_ne_nil hne
    exact Text.stops_cons.mpr (hsource c List.mem_cons_self)
  have hgap := gap?_append hblank (by simp) hsourceStops
  have hrun : ∀ c ∈ source, (!isBlank c) = true := fun c hc => by rw [hsource c hc, Bool.not_false]
  have hstops : Stops (!isBlank ·) (' ' :: ("import".toList ++ (' ' :: names))) :=
    Text.stops_cons.mpr rfl
  have himport : Stops isBlank ("import".toList ++ (' ' :: names)) := Text.stops_cons.mpr rfl
  have hgap' := gap?_append hblank (by simp) himport
  have hremainder := remainder?_append hblank (by simp) hnames hstop hfeed
  rw [List.singleton_append] at hgap hgap' hremainder
  have hempty : source.isEmpty = false := by simpa using hne
  unfold fromImport?
  simp only [word?_append, Option.bind_eq_bind, Option.bind_some, hgap,
    Text.takeWhile_append_run hrun hstops, Text.dropWhile_append_run hrun hstops, hempty,
    Bool.false_eq_true, if_false, hgap', hremainder]
  rfl

/-! ## Lists -/

/-- The parameters of a text are those before a comma and those after it. -/
theorem parameters_append (xs ys : List Char) :
    parameters (xs ++ ',' :: ys) = parameters xs ++ parameters ys := by
  rw [parameters, Text.fields_append (by rfl), List.map_append, List.filter_append]
  rfl

@[simp] theorem parameters_nil : parameters [] = [] := rfl

/-- White space between commas holds no parameter. -/
theorem parameters_blanks (h : ∀ c ∈ gap, isBlank c = true) : parameters gap = [] := by
  have hcomma : ',' ∉ gap := fun hmem => nomatch h _ hmem
  have hrun : gap.takeWhile (fun c => c != ':' && c != '=') = gap :=
    List.takeWhile_eq_self_iff.mpr fun c hc => by
      have hc := h c hc
      have hcolon : c ≠ ':' := by rintro rfl; exact nomatch hc
      have hequals : c ≠ '=' := by rintro rfl; exact nomatch hc
      simp [hcolon, hequals]
  rw [parameters, Text.fields_of_not_mem hcomma, List.map_singleton, hrun, trim, Text.trimWhere_run h]
  rfl

/-- Whether a piece of a list of bases is recorded. -/
def isBase (base : List Char) : Bool := !base.isEmpty && !base.contains '='

/-- The bases of pieces with commas between them. -/
theorem bases_intercalate {pieces : List (List Char)} (h : ∀ piece ∈ pieces, ',' ∉ piece) :
    bases ([','].intercalate pieces) = (pieces.map trim).filter isBase := by
  by_cases hnil : pieces = []
  · rw [hnil]
    rfl
  · rw [bases, Text.fields_intercalate ',' hnil h]
    rfl

end Header
end SourceSurvey
