import SourceSurvey.Proofs.Toml.Values

/-!
# Documents of TOML read back

`Toml.parse_document`: a document of sections is read back as the object of its sections, if their names
and keys need no quotes, none of them stands twice, and the values are such as are read back.

* `line?_header`, `line?_field`: what a line of a document does to what was read before it.
* `Goes`: reading goes from one state and text to another; `goes_section` is the step from one section
  to the next, `goes_sections` the run over all of them.
-/

namespace SourceSurvey
namespace Toml

open Json (Stops)

variable {c : Char} {cs rest text text' text'' : List Char} {key name : String} {j : Json}
  {s s' s'' : State} {fields : Fields} {fuel : Nat}

/-! ## Keys -/

/-- A name or key that needs no quotes. -/
def IsBare (key : String) : Prop := key.toList ≠ [] ∧ ∀ c ∈ key.toList, isKeyPart c = true

instance (key : String) : Decidable (IsBare key) :=
  decidable_of_iff (key.toList ≠ [] ∧ key.toList.all isKeyPart = true)
    (and_congr_right' List.all_eq_true)

theorem IsBare.head (h : IsBare key) : ∃ c cs, key.toList = c :: cs ∧ isKeyPart c = true := by
  obtain ⟨c, cs, hcs⟩ := List.exists_cons_of_ne_nil h.1
  exact ⟨c, cs, hcs, h.2 c (hcs ▸ List.mem_cons_self)⟩

theorem ne_of_isKeyPart {d : Char} (hc : isKeyPart c = true) (hd : isKeyPart d = false) : c ≠ d := by
  rintro rfl
  exact absurd hc (by rw [hd]; exact Bool.false_ne_true)

theorem starts_of_isKeyPart (hc : isKeyPart c = true) : Starts c :=
  ⟨ne_of_isKeyPart hc (by decide), ne_of_isKeyPart hc (by decide), ne_of_isKeyPart hc (by decide),
    ne_of_isKeyPart hc (by decide), ne_of_isKeyPart hc (by decide)⟩

theorem keyPart?_bare (h : IsBare key) (hrest : ∀ c ∈ rest.head?, isKeyPart c = false) :
    keyPart? (key.toList ++ rest) = some (key, rest) := by
  obtain ⟨c, cs, hcs, hc⟩ := h.head
  have htake := takeWhile_append h.2 hrest
  have hofList : String.ofList (c :: cs) = key := by rw [← hcs, String.ofList_toList]
  rw [hcs, List.cons_append] at htake ⊢
  rw [keyPart?]
  · rw [htake]
    simp [hofList]
  · exact fun _ heq => ne_of_isKeyPart hc (by decide) (List.cons.inj heq).1
  · exact fun _ heq => ne_of_isKeyPart hc (by decide) (List.cons.inj heq).1

/-- A bare key is read up to what stands behind it and the blanks there. -/
theorem key?_bare (fuel : Nat) {d : Char} {more : List Char} (h : IsBare key)
    (hrest : ∀ c ∈ rest.head?, isKeyPart c = false) (hmore : skipBlanks rest = d :: more)
    (hd : d ≠ '.') : key? (fuel + 1) (key.toList ++ rest) = some ([key], d :: more) := by
  obtain ⟨c, cs, hcs, hc⟩ := h.head
  have hstart : skipBlanks (key.toList ++ rest) = key.toList ++ rest := by
    have hstarts := starts_of_isKeyPart hc
    rw [hcs, List.cons_append, skipBlanks_cons ⟨hstarts.1, hstarts.2.1⟩]
  rw [key?, hstart, keyPart?_bare h hrest]
  simp only [Option.bind_eq_bind, Option.bind_some, hmore]
  split
  · exact absurd (List.cons.inj ‹_›).1 hd
  · rfl

/-! ## Lines -/

theorem endLine?_newline (cs : List Char) : endLine? ('\n' :: cs) = some cs := rfl

theorem line?_header (h : IsBare name) (rest : List Char) :
    line? s ('[' :: (name.toList ++ ']' :: '\n' :: rest)) =
      (openTable name s.fields).map fun fields => (⟨fields, [name]⟩, rest) := by
  obtain ⟨c, cs, hcs, hc⟩ := h.head
  have hblanks : skipBlanks (']' :: '\n' :: rest) = ']' :: '\n' :: rest :=
    skipBlanks_cons ⟨by decide, by decide⟩ _
  have hkey := key?_bare (name.toList ++ ']' :: '\n' :: rest).length h (by rintro c ⟨⟩; rfl) hblanks
    (by decide)
  have hname : ∀ more, name.toList ++ ']' :: '\n' :: rest ≠ '[' :: more := by
    rw [hcs]
    exact fun _ heq => ne_of_isKeyPart hc (by decide) (List.cons.inj heq).1
  rw [line?, hkey]
  · simp only [Option.bind_eq_bind, Option.bind_some, endLine?_newline]
    rw [through]
    cases openTable name s.fields <;> rfl
  · exact hname

theorem line?_field (h : IsBare key) (hj : Simple j) (rest : List Char) :
    line? s (printField key j ++ rest) =
      (assignIn s.path [key] j s.fields).map fun fields => ({ s with fields }, rest) := by
  obtain ⟨c, cs, hcs, hc⟩ := h.head
  obtain ⟨d, ds, hds, hd, -⟩ := hj.print_head
  have htext : printField key j ++ rest =
      key.toList ++ (' ' :: '=' :: ' ' :: (print j ++ '\n' :: rest)) := by
    have hequals : " = ".toList = [' ', '=', ' '] := rfl
    simp [printField, hequals]
  have hequals : skipBlanks (' ' :: '=' :: ' ' :: (print j ++ '\n' :: rest)) =
      '=' :: ' ' :: (print j ++ '\n' :: rest) :=
    (skipBlanks_blank _).trans (skipBlanks_cons ⟨by decide, by decide⟩ _)
  have hblanks : skipBlanks (' ' :: (print j ++ '\n' :: rest)) = print j ++ '\n' :: rest := by
    rw [hds, List.cons_append, skipBlanks_blank, skipBlanks_cons ⟨hd.1, hd.2.1⟩]
  have hvalue := value?_print hj ((' ' :: (print j ++ '\n' :: rest)).length + 1) ('\n' :: rest)
    (by simp only [List.length_cons, List.length_append]; omega) (stops_newline rest)
  have hkey := key?_bare (key.toList ++ (' ' :: '=' :: ' ' :: (print j ++ '\n' :: rest))).length h
    (by rintro c ⟨⟩; rfl) hequals (by decide)
  have hbracket : ∀ more, key.toList ++ (' ' :: '=' :: ' ' :: (print j ++ '\n' :: rest)) ≠ '[' :: more := by
    rw [hcs]
    exact fun _ heq => ne_of_isKeyPart hc (by decide) (List.cons.inj heq).1
  rw [htext, line?, hkey]
  · simp only [Option.bind_eq_bind, Option.bind_some, hblanks, hvalue, endLine?_newline]
    cases assignIn s.path [key] j s.fields <;> rfl
  · exact fun _ heq => hbracket _ heq
  · exact hbracket

/-! ## Going through a document -/

/-- Reading goes from one state and text to another. -/
def Goes (s : State) (text : List Char) (s' : State) (text' : List Char) : Prop :=
  ∀ fuel, text.length < fuel → ∃ fuel', text'.length < fuel' ∧
    lines? fuel s text = lines? fuel' s' text'

namespace Goes

theorem refl (s : State) (text : List Char) : Goes s text s text := fun fuel h => ⟨fuel, h, rfl⟩

theorem trans (h : Goes s text s' text') (h' : Goes s' text' s'' text'') : Goes s text s'' text'' := by
  intro fuel hfuel
  obtain ⟨fuel', hfuel', heq⟩ := h fuel hfuel
  obtain ⟨fuel'', hfuel'', heq'⟩ := h' fuel' hfuel'
  exact ⟨fuel'', hfuel'', heq.trans heq'⟩

/-- At the end of the text the state is the result. -/
theorem lines? (h : Goes s text s' []) (hfuel : text.length < fuel) :
    Toml.lines? fuel s text = some s' := by
  obtain ⟨fuel', hfuel', heq⟩ := h fuel hfuel
  obtain ⟨fuel', rfl⟩ : ∃ n, fuel' = n + 1 := ⟨fuel' - 1, by omega⟩
  rw [heq]
  rfl

theorem newline (s : State) (text : List Char) : Goes s ('\n' :: text) s text := by
  intro fuel hfuel
  rw [List.length_cons] at hfuel
  obtain ⟨fuel, rfl⟩ : ∃ n, fuel = n + 1 := ⟨fuel - 1, by omega⟩
  refine ⟨fuel + 1, by omega, ?_⟩
  rw [Toml.lines?, skipLines_newline, Toml.lines?]
  rfl

theorem line (hstart : ∃ c cs, text = c :: cs ∧ Starts c) (h : line? s text = some (s', rest))
    (hlength : rest.length < text.length) : Goes s text s' rest := by
  intro fuel hfuel
  obtain ⟨c, cs, rfl, hc⟩ := hstart
  obtain ⟨fuel, rfl⟩ : ∃ n, fuel = n + 1 := ⟨fuel - 1, by omega⟩
  refine ⟨fuel, by omega, ?_⟩
  rw [Toml.lines?, skipLines_cons hc]
  dsimp only
  rw [h]

end Goes

/-! ## Tables -/

/-- The table that a header opens for some fields. -/
def opened (fields : List (String × Json)) : Node :=
  .table .header (fields.map fun f => (f.1, .leaf f.2))

theorem lookup_eq_none {α : Type} {xs : List (String × α)} (h : name ∉ xs.map Prod.fst) :
    xs.lookup name = none := by
  rw [List.lookup_eq_none_iff]
  intro x hx
  rw [bne_iff_ne]
  rintro rfl
  exact h (List.mem_map_of_mem hx)

theorem lookup_concat {α : Type} {xs : List (String × α)} (h : name ∉ xs.map Prod.fst) (a : α) :
    (xs ++ [(name, a)]).lookup name = some a := by
  rw [List.lookup_append, lookup_eq_none h, Option.none_or, List.lookup_cons_self]

theorem replace_concat (h : name ∉ fields.map Prod.fst) (node node' : Node) :
    replace name node' (fields ++ [(name, node)]) = fields ++ [(name, node')] := by
  have hsame : ∀ x ∈ fields, (if x.1 == name then (x.1, node') else (x.1, x.2)) = x := by
    intro x hx
    have hne : x.1 ≠ name := by
      rintro rfl
      exact h (List.mem_map_of_mem hx)
    rw [if_neg (by simpa using hne)]
  unfold replace
  rw [List.map_append, List.map_congr_left hsame, List.map_id']
  simp

theorem openTable_new (h : name ∉ fields.map Prod.fst) :
    openTable name fields = some (fields ++ [(name, opened [])]) := by
  unfold openTable
  rw [lookup_eq_none h]
  rfl

/-- A value is set in the table that the last header opened. -/
theorem assignIn_opened (h : name ∉ fields.map Prod.fst) {fs : List (String × Json)}
    (hkey : key ∉ fs.map Prod.fst) (j : Json) :
    assignIn [name] [key] j (fields ++ [(name, opened fs)]) =
      some (fields ++ [(name, opened (fs ++ [(key, j)]))]) := by
  have hfree : (fs.map fun f => (f.1, Node.leaf f.2)).lookup key = none :=
    lookup_eq_none (by simpa using hkey)
  unfold assignIn
  rw [List.isEmpty_cons, if_neg Bool.false_ne_true, through, lookup_concat h, opened]
  dsimp only
  rw [assign, hfree]
  dsimp only
  rw [Option.map_some, replace_concat h, opened, List.map_append]
  rfl

/-! ## Sections -/

/-- Keys that need no quotes, none of them twice. -/
def Keyed (keys : List String) : Prop := (∀ key ∈ keys, IsBare key) ∧ keys.Nodup

instance (keys : List String) : Decidable (Keyed keys) := inferInstanceAs (Decidable (_ ∧ _))

/-- A section that is read back. -/
structure Tidy (fields : List (String × Json)) : Prop where
  keyed : Keyed (fields.map Prod.fst)
  simple : ∀ f ∈ fields, Simple f.2

theorem not_mem_of_nodup {x : String} {xs ys : List String} (h : (xs ++ x :: ys).Nodup) : x ∉ xs :=
  fun hx => (List.nodup_append.mp h).2.2 x hx x List.mem_cons_self rfl

theorem goes_field (h : name ∉ fields.map Prod.fst) {before : List (String × Json)}
    (hbare : IsBare key) (hkey : key ∉ before.map Prod.fst) (hj : Simple j) (rest : List Char) :
    Goes ⟨fields ++ [(name, opened before)], [name]⟩ (printField key j ++ rest)
      ⟨fields ++ [(name, opened (before ++ [(key, j)]))], [name]⟩ rest := by
  have hline := line?_field (s := ⟨fields ++ [(name, opened before)], [name]⟩) hbare hj rest
  rw [assignIn_opened h hkey, Option.map_some] at hline
  obtain ⟨c, cs, hcs, hc⟩ := hbare.head
  have hstart : ∃ c cs, printField key j ++ rest = c :: cs ∧ Starts c := by
    rw [printField, hcs]
    exact ⟨c, _, rfl, starts_of_isKeyPart hc⟩
  refine .line hstart hline ?_
  simp only [printField, List.length_append, List.length_singleton]
  omega

/-- The fields of a section are added to the table that its header opened. -/
theorem goes_fields (before : List (String × Json)) (h : name ∉ fields.map Prod.fst)
    {fs : List (String × Json)} (tidy : Tidy (before ++ fs)) (rest : List Char) :
    Goes ⟨fields ++ [(name, opened before)], [name]⟩
      ((fs.flatMap fun f => printField f.1 f.2) ++ rest)
      ⟨fields ++ [(name, opened (before ++ fs))], [name]⟩ rest := by
  induction fs generalizing before with
  | nil =>
    rw [List.append_nil]
    exact .refl _ _
  | cons f fs ih =>
    have hmem : f ∈ before ++ f :: fs := by simp
    have hkey : f.1 ∉ before.map Prod.fst := by
      have honce := tidy.keyed.2
      rw [List.map_append, List.map_cons] at honce
      exact not_mem_of_nodup honce
    have hgo := ih (before ++ [f]) (by simpa using tidy)
    rw [List.append_assoc, List.singleton_append] at hgo
    rw [List.flatMap_cons, List.append_assoc]
    exact (goes_field h (tidy.keyed.1 _ (List.mem_map_of_mem hmem)) hkey (tidy.simple f hmem) _).trans hgo

/-- A section is read as a table. -/
theorem goes_section (hbare : IsBare name) (h : name ∉ fields.map Prod.fst)
    {fs : List (String × Json)} (tidy : Tidy fs) (path : List String) (rest : List Char) :
    Goes ⟨fields, path⟩ (printSection name fs ++ rest) ⟨fields ++ [(name, opened fs)], [name]⟩ rest := by
  have htext : printSection name fs ++ rest =
      '[' :: (name.toList ++ ']' :: '\n' :: ((fs.flatMap fun f => printField f.1 f.2) ++ rest)) := by
    simp [printSection]
  have hline := line?_header (s := ⟨fields, path⟩) hbare
    ((fs.flatMap fun f => printField f.1 f.2) ++ rest)
  rw [openTable_new h, Option.map_some] at hline
  rw [htext]
  refine Goes.trans (.line ⟨'[', _, rfl, by decide⟩ hline ?_) (goes_fields [] h tidy rest)
  simp only [List.length_cons, List.length_append]
  omega

/-- Sections are read one after the other. -/
theorem goes_sections (fields : Fields) {sections : List (String × List (String × Json))}
    (hbare : ∀ name ∈ sections.map Prod.fst, IsBare name)
    (honce : (fields.map Prod.fst ++ sections.map Prod.fst).Nodup)
    (tidy : ∀ x ∈ sections, Tidy x.2) (path : List String) :
    ∃ path', Goes ⟨fields, path⟩ (['\n'].intercalate (sections.map fun x => printSection x.1 x.2))
      ⟨fields ++ sections.map fun x => (x.1, opened x.2), path'⟩ [] := by
  induction sections generalizing fields path with
  | nil =>
    refine ⟨path, ?_⟩
    rw [List.map_nil, List.map_nil, List.append_nil]
    exact .refl _ _
  | cons x sections ih =>
    obtain ⟨hx, hbare⟩ := List.forall_mem_cons.mp hbare
    obtain ⟨tidyx, tidy⟩ := List.forall_mem_cons.mp tidy
    have hname : x.1 ∉ fields.map Prod.fst := not_mem_of_nodup honce
    have honce' : ((fields ++ [(x.1, opened x.2)]).map Prod.fst ++ sections.map Prod.fst).Nodup := by
      simpa using honce
    obtain ⟨path', hgo⟩ := ih _ hbare honce' tidy [x.1]
    refine ⟨path', ?_⟩
    rw [List.append_assoc, List.singleton_append] at hgo
    by_cases hnil : sections = []
    · subst hnil
      have hsection := goes_section hx hname tidyx path []
      rw [List.append_nil] at hsection
      rw [List.map_cons, List.map_nil, List.intercalate_singleton]
      exact hsection.trans hgo
    · rw [List.map_cons, List.intercalate_cons_of_ne_nil (by simpa using hnil), List.append_assoc,
        List.singleton_append]
      exact (goes_section hx hname tidyx path _).trans (.trans (.newline _ _) hgo)

/-- The object that a document of sections stands for. -/
theorem fieldValues_opened (sections : List (String × List (String × Json))) :
    fieldValues (sections.map fun x => (x.1, opened x.2)) =
      sections.map fun x => (x.1, .object x.2) := by
  have hleaves (fs : List (String × Json)) :
      fieldValues (fs.map fun f => (f.1, .leaf f.2)) = fs := by
    induction fs with
    | nil => rfl
    | cons f fs ih => rw [List.map_cons, fieldValues, ih, Node.value]
  induction sections with
  | nil => rfl
  | cons x sections ih =>
    rw [List.map_cons, fieldValues, ih, opened, Node.value, hleaves, List.map_cons]

/-- A document starts with a header. -/
theorem head_of_sections (sections : List (String × List (String × Json))) :
    ∀ c ∈ (['\n'].intercalate (sections.map fun x => printSection x.1 x.2)).head?, c = '[' := by
  intro c hc
  cases sections with
  | nil => cases hc
  | cons x sections =>
    by_cases hnil : sections = []
    · subst hnil
      rw [List.map_cons, List.map_nil, List.intercalate_singleton] at hc
      exact (Option.some.inj hc).symm
    · rw [List.map_cons, List.intercalate_cons_of_ne_nil (by simpa using hnil)] at hc
      exact (Option.some.inj hc).symm

/-- A document of sections is read back. -/
theorem parse_document {sections : List (String × List (String × Json))}
    (keyed : Keyed (sections.map Prod.fst)) (tidy : ∀ x ∈ sections, Tidy x.2) :
    parse (document sections).toList = some (.object (sections.map fun x => (x.1, .object x.2))) := by
  obtain ⟨path, hgo⟩ := goes_sections [] keyed.1 keyed.2 tidy []
  have hlines := hgo.lines? (Nat.lt_succ_self _)
  have hhead := head_of_sections sections
  unfold parse document
  rw [String.toList_ofList]
  split
  · rename_i heq
    rw [heq] at hhead
    exact absurd (hhead _ rfl) (by decide)
  · refine (congrArg (Option.map fun s => Json.object (fieldValues s.fields)) hlines).trans ?_
    rw [Option.map_some, List.nil_append, fieldValues_opened]

end Toml
end SourceSurvey
