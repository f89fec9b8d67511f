import SourceSurvey.Path
import SourceSurvey.Proofs.Text.Lines

/-!
# Paths and their pieces

What joining a name to a path and changing an extension do to the pieces of the path.

* `Path.pieces_join`: joining a name adds it as the last piece.
* `Path.pieces_withExtension`: changing the extension of a path changes its last name and leaves the
  other pieces (`Path.withExtension_join` for a name that is joined).
-/

namespace SourceSurvey
namespace Path

/-- A text that is one piece of a path and names something. -/
structure IsName (name : String) : Prop where
  ne_empty : name ≠ ""
  ne_here : name ≠ "."
  ne_up : name ≠ ".."
  no_slash : '/' ∉ name.toList

instance (name : String) : Decidable (IsName name) :=
  decidable_of_iff (name ≠ "" ∧ name ≠ "." ∧ name ≠ ".." ∧ '/' ∉ name.toList)
    ⟨fun ⟨h₁, h₂, h₃, h₄⟩ => ⟨h₁, h₂, h₃, h₄⟩, fun ⟨h₁, h₂, h₃, h₄⟩ => ⟨h₁, h₂, h₃, h₄⟩⟩

theorem pieces_eq (p : Path) {xs : List Char} (h : p.text.toList = xs) :
    p.pieces = (Text.fields (· == '/') xs).map String.ofList := by
  unfold pieces
  rw [h]

/-- No piece of a path holds a slash. -/
theorem no_slash_of_mem_pieces {p : Path} {piece : String} (h : piece ∈ p.pieces) :
    '/' ∉ piece.toList := by
  obtain ⟨cs, hcs, rfl⟩ := List.mem_map.mp h
  rw [String.toList_ofList]
  exact Text.not_mem_of_mem_fields hcs

/-- The text of a path is its pieces with slashes between them. -/
theorem intercalate_pieces (p : Path) : "/".intercalate p.pieces = p.text := by
  rw [← String.toList_inj, String.toList_intercalate]
  unfold pieces
  rw [List.map_map]
  have hid : String.toList ∘ String.ofList = id := by
    funext cs
    exact String.toList_ofList
  rw [hid, List.map_id]
  exact Text.intercalate_fields '/' p.text.toList

/-- The pieces of names with slashes between them. -/
theorem pieces_intercalate {names : List String} (hne : names ≠ [])
    (hn : ∀ name ∈ names, '/' ∉ name.toList) : pieces ⟨"/".intercalate names⟩ = names := by
  unfold pieces
  rw [String.toList_intercalate]
  have hslash : ("/" : String).toList = ['/'] := rfl
  rw [hslash, Text.fields_intercalate '/' (by simpa using hne), List.map_map]
  · have hid : String.ofList ∘ String.toList = id := by
      funext s
      exact String.ofList_toList
    rw [hid, List.map_id]
  · intro xs hxs
    obtain ⟨name, hname, rfl⟩ := List.mem_map.mp hxs
    exact hn name hname

theorem eq_of_pieces {p q : Path} (h : p.pieces = q.pieces) : p = q := by
  have ht := intercalate_pieces p
  rw [h, intercalate_pieces] at ht
  cases p
  cases q
  rw [Path.mk.injEq]
  exact ht.symm

namespace IsName

variable {name : String} (hn : IsName name)

/-- A text without slashes that is not all dots is a name. -/
theorem of_mem {c : Char} (hc : c ∈ name.toList) (hd : c ≠ '.') (hs : '/' ∉ name.toList) :
    IsName name := by
  refine ⟨?_, ?_, ?_, hs⟩
  · rintro rfl
    exact nomatch hc
  · rintro rfl
    exact hd (List.mem_singleton.mp hc)
  · rintro rfl
    rcases List.mem_cons.mp hc with rfl | hc
    · exact hd rfl
    · exact hd (List.mem_singleton.mp hc)

theorem pieces (hn : IsName name) : Path.pieces ⟨name⟩ = [name] := by
  rw [pieces_eq ⟨name⟩ rfl, Text.fields_of_not_mem hn.no_slash, List.map_singleton,
    String.ofList_toList]

theorem not_absolute (hn : IsName name) : Path.isAbsolute ⟨name⟩ = false := by
  unfold isAbsolute
  rw [decide_eq_false_iff_not]
  intro h
  exact hn.no_slash (List.mem_of_mem_head? h)

theorem ofPiece (hn : IsName name) : Component.ofPiece name = .name name := by
  unfold Component.ofPiece
  rw [if_neg hn.ne_here, if_neg hn.ne_up]

theorem not_idle (hn : IsName name) : isIdle name = false := by
  unfold isIdle
  rw [Bool.or_eq_false_iff, decide_eq_false_iff_not, decide_eq_false_iff_not]
  exact ⟨hn.ne_empty, hn.ne_here⟩

end IsName

/-! ## Joining a name -/

/-- The pieces without an empty one after the last slash. -/
def openPieces (p : Path) : List String :=
  if p.text = "" || p.text.toList.getLast? = some '/' then p.pieces.dropLast else p.pieces

/-- The text of a path is empty, ends in a slash, or does neither. -/
theorem text_cases (p : Path) :
    p.text = "" ∨ (∃ xs, p.text.toList = xs ++ ['/']) ∨
      p.text ≠ "" ∧ p.text.toList.getLast? ≠ some '/' := by
  by_cases he : p.text = ""
  · exact .inl he
  · by_cases hl : p.text.toList.getLast? = some '/'
    · exact .inr (.inl ⟨_, (List.dropLast_append_getLast? _ hl).symm⟩)
    · exact .inr (.inr ⟨he, hl⟩)

theorem pieces_of_slash {p : Path} {xs : List Char} (h : p.text.toList = xs ++ ['/']) :
    p.pieces = (Text.fields (· == '/') xs).map String.ofList ++ [""] ∧
      p.openPieces = (Text.fields (· == '/') xs).map String.ofList := by
  have hp : p.pieces = (Text.fields (· == '/') xs).map String.ofList ++ [""] := by
    rw [pieces_eq p h, Text.fields_append (by decide), List.map_append]
    rfl
  refine ⟨hp, ?_⟩
  unfold openPieces
  rw [if_pos (by simp [h]), hp, List.dropLast_concat]

theorem openPieces_of_bare {p : Path} (he : p.text ≠ "") (hl : p.text.toList.getLast? ≠ some '/') :
    p.openPieces = p.pieces := by
  unfold openPieces
  rw [if_neg (by simp [he, hl])]

theorem pieces_of_empty {p : Path} (h : p.text = "") : p.pieces = [""] ∧ p.openPieces = [] := by
  have hp : p.pieces = [""] := by
    unfold pieces
    rw [h]
    rfl
  refine ⟨hp, ?_⟩
  unfold openPieces
  rw [if_pos (by simp [h]), hp]
  rfl

/-- Pieces end with an empty one or are open. -/
theorem pieces_open (p : Path) : p.pieces = p.openPieces ∨ p.pieces = p.openPieces ++ [""] := by
  rcases text_cases p with h | ⟨xs, h⟩ | ⟨he, hl⟩
  · obtain ⟨hp, ho⟩ := pieces_of_empty h
    exact .inr (by rw [hp, ho]; rfl)
  · obtain ⟨hp, ho⟩ := pieces_of_slash h
    exact .inr (by rw [hp, ho])
  · exact .inl (openPieces_of_bare he hl).symm

/-- Joining a name adds it as the last piece. -/
theorem pieces_join (p : Path) {name : String} (hn : IsName name) :
    (p.join ⟨name⟩).pieces = p.openPieces ++ [name] := by
  have hname : Text.fields (· == '/') name.toList = [name.toList] := by
    exact Text.fields_of_not_mem hn.no_slash
  unfold join
  rw [hn.not_absolute, if_neg Bool.false_ne_true]
  rcases text_cases p with h | ⟨xs, h⟩ | ⟨he, hl⟩
  · rw [(pieces_of_empty h).2, h, if_pos (by simp), String.empty_append, hn.pieces]
    rfl
  · have ht : (p.text ++ name).toList = xs ++ '/' :: name.toList := by simp [h]
    rw [(pieces_of_slash h).2, if_pos (by simp [h]), pieces_eq _ ht,
      Text.fields_append (by decide), hname, List.map_append, List.map_singleton,
      String.ofList_toList]
  · have ht : (p.text ++ "/" ++ name).toList = p.text.toList ++ '/' :: name.toList := by simp
    rw [openPieces_of_bare he hl, if_neg (by simp [he, hl]), pieces_eq _ ht,
      Text.fields_append (by decide), hname, List.map_append, List.map_singleton,
      String.ofList_toList, ← pieces_eq p rfl]

theorem openPieces_join (p : Path) {name : String} (hn : IsName name) :
    (p.join ⟨name⟩).openPieces = p.openPieces ++ [name] := by
  have hp := pieces_join p hn
  rcases pieces_open (p.join ⟨name⟩) with h | h
  · rw [← h, hp]
  · rw [hp] at h
    have hlast := congrArg List.getLast? h
    rw [List.getLast?_concat, List.getLast?_concat, Option.some.injEq] at hlast
    exact absurd hlast hn.ne_empty

/-- What stands between a path and a name that is joined does not depend on the name. -/
theorem text_join (p : Path) :
    ∃ slash, ∀ name, IsName name → (p.join ⟨name⟩).text = p.text ++ slash ++ name := by
  by_cases hp : (p.text = "" || p.text.toList.getLast? = some '/') = true
  · refine ⟨"", fun name hn => ?_⟩
    unfold join
    rw [hn.not_absolute, if_neg Bool.false_ne_true, if_pos hp, String.append_empty]
  · refine ⟨"/", fun name hn => ?_⟩
    unfold join
    rw [hn.not_absolute, if_neg Bool.false_ne_true, if_neg hp]

theorem isAbsolute_join {p : Path} (hp : p.text ≠ "") {name : String} (hn : IsName name) :
    (p.join ⟨name⟩).isAbsolute = p.isAbsolute := by
  have hne : p.text.toList ≠ [] := by
    rw [Ne, String.toList_eq_nil_iff]
    exact hp
  unfold join
  rw [hn.not_absolute, if_neg Bool.false_ne_true]
  unfold isAbsolute
  split
  · rw [String.toList_append, List.head?_append_of_ne_nil _ hne]
  · rw [String.toList_append, String.toList_append, List.append_assoc,
      List.head?_append_of_ne_nil _ hne]

/-! ## Changing an extension -/

theorem cutName_append {stem extension : String} (hs : stem ≠ "")
    (he : '.' ∉ extension.toList) :
    cutName (stem ++ "." ++ extension) = (stem, some extension) := by
  have ht : (stem ++ "." ++ extension).toList = stem.toList ++ '.' :: extension.toList := by simp
  have hl : Text.lastField (· == '.') (stem.toList ++ '.' :: extension.toList) =
      extension.toList := by
    refine Text.lastField_append (by decide) _ fun c hc => ?_
    rw [beq_eq_false_iff_ne]
    rintro rfl
    exact he hc
  have hb : (stem.toList ++ '.' :: extension.toList).take
      ((stem.toList ++ '.' :: extension.toList).length - extension.toList.length - 1) =
      stem.toList := by
    rw [List.length_append, List.length_cons,
      show stem.toList.length + (extension.toList.length + 1) - extension.toList.length - 1 =
        stem.toList.length by omega, List.take_left]
  unfold cutName
  simp only [ht, hl, hb]
  rw [if_neg]
  · rw [String.ofList_toList, String.ofList_toList]
  · simp [hs]
    omega

/-! ## The last name of a path -/

section LastName

variable {p : Path} {pieces : List String} {name : String}

theorem text_ne_empty_of_pieces (h : p.pieces = pieces ++ [name]) (hn : IsName name) :
    p.text ≠ "" := by
  intro he
  have hlast := congrArg List.getLast? (h.symm.trans (pieces_of_empty he).1)
  rw [List.getLast?_concat] at hlast
  exact hn.ne_empty (Option.some.inj hlast)

theorem not_absolute_of_pieces (h : p.pieces = [name]) (hn : IsName name) :
    p.isAbsolute = false := by
  have hp : p = ⟨name⟩ := eq_of_pieces (h.trans hn.pieces.symm)
  rw [hp, hn.not_absolute]

/-- A path that ends in a name has no slash at its end. -/
theorem withoutSlashes_of_pieces (h : p.pieces = pieces ++ [name]) (hn : IsName name) :
    p.withoutSlashes = p := by
  obtain ⟨front, hfront⟩ : ∃ front, p.text.toList = front ++ name.toList := by
    refine ⟨['/'].intercalate (pieces.map String.toList ++ [[]]), ?_⟩
    rw [← p.intercalate_pieces, h, String.toList_intercalate, List.map_append, List.map_singleton,
      ← Text.intercalate_concat_append, List.nil_append]
    rfl
  obtain ⟨ys, c, hc⟩ := List.eq_nil_or_concat name.toList |>.resolve_left fun hnil =>
    hn.ne_empty (String.toList_eq_nil_iff.mp hnil)
  rw [List.concat_eq_append] at hc
  have hslash : c ≠ '/' := by
    rintro rfl
    refine hn.no_slash ?_
    rw [hc]
    exact List.mem_append_right _ List.mem_cons_self
  have hlast : p.text.toList = front ++ ys ++ [c] := by rw [hfront, hc, List.append_assoc]
  have hdrop : p.text.toList.reverse.dropWhile (· = '/') = p.text.toList.reverse := by
    rw [hlast, List.reverse_append, List.reverse_singleton, List.singleton_append]
    exact List.dropWhile_cons_of_neg (by simpa using hslash)
  unfold withoutSlashes
  dsimp only
  rw [hdrop, List.reverse_reverse, if_neg (by simp [hlast]), String.ofList_toList]

theorem fileName?_of_pieces (h : p.pieces = pieces ++ [name]) (hn : IsName name) :
    p.fileName? = some name := by
  have hlast : p.components.getLast? = some (.name name) := by
    unfold components
    cases pieces with
    | nil =>
      rw [not_absolute_of_pieces h hn, h]
      simp [hn.ne_empty, hn.ofPiece]
    | cons first ps =>
      have hf : ((ps ++ [name]).filter (!isIdle ·)).map Component.ofPiece =
          (ps.filter (!isIdle ·)).map Component.ofPiece ++ [.name name] := by
        simp [hn.not_idle, hn.ofPiece]
      rw [h]
      simp only [List.cons_append, hf]
      split
      · rw [← List.cons_append, List.getLast?_concat]
      · split
        · rw [List.getLast?_concat]
        · rw [← List.cons_append, List.getLast?_concat]
  unfold fileName?
  rw [hlast]

theorem dropIdle_concat (ps : List String) (hn : IsName name) :
    dropIdle (ps ++ [name]) = ps ++ [name] := by
  unfold dropIdle
  rw [List.reverse_append, List.reverse_singleton, List.singleton_append, List.dropWhile_cons,
    hn.not_idle, if_neg Bool.false_ne_true, List.reverse_cons, List.reverse_reverse]

theorem cutLast?_of_pieces (h : p.pieces = pieces ++ [name]) (hn : IsName name) :
    p.cutLast? = some (pieces, name) := by
  unfold cutLast?
  cases pieces with
  | nil =>
    rw [not_absolute_of_pieces h hn, h]
    simp [dropIdle, hn.ne_empty]
  | cons first ps =>
    rw [h]
    simp only [List.cons_append, dropIdle_concat ps hn, List.getLast?_concat, List.dropLast_concat]

/-- Paths that differ in their last names only start at one place. -/
theorem isAbsolute_congr {q : Path} {name' : String} (h : p.pieces = pieces ++ [name])
    (h' : q.pieces = pieces ++ [name']) (hn : IsName name) (hn' : IsName name') :
    p.isAbsolute = q.isAbsolute := by
  cases pieces with
  | nil => rw [not_absolute_of_pieces h hn, not_absolute_of_pieces h' hn']
  | cons first ps =>
    have htext (r : Path) (x : String) (hr : r.pieces = first :: (ps ++ [x])) :
        r.text.toList.head? = (first.toList ++ ['/']).head? := by
      rw [← r.intercalate_pieces, hr, String.toList_intercalate, List.map_cons,
        List.intercalate_cons_of_ne_nil (by simp)]
      show ((first.toList ++ ['/']) ++ _).head? = _
      rw [List.head?_append_of_ne_nil _ (by simp)]
    unfold isAbsolute
    rw [htext p name h, htext q name' h']

theorem mem_cutName {c : Char} (hc : c ∈ (cutName name).1.toList) : c ∈ name.toList := by
  unfold cutName at hc
  dsimp only at hc
  split at hc
  · exact hc
  · rw [String.toList_ofList] at hc
    exact List.mem_of_mem_take hc

/-- A path with another extension has another last name. -/
theorem pieces_withExtension {extension : String} (h : p.pieces = pieces ++ [name])
    (hn : IsName name) (hne : extension ≠ "") (hslash : '/' ∉ extension.toList) :
    (p.withExtension extension).pieces = pieces ++ [(cutName name).1 ++ "." ++ extension] := by
  unfold withExtension fileStem?
  rw [fileName?_of_pieces h hn, cutLast?_of_pieces h hn, Option.map_some]
  simp only [if_neg hne]
  refine pieces_intercalate (by simp) fun piece hpiece => ?_
  rcases List.mem_append.mp hpiece with hpiece | hpiece
  · refine no_slash_of_mem_pieces (p := p) ?_
    rw [h]
    exact List.mem_append_left _ hpiece
  · rw [List.mem_singleton.mp hpiece]
    simp only [String.toList_append, List.mem_append, not_or]
    exact ⟨⟨fun hc => hn.no_slash (mem_cutName hc), by decide⟩, hslash⟩

end LastName

/-- The path with another extension on its last name is otherwise written as before. -/
theorem withExtension_join (p : Path) {stem extension extension' : String} (hs : stem ≠ "")
    (he : '.' ∉ extension.toList) (hn : IsName (stem ++ "." ++ extension))
    (hn' : IsName (stem ++ "." ++ extension')) (hne : extension' ≠ "") :
    (p.join ⟨stem ++ "." ++ extension⟩).withExtension extension' =
      p.join ⟨stem ++ "." ++ extension'⟩ := by
  unfold withExtension fileStem?
  rw [fileName?_of_pieces (pieces_join p hn) hn, cutLast?_of_pieces (pieces_join p hn) hn,
    Option.map_some, cutName_append hs he]
  simp only [if_neg hne]
  have ht := intercalate_pieces (p.join ⟨stem ++ "." ++ extension'⟩)
  rw [pieces_join p hn'] at ht
  rw [ht]

/-! ## Drafts -/

/-- A path at which a draft may be written: if the other path ends in a name, this one has another name
in its stead. -/
def Drafts (draft p : Path) : Prop :=
  ∀ {pieces : List String} {name : String}, p.pieces = pieces ++ [name] → IsName name →
    ∃ name', IsName name' ∧ name' ≠ name ∧ draft.pieces = pieces ++ [name']

end Path
end SourceSurvey
