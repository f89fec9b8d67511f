import SourceSurvey.Proofs.Text.Lines
import SourceSurvey.Proofs.Tree.Rooted
import SourceSurvey.Proofs.Tree.Slot

/-!
# Canonical paths

The canonical path of a file is the absolute path of its place. Looking it up again gives the same
path, and so does spelling it: it stays its own key as long as it leads to its place or nowhere. The
key of another path is the canonical path of its file while the file is there, and only the absolute
spelling of the path afterwards.

* `Tree.spell_pathOf`: the absolute path of a place is its own spelling.
* `Tree.IsCanonical.key_of_fewer`: a canonical path stays its own key while nodes are removed.
* `Tree.SameWays.locate`: when files come and go but directories and links stay, a path of a file
  leads to its place or nowhere.
-/

namespace SourceSurvey

open SourceSurvey.Path (IsName)

namespace Tree

variable {t t' : Tree} {p : Path} {place x : Place} {n : Node} {bytes : List UInt8}
  {changed : Instant}

/-! ## Places of names -/

/-- Pieces without slashes lead from a place of names to a place of names. -/
theorem isName_of_walk {follow : Bool} {links : Nat} {pieces : List String}
    (h : t.walk follow links place pieces = .ok (.found x n)) (hplace : ∀ name ∈ place, IsName name)
    (hpieces : ∀ piece ∈ pieces, '/' ∉ piece.toList) : ∀ name ∈ x, IsName name := by
  have enter {place : Place} {piece : String} {rest : List String}
      (hi : ¬ (decide (piece = "") || decide (piece = ".")) = true) (hu : ¬ piece = "..")
      (hplace : ∀ name ∈ place, IsName name)
      (hpieces : ∀ piece' ∈ piece :: rest, '/' ∉ piece'.toList) :
      ∀ name ∈ place ++ [piece], IsName name := by
    have hidle : ¬ (piece = "" ∨ piece = ".") := by simpa using hi
    refine List.forall_mem_append.mpr ⟨hplace, List.forall_mem_singleton.mpr ?_⟩
    exact ⟨fun he => hidle (.inl he), fun he => hidle (.inr he), hu, hpieces _ List.mem_cons_self⟩
  fun_induction walk t follow links place pieces with
  | case1 =>
    obtain ⟨rfl, -⟩ := Target.found.inj (Except.ok.inj h)
    exact hplace
  | case2 _ _ _ _ _ ih => exact ih h hplace (List.forall_mem_cons.mp hpieces).2
  | case3 _ _ _ _ ih =>
    exact ih h (fun name hm => hplace name (List.dropLast_subset _ hm))
      (List.forall_mem_cons.mp hpieces).2
  | case4 => cases h
  | case5 => cases h
  | case6 => cases h
  | case7 _ _ _ _ hi hu _ _ _ ih =>
    exact ih h (enter hi hu hplace hpieces) (List.forall_mem_cons.mp hpieces).2
  | case8 _ _ _ _ hi hu =>
    obtain ⟨rfl, -⟩ := Target.found.inj (Except.ok.inj h)
    exact enter hi hu hplace hpieces
  | case9 => cases h
  | case10 _ _ _ _ hi hu =>
    obtain ⟨rfl, -⟩ := Target.found.inj (Except.ok.inj h)
    exact enter hi hu hplace hpieces
  | case11 => cases h
  | case12 _ _ _ _ _ _ _ _ _ _ _ link ih =>
    refine ih h ?_ (List.forall_mem_append.mpr ⟨fun _ => Path.no_slash_of_mem_pieces,
      (List.forall_mem_cons.mp hpieces).2⟩)
    split
    · exact List.forall_mem_nil _
    · exact hplace

/-- An absolute path leads to a place of names. -/
theorem isName_of_locate (habsolute : p.isAbsolute = true) (h : t.locate p = .ok (x, n)) :
    ∀ name ∈ x, IsName name := by
  obtain ⟨-, -, hw⟩ := resolve_ok (locate_ok h)
  refine isName_of_walk hw ?_ fun _ => Path.no_slash_of_mem_pieces
  rw [show t.start p = [] from if_pos habsolute]
  exact nofun

/-! ## Spelling -/

/-- The absolute path of a place is its own spelling. -/
theorem spell_pathOf (t : Tree) {place : Place} (hn : ∀ name ∈ place, IsName name)
    (hne : place ≠ []) : t.spell (pathOf place) = pathOf place := by
  have hpieces := pieces_pathOf hn hne
  have hnames : ((Component.root :: place.map .name).filter (· ≠ .root)) = place.map .name := by
    rw [List.filter_cons_of_neg (by simp)]
    refine List.filter_eq_self.mpr fun c hc => ?_
    obtain ⟨name, -, rfl⟩ := List.mem_map.mp hc
    simp
  have hfull : (place.map Component.name).foldl (fun q c => q.join ⟨c.text⟩) ⟨"/"⟩ =
      Discovery.pathBelow ⟨"/"⟩ place := by
    rw [List.foldl_map]
    rfl
  have hbelow : Discovery.pathBelow ⟨"/"⟩ place = pathOf place := by
    refine Path.eq_of_pieces ?_
    rw [Discovery.pieces_pathBelow _ hn hne, hpieces]
    rfl
  -- A second slash at the start or one at the end would make an empty piece.
  have hsecond : ∀ cs, (pathOf place).text.toList ≠ '/' :: '/' :: cs := by
    intro cs hcs
    obtain ⟨name, rest, rfl⟩ := List.exists_cons_of_ne_nil hne
    have hslashes := Path.pieces_eq _ hcs
    rw [hpieces, Text.fields_cons, Text.fields_cons] at hslashes
    exact (hn name List.mem_cons_self).ne_empty (List.cons.inj (List.cons.inj hslashes).2).1
  have hlast : (pathOf place).text.toList.getLast? ≠ some '/' := by
    intro hslash
    have hends := (Path.pieces_of_slash (List.dropLast_append_getLast? _ hslash).symm).1
    have hempty := congrArg List.getLast? hends
    rw [hpieces, List.getLast?_concat, List.getLast?_cons_of_ne_nil hne] at hempty
    exact (hn "" (List.mem_of_getLast? hempty)).ne_empty rfl
  unfold spell
  dsimp only
  rw [components_pathOf hn hne]
  dsimp only
  rw [hnames, if_pos (isAbsolute_pathOf place), if_neg hlast]
  rw [if_neg]
  · exact hfull.trans hbelow
  · split
    · exact absurd ‹_› (hsecond _)
    · exact absurd ‹_› (hsecond _)
    · exact Bool.false_ne_true

/-- The key of a path that leads nowhere is its absolute spelling. -/
theorem key_of_missing (hp : p.text ≠ "") (h : t.exists? p = false) : t.key p = t.spell p := by
  unfold exists? at h
  unfold key canonical
  cases hl : t.locate p with
  | ok x => exact nomatch (congrArg Except.isOk hl).symm.trans h
  | error e => exact if_neg hp

theorem text_ne_empty_of_locate (h : t.locate p = .ok (x, n)) : p.text ≠ "" :=
  (resolve_ok (locate_ok h)).2.1

theorem exists?_of_error {e : IoFailure} (h : t.locate p = .error e) : t.exists? p = false := by
  unfold exists?
  rw [h]
  rfl

/-! ## Removing nodes -/

/-- A tree with some of the nodes of another one. -/
structure Fewer (t t' : Tree) : Prop where
  current : t'.current = t.current
  nodes : ∀ q n, t'.find? q = some n → t.find? q = some n

namespace Fewer

theorem refl (t : Tree) : Fewer t t := ⟨rfl, fun _ _ => id⟩

theorem trans {t'' : Tree} (h : Fewer t t') (h' : Fewer t' t'') : Fewer t t'' :=
  ⟨h'.current.trans h.current, fun q n hn => h.nodes q n (h'.nodes q n hn)⟩

theorem remove {q : Place} (hq : q ≠ []) : Fewer t (t.remove q) := by
  refine ⟨current_remove .., fun r n hn => ?_⟩
  rw [find?_remove t hq] at hn
  split at hn
  · exact nomatch hn
  · exact hn

/-- A path leads to what it led to before, or nowhere. -/
theorem resolve (h : Fewer t t') {follow : Bool} (hr : t'.resolve follow p = .ok (.found x n)) :
    t.resolve follow p = .ok (.found x n) :=
  resolve_keep hr h.current.symm fun q m hm _ => h.nodes q m hm

theorem locate (h : Fewer t t') (hl : t'.locate p = .ok (x, n)) : t.locate p = .ok (x, n) :=
  locate_of_resolve (h.resolve (locate_ok hl))

end Fewer

/-- A path is the absolute path of the file to which it leads. -/
def IsCanonical (t : Tree) (p : Path) : Prop :=
  ∃ place bytes changed, t.locate p = .ok (place, .file bytes changed) ∧ p = pathOf place

/-- A canonical path stays its own key while nodes are removed. -/
theorem IsCanonical.key_of_fewer (h : t.IsCanonical p) (fewer : Fewer t t') : t'.key p = p := by
  obtain ⟨place, bytes, changed, hl, rfl⟩ := h
  have hn := isName_of_locate (isAbsolute_pathOf place) hl
  cases hl' : t'.locate (pathOf place) with
  | ok target =>
    have heq := Except.ok.inj ((fewer.locate hl').symm.trans hl)
    rw [key_of_locate hl', (Prod.mk.inj heq).1]
  | error e =>
    rw [key_of_missing (text_pathOf_ne_empty place) (exists?_of_error hl'),
      spell_pathOf t' hn (ne_nil_of_locate hl)]

/-! ## Changing files -/

/-- Trees with the same current directory, directories and links. -/
structure SameWays (t t' : Tree) : Prop where
  current : t'.current = t.current
  ways : ∀ q n, ¬ n.IsFile → (t'.find? q = some n ↔ t.find? q = some n)

namespace SameWays

theorem remove_file {q : Place} (hf : t.find? q = some (.file bytes changed)) :
    t.SameWays (t.remove q) := by
  have hq : q ≠ [] := by
    rintro rfl
    exact nomatch hf
  refine ⟨current_remove .., fun r n hn => ?_⟩
  rw [find?_remove t hq]
  split
  · rename_i hr
    rw [hr, hf]
    exact ⟨nofun, fun he => absurd (Option.some.inj he ▸ .intro ..) hn⟩
  · exact .rfl

/-- Where there was a file, there is a file or nothing. -/
theorem fileOnly (h : SameWays t t') {q : Place} (hf : t.FileOnly q) : t'.FileOnly q := by
  intro n hn
  by_contra hfile
  exact hfile (hf n ((h.ways q n hfile).mp hn))

/-- Pieces that lead to a file lead to its place, whatever file stands there, if any. -/
theorem walk (h : SameWays t t') {follow : Bool} {links : Nat} {pieces : List String}
    (hw : t.walk follow links place pieces = .ok (.found x (.file bytes changed))) :
    ∃ d name, x = d ++ [name] ∧ t'.walk follow links place pieces = .ok (t'.standing d name) := by
  fun_induction Tree.walk t follow links place pieces with
  | case1 => cases hw
  | case2 _ _ _ _ idle ih => rw [walk_idle idle]; exact ih hw
  | case3 _ _ _ _ ih => rw [walk_up]; exact ih hw
  | case4 => cases hw
  | case5 => cases hw
  | case6 => cases hw
  | case7 _ _ _ _ hi hu hl next hf ih =>
    rw [walk_directory ⟨hi, hu, hl⟩ ((h.ways _ .directory Node.not_isFile_directory).mpr hf)]
    exact ih hw
  | case8 _ place piece rest hi hu hl next bytes' changed' hf he =>
    obtain ⟨rfl, -⟩ := Target.found.inj (Except.ok.inj hw)
    obtain rfl := List.isEmpty_iff.mp he
    have hfile : t.FileOnly (place ++ [piece]) := fileOnly_of_find? hf
    refine ⟨place, piece, rfl, ?_⟩
    rcases (h.fileOnly hfile).cases with hf' | ⟨bytes'', changed'', hf'⟩
    · rw [walk_none ⟨hi, hu, hl⟩ hf', standing_none hf']
      rfl
    · rw [walk_file ⟨hi, hu, hl⟩ hf', standing_some hf']
      rfl
  | case9 => cases hw
  | case10 => cases (Target.found.inj (Except.ok.inj hw)).2
  | case11 => cases hw
  | case12 _ _ _ hi hu hl next target hf he links link ih =>
    rw [walk_link ⟨hi, hu, hl⟩ ((h.ways _ (.link target) (Node.not_isFile_link _)).mpr hf) he]
    exact ih hw

/-- A path of a file leads to its place, whatever file stands there, if any. -/
theorem resolve (h : SameWays t t') (hl : t.locate p = .ok (x, .file bytes changed)) :
    ∃ d name, x = d ++ [name] ∧ t'.resolve true p = .ok (t'.standing d name) := by
  obtain ⟨hp, he, hw⟩ := resolve_ok (locate_ok hl)
  have hs : t'.start p = t.start p := by
    unfold start
    rw [h.current]
  obtain ⟨d, name, rfl, hw'⟩ := h.walk hw
  refine ⟨d, name, rfl, ?_⟩
  rw [resolve_eq hp he, hs, hw']
  rfl

/-- A path of a file leads to its place or nowhere. -/
theorem locate (h : SameWays t t') (hl : t.locate p = .ok (x, .file bytes changed)) {y : Place}
    (hl' : t'.locate p = .ok (y, n)) : y = x := by
  obtain ⟨d, name, rfl, hr⟩ := h.resolve hl
  have hfound := Except.ok.inj (hr.symm.trans (locate_ok hl'))
  cases hf : t'.find? (d ++ [name]) with
  | none =>
    rw [standing_none hf] at hfound
    cases hfound
  | some m =>
    rw [standing_some hf] at hfound
    exact (Target.found.inj hfound).1.symm

/-- A path that leads to a file leads nowhere once no file stands there. -/
theorem exists?_of_lost (h : SameWays t t') (hl : t.locate p = .ok (x, .file bytes changed))
    (lost : t'.find? x = none) : t'.exists? p = false := by
  obtain ⟨d, name, rfl, hr⟩ := h.resolve hl
  refine exists?_of_error (e := .system .noEntry) ?_
  unfold Tree.locate
  rw [hr, standing_none lost]

end SameWays

end Tree
end SourceSurvey
