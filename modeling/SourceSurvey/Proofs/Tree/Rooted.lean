import Mathlib.Data.List.Induction
import SourceSurvey.Proofs.PathMap
import SourceSurvey.Proofs.Tree.Names
import SourceSurvey.Tree.Absolute

/-!
# Rooted trees

Everything outside of some place stands once, under names, and in directories (`Tree.Rooted`). In
such a tree a file below a directory is found along the names that lead from there to it, unless its
path is beyond the limits (`Rooted.locate_below`), and its absolute path leads to it, or nowhere
(`Rooted.locate_pathOf`).
-/

namespace SourceSurvey

open SourceSurvey.Path (IsName)

/-- A place strictly below another one. -/
def Below (home q : Place) : Prop := home <+: q ∧ q ≠ home

instance (home q : Place) : Decidable (Below home q) :=
  inferInstanceAs (Decidable (home <+: q ∧ q ≠ home))

theorem Below.ne_nil {home q : Place} (h : Below home q) : q ≠ [] := by
  rintro rfl
  exact h.2 (List.prefix_nil.mp h.1).symm

theorem below_append {home ps : Place} (h : ps ≠ []) : Below home (home ++ ps) := by
  refine ⟨List.prefix_append _ _, fun he => h ?_⟩
  exact List.append_right_eq_self.mp he

namespace Tree

/-- Trees that differ below a home only. -/
structure Within (home : Place) (t t' : Tree) : Prop where
  current : t'.current = t.current
  now : t'.now = t.now
  outside : ∀ q, ¬ Below home q → t'.find? q = t.find? q
  nodes : ∀ e : Place × Node, ¬ Below home e.1 → (e ∈ t'.nodes ↔ e ∈ t.nodes)

namespace Within

variable {t t' t'' : Tree} {home : Place}

theorem refl (t : Tree) : Within home t t := ⟨rfl, rfl, fun _ _ => rfl, fun _ _ => .rfl⟩

theorem trans (h : Within home t t') (h' : Within home t' t'') : Within home t t'' where
  current := h'.current.trans h.current
  now := h'.now.trans h.now
  outside q hq := (h'.outside q hq).trans (h.outside q hq)
  nodes e he := (h'.nodes e he).trans (h.nodes e he)

theorem put {q : Place} (hq : Below home q) (n : Node) : Within home t (t.put q n) := by
  have hne {r : Place} (hr : ¬ Below home r) : r ≠ q := by
    rintro rfl
    exact hr hq
  refine ⟨current_put .., now_put .., fun r hr => ?_, fun e he => mem_nodes_put t n (hne he)⟩
  rw [find?_put t hq.ne_nil, if_neg (hne hr)]

theorem remove {q : Place} (hq : Below home q) : Within home t (t.remove q) := by
  have hne {r : Place} (hr : ¬ Below home r) : r ≠ q := by
    rintro rfl
    exact hr hq
  refine ⟨current_remove .., now_remove .., fun r hr => ?_, fun e he => mem_nodes_remove t (hne he)⟩
  rw [find?_remove t hq.ne_nil, if_neg (hne hr)]

theorem removeBelow {q : Place} (hq : Below home q) : Within home t (t.removeBelow q) := by
  have hnot {r : Place} (hr : ¬ Below home r) : ¬ q <+: r := by
    intro hqr
    refine hr ⟨hq.1.trans hqr, ?_⟩
    rintro rfl
    exact hq.2 (hqr.eq_of_length_le hq.1.length_le)
  refine ⟨current_removeBelow .., now_removeBelow .., fun r hr => ?_,
    fun e he => mem_nodes_removeBelow t (hnot he)⟩
  rw [find?_removeBelow t hq.ne_nil, if_neg (hnot hr)]

end Within

/-! ## What stands where -/

/-- Everything outside of a home stands there once, under names, and in a directory. -/
structure Rooted (home : Place) (t : Tree) : Prop where
  once : ∀ e ∈ t.nodes, ¬ Below home e.1 → t.find? e.1 = some e.2
  parent : ∀ e ∈ t.nodes, ¬ Below home e.1 → t.find? e.1.dropLast = some .directory
  names : ∀ e ∈ t.nodes, ¬ Below home e.1 → ∀ name ∈ e.1, IsName name

variable {t t' : Tree} {home d q r : Place} {p : Path} {n : Node} {bytes : List UInt8}
  {changed : Instant} {names : List String}

theorem mem_nodes_of_find? (hq : q ≠ []) (h : t.find? q = some n) : (q, n) ∈ t.nodes := by
  rw [find?_of_ne_nil t hq] at h
  generalize t.nodes = l at h
  induction l with
  | nil => exact nomatch h
  | cons e l ih =>
    obtain ⟨r, m⟩ := e
    rw [lookup_cons] at h
    split at h
    · rename_i hr
      rw [hr, Option.some.inj h]
      exact List.mem_cons_self
    · exact List.mem_cons_of_mem _ (ih h)

/-- Nothing stands below a place below which no node does. -/
theorem find?_of_bare (h : ∀ e ∈ t.nodes, ¬ Below home e.1) (hq : Below home q) :
    t.find? q = none := by
  cases hf : t.find? q with
  | none => rfl
  | some n => exact absurd hq (h _ (mem_nodes_of_find? hq.ne_nil hf))

theorem not_below_ancestor (h : ¬ Below home q) (hr : r <+: q) : ¬ Below home r := by
  intro hb
  refine h ⟨hb.1.trans hr, ?_⟩
  rintro rfl
  exact hb.2 (hr.eq_of_length_le hb.1.length_le)

namespace Rooted

/-- Trees that differ below a home only are rooted together. -/
theorem within (h : t.Rooted home) (hw : Within home t t') : t'.Rooted home where
  once e he hout := (hw.outside _ hout).trans (h.once e ((hw.nodes e hout).mp he) hout)
  parent e he hout :=
    (hw.outside _ (not_below_ancestor hout (List.dropLast_prefix _))).trans
      (h.parent e ((hw.nodes e hout).mp he) hout)
  names e he hout := h.names e ((hw.nodes e hout).mp he) hout

theorem isName (h : t.Rooted home) (hf : t.find? q = some n) (hout : ¬ Below home q) :
    ∀ name ∈ q, IsName name := by
  by_cases hq : q = []
  · rw [hq]
    exact nofun
  · exact h.names _ (mem_nodes_of_find? hq hf) hout

/-- Everything above something is a directory. -/
theorem directory (h : t.Rooted home) (hf : t.find? q = some n) (hout : ¬ Below home q)
    (hr : r <+: q) (hne : r ≠ q) : t.find? r = some .directory := by
  induction q using List.reverseRecOn generalizing n with
  | nil => exact absurd (List.prefix_nil.mp hr) hne
  | append_singleton q name ih =>
    have hparent : t.find? q = some .directory := by
      have := h.parent _ (mem_nodes_of_find? (by simp) hf) hout
      rwa [List.dropLast_concat] at this
    rcases List.prefix_concat_iff.mp hr with hr | hr
    · exact absurd hr hne
    · by_cases heq : r = q
      · rw [heq]
        exact hparent
      · exact ih hparent (not_below_ancestor hout (List.prefix_append _ _)) hr heq

/-- Names that lead from a directory to a file are followed, unless one of them is too long. -/
theorem walk_names (h : t.Rooted home) (hf : t.find? (d ++ names) = some (.file bytes changed))
    (hout : ¬ Below home (d ++ names)) (hne : names ≠ []) (follow : Bool) (links : Nat) :
    t.walk follow links d names =
      if ∀ name ∈ names, name.utf8ByteSize ≤ nameLimit then
        .ok (.found (d ++ names) (.file bytes changed))
      else .error .nameTooLong := by
  induction names generalizing d with
  | nil => exact absurd rfl hne
  | cons name names ih =>
    have hname : IsName name := h.isName hf hout name (by simp)
    have happ : d ++ name :: names = (d ++ [name]) ++ names := by simp
    by_cases hl : name.utf8ByteSize ≤ nameLimit
    · have henter := Enters.of_name hname hl
      cases names with
      | nil =>
        rw [walk_file henter hf, if_pos List.isEmpty_nil, if_pos]
        simpa using hl
      | cons name' names =>
        rw [happ] at hf hout
        have hdir : t.find? (d ++ [name]) = some .directory :=
          h.directory hf hout (List.prefix_append _ _) (by simp)
        rw [walk_directory henter hdir, ih hf hout nofun, ← happ]
        simp only [List.forall_mem_cons (a := name), hl, true_and]
    · have hnot : ¬ ∀ name' ∈ name :: names, name'.utf8ByteSize ≤ nameLimit :=
        fun hall => hl (hall name List.mem_cons_self)
      rw [walk, if_neg (by simp [hname.ne_empty, hname.ne_here]), if_neg hname.ne_up,
        if_pos (Nat.not_le.mp hl), if_neg hnot]

end Rooted

/-! ## Paths within the limits -/

end Tree

/-- A path that is not too long, of pieces that are not too long. -/
structure Path.Nameable (p : Path) : Prop where
  within : p.WithinLimits
  pieces : ∀ piece ∈ p.pieces, piece.utf8ByteSize ≤ Tree.nameLimit

/-- A short name below a path that the system takes. -/
theorem Path.Nameable.join {p : Path} (hp : p.Nameable) {name : String} (hn : IsName name)
    (nul : '\x00' ∉ name.toList) (short : name.utf8ByteSize ≤ Tree.nameLimit)
    (size : p.text.utf8ByteSize + 1 + name.utf8ByteSize ≤ Tree.pathLimit) :
    (p.join ⟨name⟩).Nameable := by
  have htext : (p.join ⟨name⟩).text = p.text ++ name ∨
      (p.join ⟨name⟩).text = p.text ++ "/" ++ name := by
    unfold Path.join
    rw [hn.not_absolute, if_neg Bool.false_ne_true]
    split
    · exact .inl rfl
    · exact .inr rfl
  have hslash : ("/" : String).utf8ByteSize = 1 := by decide
  have hnul : '\x00' ∉ ("/" : String).toList := by decide
  refine ⟨⟨?_, ?_⟩, fun piece hpiece => ?_⟩
  · rcases htext with h | h
    · rw [h, String.toList_append, List.mem_append, not_or]
      exact ⟨hp.within.no_nul, nul⟩
    · rw [h, String.toList_append, String.toList_append, List.mem_append, List.mem_append, not_or,
        not_or]
      exact ⟨⟨hp.within.no_nul, hnul⟩, nul⟩
  · rcases htext with h | h
    · rw [h, String.utf8ByteSize_append]
      omega
    · rw [h, String.utf8ByteSize_append, String.utf8ByteSize_append, hslash]
      exact size
  · rw [Path.pieces_join p hn] at hpiece
    rcases List.mem_append.mp hpiece with hpiece | hpiece
    · refine hp.pieces piece ?_
      rcases Path.pieces_open p with h | h
      · rwa [h]
      · rw [h]
        exact List.mem_append_left _ hpiece
    · rwa [List.mem_singleton.mp hpiece]

/-- A short name at a path is taken if a longer path below it is. -/
theorem Path.Nameable.above {p : Path} {inner file name : String}
    (hp : ((p.join ⟨inner⟩).join ⟨file⟩).Nameable) (hi : IsName inner) (hf : IsName file)
    (hn : IsName name) (nul : '\x00' ∉ name.toList) (short : name.utf8ByteSize ≤ Tree.nameLimit)
    (size : name.utf8ByteSize ≤ inner.utf8ByteSize + file.utf8ByteSize) :
    (p.join ⟨name⟩).Nameable := by
  obtain ⟨slash, htext⟩ := p.text_join
  obtain ⟨slash', htext'⟩ := (p.join ⟨inner⟩).text_join
  have hlong : ((p.join ⟨inner⟩).join ⟨file⟩).text = p.text ++ slash ++ inner ++ slash' ++ file := by
    rw [htext' file hf, htext inner hi]
  have hnul := hp.within.no_nul
  have hsize := hp.within.not_long
  rw [hlong] at hnul hsize
  refine ⟨⟨?_, ?_⟩, fun piece hpiece => ?_⟩
  · rw [htext name hn]
    simp only [String.toList_append, List.mem_append, not_or] at hnul ⊢
    exact ⟨hnul.1.1.1, nul⟩
  · rw [htext name hn]
    simp only [String.utf8ByteSize_append] at hsize ⊢
    omega
  · rw [Path.pieces_join p hn] at hpiece
    rcases List.mem_append.mp hpiece with hpiece | hpiece
    · refine hp.pieces piece ?_
      rw [Path.pieces_join _ hf, Path.openPieces_join p hi]
      exact List.mem_append_left _ (List.mem_append_left _ hpiece)
    · rwa [List.mem_singleton.mp hpiece]

namespace Tree

variable {t t' : Tree} {home d : Place} {p : Path} {n : Node} {bytes : List UInt8}
  {changed : Instant} {names : List String}

/-- No piece of a path that leads somewhere is too long. -/
theorem walk_pieces {follow : Bool} {links : Nat} {place : Place} {pieces : List String}
    {target : Target} (h : t.walk follow links place pieces = .ok target) :
    ∀ piece ∈ pieces, piece.utf8ByteSize ≤ nameLimit := by
  have short {piece : String} (hl : ¬ nameLimit < piece.utf8ByteSize) {rest : List String}
      (hr : ∀ piece ∈ rest, piece.utf8ByteSize ≤ nameLimit) :
      ∀ piece' ∈ piece :: rest, piece'.utf8ByteSize ≤ nameLimit :=
    List.forall_mem_cons.mpr ⟨Nat.not_lt.mp hl, hr⟩
  fun_induction walk t follow links place pieces with
  | case1 => exact List.forall_mem_nil _
  | case2 links place piece rest idle ih =>
    refine short ?_ (ih h)
    rcases (Bool.or_eq_true _ _).mp idle with hi | hi
    · rw [of_decide_eq_true hi]
      decide
    · rw [of_decide_eq_true hi]
      decide
  | case3 _ _ _ _ ih => exact short (by decide) (ih h)
  | case4 => cases h
  | case5 _ _ piece rest _ _ hl _ _ hall =>
    refine short hl fun piece hp => ?_
    have hempty : piece = "" := by simpa using List.all_eq_true.mp hall piece hp
    rw [hempty]
    decide
  | case6 => cases h
  | case7 _ _ _ _ _ _ hl _ _ ih => exact short hl (ih h)
  | case8 _ _ _ rest _ _ hl _ _ _ _ he =>
    rw [List.isEmpty_iff] at he
    rw [he]
    exact short hl (List.forall_mem_nil _)
  | case9 => cases h
  | case10 _ _ _ rest _ _ hl _ _ _ he =>
    rw [Bool.and_eq_true, List.isEmpty_iff] at he
    rw [he.1]
    exact short hl (List.forall_mem_nil _)
  | case11 => cases h
  | case12 _ _ rest _ _ hl _ _ _ _ _ _ ih =>
    exact short hl fun piece hp => ih h piece (List.mem_append_right _ hp)

/-- A path that leads to a file or a link leads to a place where it stands. -/
theorem find?_of_walk {follow : Bool} {links : Nat} {place : Place} {pieces : List String}
    (h : t.walk follow links place pieces = .ok (.found d n)) (hn : n ≠ .directory) :
    t.find? d = some n := by
  fun_induction walk t follow links place pieces with
  | case1 => exact absurd (Target.found.inj (Except.ok.inj h)).2.symm hn
  | case2 _ _ _ _ _ ih => exact ih h
  | case3 _ _ _ _ ih => exact ih h
  | case4 => cases h
  | case5 => cases h
  | case6 => cases h
  | case7 _ _ _ _ _ _ _ _ _ ih => exact ih h
  | case8 _ _ _ _ _ _ _ _ _ _ hf =>
    obtain ⟨rfl, rfl⟩ := Target.found.inj (Except.ok.inj h)
    exact hf
  | case9 => cases h
  | case10 _ _ _ _ _ _ _ _ _ hf =>
    obtain ⟨rfl, rfl⟩ := Target.found.inj (Except.ok.inj h)
    exact hf
  | case11 => cases h
  | case12 _ _ _ _ _ _ _ _ _ _ _ _ ih => exact ih h

theorem find?_of_locate (h : t.locate p = .ok (d, .file bytes changed)) :
    t.find? d = some (.file bytes changed) :=
  find?_of_walk (resolve_ok (locate_ok h)).2.2 nofun

theorem ne_nil_of_locate (h : t.locate p = .ok (d, .file bytes changed)) : d ≠ [] := by
  rintro rfl
  exact nomatch find?_of_locate h

theorem nameable_of_locate (h : t.locate p = .ok (d, n)) : p.Nameable := by
  obtain ⟨hp, -, hw⟩ := resolve_ok (locate_ok h)
  exact ⟨hp, walk_pieces hw⟩

/-! ## Absolute paths -/

theorem pathOf_eq (place : Place) (hne : place ≠ []) :
    pathOf place = ⟨"/".intercalate ("" :: place)⟩ := by
  unfold pathOf
  rw [String.intercalate_cons_of_ne_nil hne, String.empty_append]

theorem pieces_pathOf {place : Place} (hn : ∀ name ∈ place, IsName name) (hne : place ≠ []) :
    (pathOf place).pieces = "" :: place := by
  rw [pathOf_eq place hne]
  refine Path.pieces_intercalate nofun fun name hm => ?_
  rcases List.mem_cons.mp hm with rfl | hm
  · decide
  · exact (hn name hm).no_slash

theorem head_pathOf (place : Place) : (pathOf place).text.toList.head? = some '/' := by
  unfold pathOf
  simp

theorem isAbsolute_pathOf (place : Place) : (pathOf place).isAbsolute = true :=
  decide_eq_true (head_pathOf place)

theorem text_pathOf_ne_empty (place : Place) : (pathOf place).text ≠ "" := by
  intro h
  have := head_pathOf place
  rw [h] at this
  exact nomatch this

/-- The steps of an absolute path are the root and the names of its place. -/
theorem components_pathOf {place : Place} (hn : ∀ name ∈ place, IsName name) (hne : place ≠ []) :
    (pathOf place).components = .root :: place.map .name := by
  have hfilter : place.filter (!Path.isIdle ·) = place := by
    refine List.filter_eq_self.mpr fun name hm => ?_
    rw [(hn name hm).not_idle]
    rfl
  have hmap : place.map Component.ofPiece = place.map .name :=
    List.map_congr_left fun name hm => (hn name hm).ofPiece
  unfold Path.components
  rw [pieces_pathOf hn hne]
  dsimp only
  rw [if_pos (isAbsolute_pathOf place), hfilter, hmap]

/-- Absolute paths of different places have different components. -/
theorem pathOf_same {place place' : Place} (hn : ∀ name ∈ place, IsName name)
    (hn' : ∀ name ∈ place', IsName name) (hne : place ≠ []) (hne' : place' ≠ [])
    (h : (pathOf place).same (pathOf place') = true) : place = place' := by
  have hc := Path.same_iff.mp h
  rw [components_pathOf hn hne, components_pathOf hn' hne'] at hc
  have hinj : Function.Injective Component.name := fun _ _ h => Component.name.inj h
  exact List.map_injective_iff.mpr hinj (List.cons.inj hc).2

/-! ## Files of a rooted tree -/

/-- Where a path of a file leads: to the file, unless the system does not take the path. -/
def Reaches (t : Tree) (p : Path) (place : Place) (n : Node) : Prop :=
  p.Nameable ∧ t.locate p = .ok (place, n) ∨ ¬ p.Nameable ∧ t.locate p = .error p.refusal

/-- A path of a file is followed to a given place along names that may be too long. -/
theorem reaches_of_names (names : List String) {place : Place}
    (hp : ∀ name ∈ names, name ∈ p.pieces)
    (hshort : (∀ name ∈ names, name.utf8ByteSize ≤ nameLimit) →
      ∀ piece ∈ p.pieces, piece.utf8ByteSize ≤ nameLimit)
    (hr : p.WithinLimits → t.resolve true p = followed
      (if ∀ name ∈ names, name.utf8ByteSize ≤ nameLimit then .ok (.found place n)
        else .error .nameTooLong)) : t.Reaches p place n := by
  by_cases hl : p.WithinLimits
  · have hr := hr hl
    by_cases hs : ∀ name ∈ names, name.utf8ByteSize ≤ nameLimit
    · rw [if_pos hs] at hr
      exact .inl ⟨⟨hl, hshort hs⟩, locate_of_resolve hr⟩
    · rw [if_neg hs] at hr
      refine .inr ⟨fun hn => hs fun name h => hn.pieces name (hp name h), ?_⟩
      unfold locate
      rw [hr, hl.refusal]
      rfl
  · refine .inr ⟨fun hn => hl hn.within, ?_⟩
    unfold locate
    rw [resolve_of_not_within hl]

namespace Rooted

/-- A file below a directory is found along the names that lead there. -/
theorem locate_below (h : t.Rooted home) (hd : t.locate p = .ok (d, .directory))
    (hf : t.find? (d ++ names) = some (.file bytes changed)) (hout : ¬ Below home (d ++ names))
    (hne : names ≠ []) :
    t.Reaches (Discovery.pathBelow p names) (d ++ names) (.file bytes changed) := by
  have hn : ∀ name ∈ names, IsName name :=
    fun name hm => h.isName hf hout name (List.mem_append_right _ hm)
  have hpieces := Discovery.pieces_pathBelow p hn hne
  have hopen : ∀ piece ∈ p.openPieces, piece.utf8ByteSize ≤ nameLimit := by
    intro piece hm
    refine (nameable_of_locate hd).pieces piece ?_
    rcases p.pieces_open with hp | hp
    · rwa [hp]
    · rw [hp]
      exact List.mem_append_left _ hm
  refine reaches_of_names names (fun name hm => ?_) (fun hs piece hm => ?_) fun hl => ?_
  · rw [hpieces]
    exact List.mem_append_right _ hm
  · rw [hpieces] at hm
    rcases List.mem_append.mp hm with hm | hm
    · exact hopen piece hm
    · exact hs piece hm
  · obtain ⟨links, hr⟩ := resolve_below hd names hn hne hl
    rw [hr true, h.walk_names hf hout hne]

/-- The absolute path of a file leads to it. -/
theorem locate_pathOf (h : t.Rooted home) {place : Place}
    (hf : t.find? place = some (.file bytes changed)) (hout : ¬ Below home place) :
    t.Reaches (pathOf place) place (.file bytes changed) := by
  have hn := h.isName hf hout
  have hne : place ≠ [] := by
    rintro rfl
    exact nomatch hf
  have hpieces := pieces_pathOf hn hne
  refine reaches_of_names place (fun name hm => ?_) (fun hs piece hm => ?_) fun hl => ?_
  · rw [hpieces]
    exact List.mem_cons_of_mem _ hm
  · rw [hpieces] at hm
    rcases List.mem_cons.mp hm with rfl | hm
    · decide
    · exact hs piece hm
  · have hstart : t.start (pathOf place) = [] := if_pos (isAbsolute_pathOf place)
    rw [resolve_eq hl (text_pathOf_ne_empty place), hstart, hpieces, walk_idle (by decide)]
    exact congrArg followed (walk_names (d := []) h hf hout hne true linkLimit)

end Rooted

/-! ## Keys -/

theorem key_of_locate {place : Place} (h : t.locate p = .ok (place, n)) :
    t.key p = pathOf place := by
  unfold key canonical
  rw [h]
  rfl

/-- The path under which a file is remembered leads to its bytes, if it leads anywhere. -/
theorem Rooted.locate_key (h : t.Rooted home) {place place' : Place} {bytes' : List UInt8}
    {changed' : Instant} (hl : t.locate p = .ok (place, .file bytes changed))
    (hout : ¬ Below home place)
    (hk : t.locate (t.key p) = .ok (place', .file bytes' changed')) : bytes' = bytes := by
  rw [key_of_locate hl] at hk
  rcases h.locate_pathOf (find?_of_locate hl) hout with ⟨-, hr⟩ | ⟨-, hr⟩
  · obtain ⟨-, hnode⟩ := Prod.mk.inj (Except.ok.inj (hk.symm.trans hr))
    exact (Node.file.inj hnode).1
  · exact nomatch hk.symm.trans hr

/-- The path under which a missing file is remembered depends on the current directory only. -/
theorem key_congr_of_error {e e' : IoFailure} (h : t.locate p = .error e)
    (h' : t'.locate p = .error e') (hc : t.current = t'.current) : t.key p = t'.key p := by
  have hspell : t.spell p = t'.spell p := by
    unfold spell
    rw [hc]
  unfold key canonical
  rw [h, h', hspell]
  rfl

theorem key_congr (h : t.locate p = t'.locate p) (hc : t.current = t'.current) :
    t.key p = t'.key p := by
  cases hl : t'.locate p with
  | error e => exact key_congr_of_error (h.trans hl) hl hc
  | ok x => rw [key_of_locate (h.trans hl), key_of_locate hl]

end Tree
end SourceSurvey
