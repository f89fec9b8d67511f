import SourceSurvey.Cache.Basic
import SourceSurvey.Proofs.Tree.Rooted
import SourceSurvey.Proofs.Tree.Slot

/-!
# The home of a cache

The directory of a cache as it stands in a tree: an own directory for the payloads, and otherwise
nothing but files (`Tree.Houses`). Every file of a cache is a slot of its home (`Houses.slotAt`), so
nothing that a cache does reaches beyond its home.

* `Cache.writeFile_spec`: writing a file beside its place and moving it there puts the bytes there,
  or leaves what was there, and touches nothing but the draft.
-/

namespace SourceSurvey

open SourceSurvey.Path (IsName)

namespace Tree

/-- A tree in which the path of a directory leads to a home, whatever stands below the home, and
in which nothing but files stands below it beside the directory of the payloads. -/
structure Houses (t : Tree) (dir : Path) (home : Place) : Prop where
  leads : ∀ t' : Tree, t'.current = t.current → (∀ q, ¬ Below home q → t'.find? q = t.find? q) →
    t'.locate dir = .ok (home, .directory)
  entries : t.find? (home ++ ["entries"]) = none ∨
    t.find? (home ++ ["entries"]) = some .directory
  files : ∀ q, Below home q → q ≠ home ++ ["entries"] → t.FileOnly q

namespace Houses

variable {t t' : Tree} {dir b : Path} {home d : Place} {name : String}

theorem locate (h : t.Houses dir home) : t.locate dir = .ok (home, .directory) :=
  h.leads t rfl fun _ _ => rfl

/-- A tree that differs below the home only, where files replace files, still houses the cache. -/
theorem change (h : t.Houses dir home) (current : t'.current = t.current)
    (same : ∀ q, ¬ Below home q → t'.find? q = t.find? q)
    (entries : t'.find? (home ++ ["entries"]) = none ∨
      t'.find? (home ++ ["entries"]) = some .directory)
    (files : ∀ q, Below home q → q ≠ home ++ ["entries"] → t'.FileOnly q) : t'.Houses dir home where
  leads t'' hc hs := h.leads t'' (hc.trans current) fun q hq => (hs q hq).trans (same q hq)
  entries := entries
  files := files

/-- The directories of a home: itself and that of the payloads. -/
inductive Area (dir : Path) (home : Place) : Path → Place → Prop
  | top : Area dir home dir home
  | entries : Area dir home (dir.join ⟨"entries"⟩) (home ++ ["entries"])

theorem Area.below (h : Area dir home b d) (name : String) : Below home (d ++ [name]) := by
  cases h with
  | top => exact below_append nofun
  | entries =>
    rw [List.append_assoc]
    exact below_append nofun

theorem isName_entries : IsName "entries" := by decide

/-- A name in a home at which there is no link leads to what stands there, unless it leads nowhere
for another reason than that something is missing. -/
theorem resolve_top (h : t.Houses dir home) (hn : IsName name)
    (nolink : ∀ target, t.find? (home ++ [name]) ≠ some (.link target)) (follow : Bool) :
    (∃ e : IoFailure, e.kind ≠ .notFound ∧ t.resolve follow (dir.join ⟨name⟩) = .error e) ∨
      t.resolve follow (dir.join ⟨name⟩) = .ok (t.standing home name) := by
  by_cases hl : (dir.join ⟨name⟩).WithinLimits
  · obtain ⟨links, hr⟩ := resolve_below h.locate [name] (by simpa using hn) nofun hl
    have hr := hr follow
    rcases walk_name hn nolink follow links with hw | hw
    · rw [hw] at hr
      exact .inl ⟨_, by decide, hr⟩
    · rw [hw] at hr
      exact .inr hr
  · exact .inl ⟨_, (dir.join ⟨name⟩).refusal_kind, resolve_of_not_within hl t follow⟩

theorem slotAt_top (h : t.Houses dir home) (hn : IsName name)
    (nolink : ∀ target, t.find? (home ++ [name]) ≠ some (.link target)) :
    t.SlotAt (dir.join ⟨name⟩) home name := by
  intro follow
  rcases h.resolve_top hn nolink follow with ⟨e, -, he⟩ | ho
  · exact .inl ⟨e, he⟩
  · exact .inr ho

theorem not_link_entries (h : t.Houses dir home) (target : String) :
    t.find? (home ++ ["entries"]) ≠ some (.link target) := by
  intro hf
  rcases h.entries with he | he
  · exact nomatch he.symm.trans hf
  · exact nomatch he.symm.trans hf

/-- The directory of the payloads is a slot of the home. -/
theorem slotAt_entries (h : t.Houses dir home) :
    t.SlotAt (dir.join ⟨"entries"⟩) home "entries" :=
  h.slotAt_top isName_entries h.not_link_entries

/-- A file of a cache is a slot of its home. -/
theorem slotAt (h : t.Houses dir home) (hb : Area dir home b d) (hn : IsName name)
    (hne : d ++ [name] ≠ home ++ ["entries"]) : t.SlotAt (b.join ⟨name⟩) d name := by
  have hfile := h.files _ (hb.below name) hne
  have nolink : ∀ target, t.find? (d ++ [name]) ≠ some (.link target) :=
    fun target hf => nomatch hfile _ hf
  cases hb with
  | top => exact h.slotAt_top hn nolink
  | entries =>
    intro follow
    by_cases hl : ((dir.join ⟨"entries"⟩).join ⟨name⟩).WithinLimits
    · obtain ⟨links, hr⟩ := resolve_below h.locate ["entries", name]
        (by simpa using ⟨isName_entries, hn⟩) nofun hl
      have hr := hr follow
      have henter : Enters "entries" := .of_name isName_entries (by decide)
      rcases h.entries with he | he
      · rw [walk_none henter he, if_neg (by simp [hn.ne_empty])] at hr
        exact .inl ⟨_, hr⟩
      · rw [walk_directory henter he] at hr
        rcases walk_name hn nolink follow links with hw | hw
        · rw [hw] at hr
          exact .inl ⟨_, hr⟩
        · rw [hw] at hr
          exact .inr hr
    · exact .inl ⟨_, resolve_of_not_within hl t follow⟩

/-- A file of a cache is found at its slot if the system takes its path and the directory of the
payloads stands. -/
theorem resolve_nameable (h : t.Houses dir home)
    (made : t.find? (home ++ ["entries"]) = some .directory) (hb : Area dir home b d)
    (hn : IsName name) (hne : d ++ [name] ≠ home ++ ["entries"])
    (hp : (b.join ⟨name⟩).Nameable) (follow : Bool) :
    t.resolve follow (b.join ⟨name⟩) = .ok (t.standing d name) := by
  have hfile := h.files _ (hb.below name) hne
  have nolink : ∀ target, t.find? (d ++ [name]) ≠ some (.link target) :=
    fun target hf => nomatch hfile _ hf
  have hshort : name.utf8ByteSize ≤ nameLimit := by
    refine hp.pieces name ?_
    rw [Path.pieces_join b hn]
    exact List.mem_append_right _ List.mem_cons_self
  cases hb with
  | top =>
    obtain ⟨links, hr⟩ := resolve_below h.locate [name] (by simpa using hn) nofun hp.within
    exact (hr follow).trans (congrArg followed (walk_short hn hshort nolink follow links))
  | entries =>
    obtain ⟨links, hr⟩ := resolve_below h.locate ["entries", name]
      (by simpa using ⟨isName_entries, hn⟩) nofun hp.within
    have hwalk := hr follow
    rw [walk_directory (.of_name isName_entries (by decide)) made] at hwalk
    exact hwalk.trans (congrArg followed (walk_short hn hshort nolink follow links))

theorem put (h : t.Houses dir home) {q : Place} (hq : Below home q)
    (hne : q ≠ home ++ ["entries"]) {n : Node} (hn : n.IsFile) : (t.put q n).Houses dir home := by
  have hnil := hq.ne_nil
  refine h.change (current_put ..) ?_ ?_ ?_
  · intro r hr
    rw [find?_put t hnil, if_neg]
    rintro rfl
    exact hr hq
  · rw [find?_put t hnil, if_neg hne.symm]
    exact h.entries
  · intro r hr hre m hm
    rw [find?_put t hnil] at hm
    split at hm
    · rwa [← Option.some.inj hm]
    · exact h.files r hr hre m hm

theorem remove (h : t.Houses dir home) {q : Place} (hq : Below home q) :
    (t.remove q).Houses dir home := by
  have hnil := hq.ne_nil
  refine h.change (current_remove ..) ?_ ?_ ?_
  · intro r hr
    rw [find?_remove t hnil, if_neg]
    rintro rfl
    exact hr hq
  · rw [find?_remove t hnil]
    split
    · exact .inl rfl
    · exact h.entries
  · intro r hr hre m hm
    rw [find?_remove t hnil] at hm
    split at hm
    · exact nomatch hm
    · exact h.files r hr hre m hm

end Houses

/-- Trees that differ in the files of a home only. -/
structure Rewrites (home : Place) (t t' : Tree) : Prop extends Within home t t' where
  entries : t'.find? (home ++ ["entries"]) = t.find? (home ++ ["entries"])

namespace Rewrites

variable {t t' t'' : Tree} {home : Place}

theorem refl (t : Tree) : Rewrites home t t := ⟨.refl t, rfl⟩

theorem trans (h : Rewrites home t t') (h' : Rewrites home t' t'') : Rewrites home t t'' where
  toWithin := h.toWithin.trans h'.toWithin
  entries := h'.entries.trans h.entries

/-- What is no file of the home stays. -/
theorem keep {dir : Path} (h : Rewrites home t t') (houses : t.Houses dir home) {q : Place}
    {n : Node} (hf : t.find? q = some n) (hk : ¬ n.IsFile ∨ ¬ Below home q) :
    t'.find? q = some n := by
  by_cases hq : Below home q
  · by_cases he : q = home ++ ["entries"]
    · rw [he] at hf ⊢
      rw [h.entries, hf]
    · rcases hk with hk | hk
      · exact absurd (houses.files q hq he n hf) hk
      · exact absurd hq hk
  · rw [h.outside q hq, hf]

theorem put {q : Place} (hq : Below home q) (hne : q ≠ home ++ ["entries"]) (n : Node) :
    Rewrites home t (t.put q n) := by
  refine ⟨.put hq n, ?_⟩
  rw [find?_put t (hq.ne_nil), if_neg hne.symm]

theorem remove {q : Place} (hq : Below home q) (hne : q ≠ home ++ ["entries"]) :
    Rewrites home t (t.remove q) := by
  refine ⟨.remove hq, ?_⟩
  rw [find?_remove t (hq.ne_nil), if_neg hne.symm]

end Rewrites

/-! ## Making and clearing a home -/

namespace Houses

variable {t t' : Tree} {dir : Path} {home : Place}

/-- Making the directory of the payloads touches nothing else. -/
theorem createDirectories (h : t.Houses dir home) {r : Except IoFailure Unit}
    (hc : t.createDirectories (dir.join ⟨"entries"⟩) = (t', r)) :
    t'.Houses dir home ∧ Within home t t' ∧
      ∀ q, q ≠ home ++ ["entries"] → t'.find? q = t.find? q := by
  have hp : (dir.join ⟨"entries"⟩).text ≠ "" := Discovery.text_join_ne_empty dir isName_entries
  have hbelow : Below home (home ++ ["entries"]) := below_append nofun
  have hres := h.resolve_top isName_entries h.not_link_entries false
  rcases t.createDirectories_cases hp with ⟨t₁, hd, hc'⟩ | ⟨e, hd, hc'⟩
  · obtain rfl : t₁ = t' := congrArg Prod.fst (hc'.symm.trans hc)
    unfold createDirectory at hd
    obtain ⟨target, hr, hd⟩ := bind_ok hd
    obtain rfl := eq_of_resolve (hres.imp_left fun ⟨e, _, he⟩ => ⟨e, he⟩) hr
    rcases h.entries with he | he
    · rw [standing_none he] at hd
      obtain rfl := Except.ok.inj hd
      have hf (q : Place) := find?_put t (hbelow.ne_nil) .directory q
      refine ⟨h.change (current_put ..) (Within.put hbelow _).outside ?_ ?_, .put hbelow _, ?_⟩
      · rw [hf, if_pos rfl]
        exact .inr rfl
      · intro q hq hne n hn
        rw [hf, if_neg hne] at hn
        exact h.files q hq hne n hn
      · intro q hne
        rw [hf, if_neg hne]
    · rw [standing_some he] at hd
      exact nomatch hd
  · have hkind : e.kind ≠ .notFound := by
      unfold createDirectory at hd
      rcases hres with ⟨e', hk, he⟩ | ho
      · rw [he] at hd
        obtain rfl := Except.error.inj hd
        exact hk
      · rw [ho] at hd
        rcases h.entries with he | he
        · rw [standing_none he] at hd
          exact nomatch hd
        · rw [standing_some he] at hd
          obtain rfl := Except.error.inj hd
          decide
    obtain rfl : t = t' := (hc' hkind).symm.trans (congrArg Prod.fst hc)
    exact ⟨h, .refl t, fun _ _ => rfl⟩

/-- Removing the directory of the payloads leaves the home. -/
theorem removeBelow (h : t.Houses dir home) :
    (t.removeBelow (home ++ ["entries"])).Houses dir home := by
  have hbelow : Below home (home ++ ["entries"]) := below_append nofun
  have hf (q : Place) := find?_removeBelow t (hbelow.ne_nil) q
  refine h.change (current_removeBelow ..) (Within.removeBelow hbelow).outside (.inl ?_) ?_
  · rw [hf, if_pos List.prefix_rfl]
  · intro q hq hne n hn
    rw [hf] at hn
    split at hn
    · exact nomatch hn
    · exact h.files q hq hne n hn

end Houses
end Tree

/-! ## The files of a cache -/

open SourceSurvey.Tree (Houses Rewrites)
open SourceSurvey.Tree.Houses (Area)

namespace Cache

variable {t t' : Tree} {dir b : Path} {home d : Place} {stem : String}

/-- The last name of a file of a cache. -/
def fileName (stem : String) : String := stem ++ "." ++ "json"

/-- The last name of a draft beside a file of a cache. -/
def draftName (stem : String) (n : Nat) : String := stem ++ "." ++ ("tmp." ++ toString n)

theorem isName_fileName (hs : '/' ∉ stem.toList) : IsName (fileName stem) := by
  refine .of_mem (c := 'j') (by simp [fileName]) (by decide) ?_
  simpa [fileName] using hs

theorem isName_draftName (hs : '/' ∉ stem.toList) (n : Nat) : IsName (draftName stem n) := by
  refine .of_mem (c := 't') (by simp [draftName]) (by decide) ?_
  have hd : '/' ∉ Nat.toDigits 10 n := by
    intro h
    exact absurd (Nat.isDigit_of_mem_toDigits (by decide) (by decide) h) (by decide)
  simpa [draftName] using ⟨hs, hd⟩

/-- No draft is a file of a cache. -/
theorem draftName_ne_fileName (stem stem' : String) (n : Nat) :
    draftName stem n ≠ fileName stem' := by
  intro h
  have hlist : (stem.toList ++ ['.', 't', 'm', 'p', '.']) ++ Nat.toDigits 10 n =
      (stem'.toList ++ ['.', 'j', 's', 'o']) ++ ['n'] := by
    simpa [draftName, fileName] using congrArg String.toList h
  have hlast := congrArg List.getLast? hlist
  rw [List.getLast?_append_of_ne_nil _ Nat.toDigits_ne_nil, List.getLast?_concat] at hlast
  have hdigit := Nat.isDigit_of_mem_toDigits (by decide) (by decide)
    (List.mem_of_getLast? hlast)
  exact absurd hdigit (by decide)

theorem fileName_inj {stem stem' : String} (h : fileName stem = fileName stem') : stem = stem' := by
  have h := congrArg String.toList h
  simp only [fileName, String.toList_append, List.append_assoc] at h
  exact String.toList_inj.mp (List.append_cancel_right h)

theorem dot_mem_ne_entries {name : String} (h : '.' ∈ name.toList) : name ≠ "entries" := by
  rintro rfl
  exact absurd h (by decide)

theorem area_ne_entries (hb : Area dir home b d) {name : String} (h : '.' ∈ name.toList) :
    d ++ [name] ≠ home ++ ["entries"] := by
  intro he
  cases hb with
  | top => exact dot_mem_ne_entries h (List.singleton_inj.mp (List.append_cancel_left he))
  | entries =>
    have := congrArg List.length he
    simp at this

theorem file_ne_entries (hb : Area dir home b d) (stem : String) :
    d ++ [fileName stem] ≠ home ++ ["entries"] :=
  area_ne_entries hb (by simp [fileName])

theorem draft_ne_entries (hb : Area dir home b d) (stem : String) (n : Nat) :
    d ++ [draftName stem n] ≠ home ++ ["entries"] :=
  area_ne_entries hb (by simp [draftName])

/-- The path of a file of a cache and that of a draft beside it. -/
theorem draft_path (b : Path) (hs : stem ≠ "") (hn : '/' ∉ stem.toList) (n : Nat) :
    (b.join ⟨fileName stem⟩).withExtension ("tmp." ++ toString n) =
      b.join ⟨draftName stem n⟩ := by
  refine Path.withExtension_join b hs (by decide) (isName_fileName hn) (isName_draftName hn n) ?_
  intro h
  have := congrArg String.toList h
  simp at this

/-- Writing a file of a cache puts the bytes there or leaves what was there, and touches nothing
but the draft beside it. -/
theorem writeFile_spec (c : Cache) (h : t.Houses dir home) (hb : Area dir home b d)
    (hs : stem ≠ "") (hn : '/' ∉ stem.toList) (bytes : List UInt8) :
    ∃ t' r, c.writeFile t (b.join ⟨fileName stem⟩) bytes =
        ({ c with drafts := c.drafts + 1 }, t', r) ∧
      t'.Houses dir home ∧ Rewrites home t t' ∧
      (∀ q, q ≠ d ++ [fileName stem] → q ≠ d ++ [draftName stem c.drafts] →
        t'.find? q = t.find? q) ∧
      match r with
      | .ok () => ∃ changed, t'.find? (d ++ [fileName stem]) = some (.file bytes changed)
      | .error _ => t'.find? (d ++ [fileName stem]) = t.find? (d ++ [fileName stem]) := by
  have hfile := isName_fileName hn
  have hdraft := isName_draftName hn c.drafts
  have hne := file_ne_entries hb stem
  have hne' := draft_ne_entries hb stem c.drafts
  have hdiff : d ++ [fileName stem] ≠ d ++ [draftName stem c.drafts] := by
    intro he
    exact draftName_ne_fileName _ _ _ (List.singleton_inj.mp (List.append_cancel_left he)).symm
  have hbelow := hb.below (fileName stem)
  have hbelow' := hb.below (draftName stem c.drafts)
  have hnil := hbelow.ne_nil
  have hnil' := hbelow'.ne_nil
  unfold writeFile
  simp only [draft_path b hs hn]
  cases hw : t.write (b.join ⟨draftName stem c.drafts⟩) bytes with
  | error e => exact ⟨t, _, rfl, h, .refl t, fun _ _ _ => rfl, rfl⟩
  | ok t₁ =>
    obtain rfl := (h.slotAt hb hdraft hne').write (h.files _ hbelow' hne') hw
    have h₁ := h.put hbelow' hne' (.intro bytes t.now)
    have hr₁ : Rewrites home t (t.put (d ++ [draftName stem c.drafts]) (.file bytes t.now)) :=
      .put hbelow' hne' _
    have hf₁ (q : Place) := Tree.find?_put t hnil' (.file bytes t.now) q
    cases hm : (t.put (d ++ [draftName stem c.drafts]) (.file bytes t.now)).rename
        (b.join ⟨draftName stem c.drafts⟩) (b.join ⟨fileName stem⟩) with
    | error e =>
      simp only [hm]
      refine ⟨_, _, rfl, h₁, hr₁, fun q _ hq => ?_, ?_⟩
      · rw [hf₁, if_neg hq]
      · simp only [hf₁, if_neg hdiff]
    | ok t₂ =>
      obtain ⟨node, hnode, rfl⟩ := (h₁.slotAt hb hdraft hne').rename (h₁.slotAt hb hfile hne)
        (draftName_ne_fileName _ _ _) hm
      rw [hf₁, if_pos rfl] at hnode
      obtain rfl := Option.some.inj hnode
      simp only [hm]
      refine ⟨_, _, rfl, (h₁.remove hbelow').put hbelow hne (.intro ..),
        (hr₁.trans (.remove hbelow' hne')).trans (.put hbelow hne _), fun q hq hq' => ?_, ?_⟩
      · rw [Tree.find?_put _ hnil, if_neg hq, Tree.find?_remove _ hnil', if_neg hq', hf₁, if_neg hq']
      · exact ⟨t.now, by rw [Tree.find?_put _ hnil, if_pos rfl]⟩

/-- A cache that is opened where there is no index knows nothing. -/
theorem readIndex_of_missing (h : t.Houses dir home)
    (hf : t.find? (home ++ ["index.json"]) = none) (version : Nat) :
    readIndex version t (dir.join ⟨"index.json"⟩) = .empty := by
  have hname : IsName "index.json" := by decide
  have hslot := h.slotAt .top hname (area_ne_entries (@Area.top dir home) (by decide))
  unfold readIndex
  cases hr : t.readText (dir.join ⟨"index.json"⟩) with
  | error e => rfl
  | ok text =>
    obtain ⟨bytes, changed, hb, -⟩ := hslot.readText hr
    exact nomatch hf.symm.trans hb

/-- Writing a file of a cache succeeds if the system takes its path and that of the draft. -/
theorem writeFile_ok (c : Cache) (h : t.Houses dir home)
    (made : t.find? (home ++ ["entries"]) = some .directory) (hb : Area dir home b d)
    (hs : stem ≠ "") (hn : '/' ∉ stem.toList) (hp : (b.join ⟨fileName stem⟩).Nameable)
    (hp' : (b.join ⟨draftName stem c.drafts⟩).Nameable) (bytes : List UInt8) :
    (c.writeFile t (b.join ⟨fileName stem⟩) bytes).2.2 = .ok () := by
  have hfile := isName_fileName hn
  have hdraft := isName_draftName hn c.drafts
  have hne := file_ne_entries hb stem
  have hne' := draft_ne_entries hb stem c.drafts
  have hbelow := hb.below (fileName stem)
  have hbelow' := hb.below (draftName stem c.drafts)
  have hput := h.put hbelow' hne' (.intro bytes t.now)
  have hfind (q : Place) :=
    Tree.find?_put t hbelow'.ne_nil (.file bytes t.now) q
  have hmade : (t.put (d ++ [draftName stem c.drafts]) (.file bytes t.now)).find?
      (home ++ ["entries"]) = some .directory := by
    rw [hfind, if_neg hne'.symm, made]
  have hwrite := Tree.write_ok (h.resolve_nameable made hb hdraft hne' hp' true)
    (h.files _ hbelow' hne') bytes
  have hrename := Tree.rename_ok hfile (hput.resolve_nameable hmade hb hdraft hne' hp' false)
    (hput.resolve_nameable hmade hb hfile hne hp false) (draftName_ne_fileName _ _ _)
    ((hfind _).trans (if_pos rfl)) (hput.files _ hbelow hne)
  unfold writeFile
  simp only [draft_path b hs hn, hwrite, hrename]

end Cache
end SourceSurvey
