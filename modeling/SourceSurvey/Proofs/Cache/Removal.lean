import SourceSurvey.Proofs.Cache.Shelf
import SourceSurvey.Proofs.Tree.Canonical

/-!
# Removing what was stored

A record is removed under the key that its path has at that moment, and so is its payload file. What
is left depends on two things: which paths keep their keys while a cache writes below its home, and
which payload files several removals one after the other take away.

* `Site.Apart`: a path that a step cannot reach keeps its place and its key.
* `Cache.At.forgotten_invalidate`: nothing is left of a result whose record was removed.
* `Cache.At.invalidateAll`: what several removals leave of the cache (`Cache.without`) and of the files
  (`Site.Drops`), if each path stays its own key.
-/

namespace SourceSurvey

open SourceSurvey.Tree (Houses)

/-! ## Homes among changing files -/

namespace Tree

variable {t t' : Tree} {dir : Path} {home q : Place}

/-- The tree with nothing below a place. -/
def hollow (t : Tree) (home : Place) : Tree :=
  { t with nodes := t.nodes.filter fun e => !decide (Below home e.1) }

theorem find?_hollow (t : Tree) (home q : Place) :
    (t.hollow home).find? q = if Below home q then none else t.find? q := by
  by_cases hq : q = []
  · subst hq
    rw [if_neg fun h => h.ne_nil rfl]
    rfl
  · rw [find?_of_ne_nil _ hq, find?_of_ne_nil _ hq]
    unfold hollow
    rw [lookup_filter t.nodes fun e => !decide (Below home e)]
    by_cases h : Below home q
    · rw [if_pos h, if_neg (by simpa using h)]
    · rw [if_neg h, if_pos (by simpa using h)]

theorem SameWays.made (ways : t.SameWays t') (made : t.find? (home ++ ["entries"]) = some .directory) :
    t'.find? (home ++ ["entries"]) = some .directory :=
  (ways.ways _ .directory nofun).mpr made

/-- A tree with the same directories and links houses a cache of which the directory of the payloads
stands. -/
theorem Houses.sameWays (h : t.Houses dir home)
    (made : t.find? (home ++ ["entries"]) = some .directory) (ways : t.SameWays t') :
    t'.Houses dir home where
  leads s current same := by
    have hhollow := h.leads (t.hollow home) rfl fun q hq => by rw [find?_hollow, if_neg hq]
    refine locate_directory_mono hhollow (current.trans ways.current) fun q m hm hfile => ?_
    rw [find?_hollow] at hm
    split at hm
    · exact nomatch hm
    · rw [same q ‹_›, ways.ways q m hfile]
      exact hm
  entries := .inr (ways.made made)
  files q hq hne := ways.fileOnly (h.files q hq hne)

end Tree

/-! ## Paths apart from a step -/

namespace Site

variable {site : Site} {t t' : Tree} {p : Path} {place x : Place} {n : Node}

/-- A step of a cache leaves directories and links as they are. -/
theorem Touches.sameWays (h : site.Touches place t t')
    (houses : t.Houses site.directory site.home) : t.SameWays t' := by
  refine ⟨h.rewrites.current, fun q n hn => ⟨fun hf => ?_, fun hf => ?_⟩⟩
  · by_cases hq : Below site.home q
    · by_cases he : q = site.home ++ ["entries"]
      · rw [he] at hf ⊢
        rw [← h.rewrites.entries, hf]
      · exact absurd (h.houses.files q hq he n hf) hn
    · rw [← h.rewrites.outside q hq, hf]
  · exact h.rewrites.keep houses hf (.inl hn)

/-- Whatever a step writes at a place and as drafts, a path leads to none of these. -/
def Apart (site : Site) (place : Place) (t : Tree) (p : Path) : Prop :=
  ∀ t', site.Touches place t t' → ∀ x n, t'.locate p = .ok (x, n) → x ≠ place ∧ ¬ site.IsDraft x

theorem Apart.touched (h : site.Apart place t p) (touched : site.Touches place t t') :
    site.Apart place t' p :=
  fun t'' touched' => h t'' (touched.trans touched')

/-- A path that is apart leads where it led before. -/
theorem Apart.locate_iff (h : site.Apart place t p) (touched : site.Touches place t t')
    (houses : t.Houses site.directory site.home) :
    t'.locate p = .ok (x, n) ↔ t.locate p = .ok (x, n) := by
  have ways := touched.sameWays houses
  constructor
  · intro hl
    obtain ⟨hne, hdraft⟩ := h t' touched x n hl
    refine Tree.locate_mono hl ways.current.symm fun q m hm hk => ?_
    rcases hk with hk | rfl
    · exact (ways.ways q m hk).mp hm
    · rw [← touched.same q hne hdraft, hm]
  · intro hl
    obtain ⟨hne, hdraft⟩ := h t (.refl houses place) x n hl
    refine Tree.locate_mono hl ways.current fun q m hm hk => ?_
    rcases hk with hk | rfl
    · exact (ways.ways q m hk).mpr hm
    · rw [touched.same q hne hdraft, hm]

/-- A path that is apart keeps its key. -/
theorem Apart.key (h : site.Apart place t p) (touched : site.Touches place t t')
    (houses : t.Houses site.directory site.home) : t'.key p = t.key p := by
  cases hl : t.locate p with
  | ok target => rw [Tree.key_of_locate hl, Tree.key_of_locate ((h.locate_iff touched houses).mpr hl)]
  | error e =>
    cases hl' : t'.locate p with
    | ok target => exact nomatch hl.symm.trans ((h.locate_iff touched houses).mp hl')
    | error e' => exact Tree.key_congr_of_error hl' hl touched.rewrites.current

theorem IsDraft.below {q : Place} (h : site.IsDraft q) : Below site.home q := by
  obtain ⟨stem, n, rfl | rfl⟩ := h
  · exact (@Houses.Area.top site.directory site.home).below _
  · exact (@Houses.Area.entries site.directory site.home).below _

/-- A path that leads to another file is apart. -/
theorem apart_of_locate (houses : t.Houses site.directory site.home) {bytes : List UInt8}
    {changed : Instant} (hl : t.locate p = .ok (x, .file bytes changed)) (hne : x ≠ place)
    (hdraft : ¬ site.IsDraft x) : site.Apart place t p := by
  intro t' touched y n hy
  rw [(touched.sameWays houses).locate hl hy]
  exact ⟨hne, hdraft⟩

/-- A path of a file outside of the home is apart. -/
theorem apart_of_outside (houses : t.Houses site.directory site.home)
    (hplace : Below site.home place) {bytes : List UInt8} {changed : Instant}
    (hl : t.locate p = .ok (x, .file bytes changed)) (outside : ¬ Below site.home x) :
    site.Apart place t p :=
  apart_of_locate houses hl (fun he => outside (he ▸ hplace)) fun hdraft => outside hdraft.below

end Site

/-! ## One record -/

namespace Cache

/-- A cache has a record of a key, or holds its payload in memory. -/
def Knows (c : Cache) (k : Path) : Prop :=
  c.index.contains k = true ∨ ∃ r ∈ c.recent, k.same r.1 = true

variable {site : Site} {c c' : Cache} {t t' : Tree} {p k : Path}

/-- Removing a record removes what a cache knows of the key. -/
theorem not_knows_invalidate (c : Cache) (t : Tree) (h : (t.key p).same k = true) :
    ¬ (c.invalidate t p).1.Knows k := by
  rintro (hi | ⟨r, hr, hs⟩)
  · have herased : (c.index.erase (t.key p)).contains k = true := hi
    rw [PathMap.contains_eq_isSome, PathMap.get?_erase, if_pos h] at herased
    exact nomatch herased
  · obtain ⟨-, hother⟩ := List.mem_filter.mp hr
    rw [Path.same_trans h hs] at hother
    exact nomatch hother

/-- Removing a record leaves what a cache knows of other keys. -/
theorem knows_invalidate (h : c.Knows k) (t : Tree) (hne : (t.key p).same k = false) :
    (c.invalidate t p).1.Knows k := by
  have hother : ¬ (t.key p).same k = true := Bool.eq_false_iff.mp hne
  rcases h with hi | ⟨r, hr, hs⟩
  · refine .inl ?_
    show (c.index.erase (t.key p)).contains k = true
    rwa [PathMap.contains_eq_isSome, PathMap.get?_erase, if_neg hother,
      ← PathMap.contains_eq_isSome]
  · refine .inr ⟨r, List.mem_filter.mpr ⟨hr, ?_⟩, hs⟩
    rw [Bool.not_eq_true', Bool.eq_false_iff]
    exact fun hkey => hother (Path.same_trans hkey (Path.same_symm hs))

/-- Nothing is left of the result of a key: no record, no payload in memory and no payload file. -/
structure Forgotten (site : Site) (c : Cache) (t : Tree) (k : Path) : Prop where
  unknown : ¬ c.Knows k
  payload : t.find? (site.payloadPlace k) = none

namespace At

/-- Removing a record removes its payload file, if the system takes the path of the file. -/
theorem payload_invalidate (h : c.At site) (houses : t.Houses site.directory site.home)
    (made : t.find? (site.home ++ ["entries"]) = some .directory)
    (nameable : (site.payloadPath (t.key p)).Nameable) :
    (c.invalidate t p).2.1.find? (site.payloadPlace (t.key p)) = none := by
  have hbelow : Below site.home (site.payloadPlace (t.key p)) := below_payloadPlace _
  have hfile := houses.files _ hbelow (site.payloadPlace_ne_entries (t.key p))
  rcases hfile.cases with hnone | ⟨bytes, changed, hsome⟩
  · rcases h.invalidate_tree houses p with ht | ht
    · rw [ht, hnone]
    · rw [ht, Tree.find?_remove t hbelow.ne_nil, if_pos rfl]
  · have hresolve (follow : Bool) : t.resolve follow (c.payloadPath t p) =
        .ok (.found (site.payloadPlace (t.key p)) (.file bytes changed)) := by
      rw [h.payloadPath]
      exact (houses.resolve_nameable made .entries (site.isName_stem (t.key p))
        (site.payloadPlace_ne_entries _) nameable follow).trans
          (congrArg Except.ok (Tree.standing_some hsome))
    have hexists : t.exists? (c.payloadPath t p) = true := by
      unfold Tree.exists?
      rw [Tree.locate_of_resolve (hresolve true)]
      rfl
    have hremove : t.removeFile (c.payloadPath t p) = .ok (t.remove (site.payloadPlace (t.key p))) := by
      unfold Tree.removeFile
      rw [hresolve false]
      rfl
    unfold Cache.invalidate
    dsimp only
    rw [if_pos hexists, hremove]
    exact (Tree.find?_remove t hbelow.ne_nil _).trans (if_pos rfl)

/-- Removing a record leaves the payload file of another key. -/
theorem payload_invalidate_of_ne (h : c.At site) (houses : t.Houses site.directory site.home)
    (hne : site.payloadPlace k ≠ site.payloadPlace (t.key p)) :
    (c.invalidate t p).2.1.find? (site.payloadPlace k) = t.find? (site.payloadPlace k) :=
  (h.invalidate houses p).same _ hne (site.payloadPlace_not_draft k)

/-- Removing the record of a path removes what was stored for a key that has the payload file of its
key. -/
theorem forgotten_invalidate (h : c.At site) (houses : t.Houses site.directory site.home)
    (made : t.find? (site.home ++ ["entries"]) = some .directory)
    (nameable : (site.payloadPath k).Nameable) (hkey : t.key p = k) :
    (c.invalidate t p).1.Forgotten site (c.invalidate t p).2.1 k := by
  subst hkey
  exact ⟨not_knows_invalidate c t (Path.same_refl _), h.payload_invalidate houses made nameable⟩

end At

/-! ## Several records -/

/-- The cache without what it knows of some keys. -/
def without (c : Cache) (ks : List Path) : Cache :=
  { c with
    index := ⟨c.index.entries.filter fun e => !ks.any (·.same e.1)⟩
    recent := c.recent.filter fun r => !ks.any (·.same r.1) }

theorem invalidate_eq_without (c : Cache) (t : Tree) (p : Path) :
    ∃ dirty, (c.invalidate t p).1 = { c.without [t.key p] with dirty } := by
  refine ⟨c.dirty || c.index.contains (t.key p), ?_⟩
  simp only [without, List.any_cons, List.any_nil, Bool.or_false]
  rfl

theorem without_without (c : Cache) (ks ks' : List Path) (dirty : Bool) :
    ({ c.without ks with dirty } : Cache).without ks' = { c.without (ks ++ ks') with dirty } := by
  simp only [without, List.filter_filter, List.any_append, Bool.not_or, Bool.and_comm]

end Cache

/-- A step that removes the payload files of some keys. -/
structure Site.Drops (site : Site) (ks : List Path) (t t' : Tree) : Prop where
  houses : t'.Houses site.directory site.home
  fewer : t.Fewer t'
  same : ∀ q, (∀ k ∈ ks, q ≠ site.payloadPlace k) → t'.find? q = t.find? q
  gone : t.find? (site.home ++ ["entries"]) = some .directory →
    ∀ k ∈ ks, (site.payloadPath k).Nameable → t'.find? (site.payloadPlace k) = none

namespace Site.Drops

variable {site : Site} {ks ks' : List Path} {t t' t'' : Tree}

theorem nil (houses : t.Houses site.directory site.home) : site.Drops [] t t :=
  ⟨houses, .refl t, fun _ _ => rfl, fun _ => nofun⟩

theorem made (h : site.Drops ks t t') :
    t'.find? (site.home ++ ["entries"]) = t.find? (site.home ++ ["entries"]) :=
  h.same _ fun k _ => (site.payloadPlace_ne_entries k).symm

theorem trans (h : site.Drops ks t t') (h' : site.Drops ks' t' t'') :
    site.Drops (ks ++ ks') t t'' where
  houses := h'.houses
  fewer := h.fewer.trans h'.fewer
  same q hq := by
    obtain ⟨hq, hq'⟩ := List.forall_mem_append.mp hq
    rw [h'.same q hq', h.same q hq]
  gone made := by
    refine List.forall_mem_append.mpr ⟨fun k hk nameable => ?_, fun k hk nameable =>
      h'.gone (h.made.trans made) k hk nameable⟩
    cases hf : t''.find? (site.payloadPlace k) with
    | none => rfl
    | some n => exact nomatch (h.gone made k hk nameable).symm.trans (h'.fewer.nodes _ n hf)

end Site.Drops

namespace Cache

variable {site : Site} {c : Cache} {t : Tree}

/-- Removing a record drops the payload file of its key. -/
theorem At.drops_invalidate (h : c.At site) (houses : t.Houses site.directory site.home) (p : Path) :
    site.Drops [t.key p] t (c.invalidate t p).2.1 := by
  have hbelow : Below site.home (site.payloadPlace (t.key p)) := below_payloadPlace _
  have gone : t.find? (site.home ++ ["entries"]) = some .directory →
      ∀ k ∈ [t.key p], (site.payloadPath k).Nameable →
        (c.invalidate t p).2.1.find? (site.payloadPlace k) = none := by
    intro made k hk nameable
    obtain rfl := List.mem_singleton.mp hk
    exact h.payload_invalidate houses made nameable
  refine ⟨(h.invalidate houses p).houses, ?_, fun q hq => ?_, gone⟩
  · rcases h.invalidate_tree houses p with ht | ht
    · rw [ht]
      exact .refl t
    · rw [ht]
      exact .remove hbelow.ne_nil
  · rcases h.invalidate_tree houses p with ht | ht
    · rw [ht]
    · rw [ht, Tree.find?_remove t hbelow.ne_nil, if_neg (hq _ (List.mem_singleton_self _))]

/-- Removing the records of paths that stay their own keys drops the payload files of these keys. -/
theorem At.invalidateAll (h : c.At site) (houses : t.Houses site.directory site.home)
    {ks : List Path} (fixed : ∀ k ∈ ks, ∀ t', t.Fewer t' → t'.key k = k) :
    (∃ dirty, (c.invalidateAll t ks).1 = { c.without ks with dirty }) ∧
      site.Drops ks t (c.invalidateAll t ks).2 := by
  induction ks generalizing c t with
  | nil =>
    refine ⟨⟨c.dirty, ?_⟩, .nil houses⟩
    simp [Cache.invalidateAll, without]
  | cons k ks ih =>
    obtain ⟨hk, fixed⟩ := List.forall_mem_cons.mp fixed
    have hkey := hk t (.refl t)
    have drops := h.drops_invalidate houses k
    obtain ⟨dirty, hcache⟩ := c.invalidate_eq_without t k
    rw [hkey] at drops hcache
    have here : (c.invalidate t k).1.At site := h.same ⟨rfl, rfl, rfl, rfl⟩
    obtain ⟨⟨dirty', hrest⟩, drops'⟩ := ih here drops.houses fun k' hk' t' fewer =>
      fixed k' hk' t' (drops.fewer.trans fewer)
    refine ⟨⟨dirty', hrest.trans ?_⟩, drops.trans drops'⟩
    rw [hcache, without_without]
    rfl

end Cache
end SourceSurvey
