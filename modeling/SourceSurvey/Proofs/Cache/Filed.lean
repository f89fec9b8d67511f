import SourceSurvey.Proofs.Cache.Client

/-!
# The index file is in order

At every moment the index of an open cache is in order (`Cache.Orderly`), and so is the index that
stands in its file (`Site.Filed`), whichever cache wrote it and whether or not that cache was lost
afterwards. So what is opened at a site has an index in order.

* `Cache.Ordered.act`: the step lemma for what a cache does.
* `Client.Ordered.serves`, `Client.Ordered.after`: what a client does keeps the index in order.
-/

namespace SourceSurvey

open Cache (Unambiguous Orderly fileName recordOf)
open SourceSurvey.Tree.Houses (Area)
open Session (Vacant)

variable {site : Site} {K W : Path → Prop} {c c' : Cache} {t t' : Tree} {m : PathMap IndexRecord}

/-! ## The index file -/

namespace Site

/-- The index file of a map of records. -/
def indexFile (site : Site) (m : PathMap IndexRecord) : IndexFile :=
  { version := site.formatVersion, records := m.values }

/-- The index file, if there is one, holds an index in order. -/
def Filed (site : Site) (K : Path → Prop) (t : Tree) : Prop :=
  ∀ bytes changed, t.find? site.indexPlace = some (.file bytes changed) →
    ∃ m, Orderly K m ∧ bytes = (site.indexFile m).bytes

theorem Filed.frame (h : site.Filed K t)
    (same : t'.find? site.indexPlace = t.find? site.indexPlace) : site.Filed K t' := by
  intro bytes changed hf
  exact h bytes changed (same.symm.trans hf)

theorem Filed.sheds (h : site.Filed K t) (hs : site.Sheds t t') : site.Filed K t' := by
  refine fun bytes changed hf => h bytes changed (hs.fewer _ _ ?_ hf)
  exact Cache.area_ne_entries (@Area.top site.directory site.home) (by decide)

theorem Filed.vacant (h : Vacant site.home t) : site.Filed K t := by
  intro bytes changed hf
  have missing := h site.indexPlace (below_append nofun)
    (Cache.area_ne_entries (@Area.top site.directory site.home) (by decide))
  exact nomatch missing.symm.trans hf

/-- The index that is read at a site is in order. -/
theorem Filed.readIndex (h : site.Filed K t) (houses : t.Houses site.directory site.home)
    (version : site.formatVersion < 2 ^ 32) :
    Orderly K (Cache.readIndex site.formatVersion t (site.directory.join ⟨fileName "index"⟩)) := by
  have hname : Path.IsName (fileName "index") := by decide
  have hslot := houses.slotAt .top hname
    (Cache.area_ne_entries (@Area.top site.directory site.home) (by decide))
  cases hr : t.readText (site.directory.join ⟨fileName "index"⟩) with
  | error e =>
    unfold Cache.readIndex
    rw [hr]
    exact .empty
  | ok text =>
    obtain ⟨bytes, changed, hf, hd⟩ := hslot.readText hr
    obtain ⟨m, orderly, rfl⟩ := h bytes changed hf
    rw [orderly.readIndex version (by rw [hr]; exact hd.symm)]
    exact orderly

end Site

namespace Cache

/-! ## What a cache does -/

/-- A cache at its site whose index and index file are in order. -/
structure Ordered (site : Site) (K : Path → Prop) (c : Cache) (t : Tree) : Prop where
  here : c.At site
  houses : t.Houses site.directory site.home
  index : Orderly K c.index
  filed : site.Filed K t

theorem At.indexFile (h : c.At site) : c.indexFile = site.indexFile c.index := by
  unfold Cache.indexFile Site.indexFile
  rw [h.formatVersion]

namespace Ordered

theorem invalidate (h : Ordered site K c t) (p : Path) :
    Ordered site K (c.invalidate t p).1 (c.invalidate t p).2.1 := by
  have touched := h.here.invalidate h.houses p
  exact ⟨⟨h.here.directory, h.here.fingerprint, h.here.formatVersion⟩, touched.houses,
    h.index.erase _, h.filed.frame touched.index⟩

theorem opened {settingsDigest : String} {capacity : Nat}
    (ho : Cache.openIn t site.directory settingsDigest capacity site.formatVersion
      site.fingerprint = (t', .ok c)) (houses : t'.Houses site.directory site.home)
    (filed : site.Filed K t') (version : site.formatVersion < 2 ^ 32) : Ordered site K c t' := by
  obtain ⟨here, -, -, -, index⟩ := At.opened ho
  refine ⟨here, houses, ?_, filed⟩
  rw [index]
  exact filed.readIndex houses version

/-- Writing the index, or failing to, leaves an index file in order. -/
theorem flush (h : Ordered site K c t) {r : Except Failure Unit} (hf : c.flush t = (c', t', r)) :
    Ordered site K c' t' := by
  cases h.here.flush h.houses hf with
  | clean => exact h
  | failed touched =>
    exact ⟨h.here.same ⟨rfl, rfl, rfl, rfl⟩, (touched site.indexPlace).houses, h.index,
      h.filed.frame (touched (site.payloadPlace ⟨""⟩)).index⟩
  | written touched _ file =>
    refine ⟨h.here.same ⟨rfl, rfl, rfl, rfl⟩, touched.houses, h.index, fun bytes changed hb => ?_⟩
    obtain ⟨rfl, -⟩ := Node.file.inj (Option.some.inj (file.symm.trans hb))
    exact ⟨c.index, h.index, congrArg IndexFile.bytes h.here.indexFile⟩

/-- No act of a cache brings the index or its file out of order. -/
theorem act (h : Ordered site K c t) (told : Unambiguous site.fingerprint K)
    (ha : Act site K W c t c' t') : Ordered site K c' t' := by
  have same {c' : Cache} (hs : SameSetup c c') : c'.At site := h.here.same hs
  cases ha with
  | count => exact ⟨same ⟨rfl, rfl, rfl, rfl⟩, h.houses, h.index, h.filed⟩
  | forget => exact ⟨same ⟨rfl, rfl, rfl, rfl⟩, h.houses, h.index, h.filed⟩
  | serve => exact ⟨same ⟨rfl, rfl, rfl, rfl⟩, h.houses, h.index, h.filed⟩
  | @store p m edges micros stamp c' t' key _ holdable hs =>
    obtain ⟨s, hstamp, -, rfl, touched, -⟩ := h.here.store_ok h.houses hs
    have sized := holdable s hstamp
    have hpath : (c.entryFor t s m edges micros).stamp.path = t.key p := (stamp?_some hstamp).1
    refine ⟨same ⟨rfl, rfl, rfl, rfl⟩, touched.houses, ?_, h.filed.frame touched.index⟩
    refine h.index.insert (fun k hk hs => told k _ hk ?_ (.inl hs)) ?_ rfl
      ⟨sized.stamp, sized.metadata.storedAt⟩
    · rwa [hpath]
    · rwa [hpath]
  | miss hs =>
    obtain ⟨touched, drafts, rfl⟩ := h.here.store_error h.houses hs
    exact ⟨same ⟨rfl, rfl, rfl, rfl⟩, (touched site.indexPlace).houses, h.index,
      h.filed.frame (touched (site.payloadPlace ⟨""⟩)).index⟩
  | invalidate => exact h.invalidate _
  | discard => exact h.invalidate _
  | flush hf => exact h.flush hf
  | clear _ hc =>
    obtain ⟨sheds, dirty, rfl⟩ := h.here.clear h.houses hc
    exact ⟨same ⟨rfl, rfl, rfl, rfl⟩, sheds.houses, .empty, h.filed.sheds sheds⟩

theorem acts (h : Ordered site K c t) (told : Unambiguous site.fingerprint K)
    (ha : Acts site K W c t c' t') : Ordered site K c' t' := by
  induction ha with
  | refl => exact h
  | snoc _ last ih => exact ih.act told last

end Ordered
end Cache

namespace Client

/-! ## What a client does -/

variable {s s' : Client}

/-- The index of the open cache and the index file are in order. -/
structure Ordered (site : Site) (K : Path → Prop) (s : Client) : Prop where
  houses : s.tree.Houses site.directory site.home
  filed : site.Filed K s.tree
  cache : ∀ c, s.cache? = some c → c.Ordered site K s.tree

namespace Ordered

theorem shut (h : s.Ordered site K) :
    s.shut.tree.Houses site.directory site.home ∧ site.Filed K s.shut.tree := by
  unfold Client.shut
  cases hc : s.cache? with
  | none => exact ⟨h.houses, h.filed⟩
  | some c =>
    have ordered := (h.cache c hc).flush (r := (c.flush s.tree).2.2) rfl
    exact ⟨ordered.houses, ordered.filed⟩

/-- No request brings the index or its file out of order. -/
theorem serves (h : s.Ordered site K) (told : Unambiguous site.fingerprint K)
    (version : site.formatVersion < 2 ^ 32) {r : Request} (allowed : s.Allows site r)
    (hs : s.Serves site K W r s') : s'.Ordered site K := by
  cases hs with
  | @opening _ _ t' r ho =>
    have sheds := sheds_openIn h.shut.1 ho
    have filed := h.shut.2.sheds sheds
    refine ⟨sheds.houses, filed, fun c hc => ?_⟩
    cases r with
    | error f => exact nomatch hc
    | ok c' =>
      obtain rfl := Option.some.inj hc
      exact .opened ho sheds.houses filed version
  | idle => exact h
  | @acting _ c c' t' hc acts =>
    have ordered := (h.cache c hc).acts told acts
    refine ⟨ordered.houses, ordered.filed, fun d hd => ?_⟩
    obtain rfl := Option.some.inj hd
    exact ordered
  | closing => exact ⟨h.shut.1, h.shut.2, fun c hc => nomatch s.shut_cache?.symm.trans hc⟩
  | losing => exact ⟨h.houses, h.filed, nofun⟩
  | editing t =>
    have filed := h.filed.frame (allowed.2 _ (below_append nofun))
    refine ⟨allowed.1, filed, fun c hc => ?_⟩
    have ordered := h.cache c hc
    exact ⟨ordered.here, allowed.1, ordered.index, filed⟩

/-- A client at a directory in which nothing is stored begins in order. -/
theorem begins (h : s.Begins site) (vacant : Vacant site.home s.tree)
    (version : site.formatVersion < 2 ^ 32) : s.Ordered site K := by
  have filed : site.Filed K s.tree := .vacant vacant
  refine ⟨h.houses, filed, fun c hc => ?_⟩
  obtain ⟨t, settingsDigest, capacity, ho⟩ := h.opened c hc
  exact .opened ho h.houses filed version

/-- After whatever requests the index and its file are in order. -/
theorem after (h : s.Ordered site K) (told : Unambiguous site.fingerprint K)
    (version : site.formatVersion < 2 ^ 32) {rs : List Request}
    (allowed : s.Throughout site (Allows site) rs) (keys : ∀ k ∈ s.asked site rs, K k) :
    (s.after site rs).Ordered site K :=
  after_induction h allowed keys fun _ _ h allowed keys => h.serves told version allowed
    (serve_serves (W := fun _ => True) allowed keys fun _ _ _ _ _ _ => trivial)

end Ordered
end Client
end SourceSurvey
