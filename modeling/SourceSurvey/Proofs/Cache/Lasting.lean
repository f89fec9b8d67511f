import SourceSurvey.Proofs.Cache.Filed

/-!
# Stored results last

Once a result is stored for a file, its payload file, its record in the index and, as soon as the
cache is closed, its record in the index file stay as they are, whatever else is asked of the cache
(`Cache.Lasts`), until the file is stored again, its record is removed or a cache is lost. So the
result comes back, from memory or from the disk, in this cache or in one that is opened later.

* `Cache.Lasts.act`: the step lemma for what a cache does.
* `Client.Lasts.serves`: the step lemma for what a client does; closing writes the index.
* `Client.stored_lasts`: a stored result comes back after whatever requests that spare it.
-/

namespace SourceSurvey

open Cache (Act Acts Unambiguous Orderly fileName draftName recordOf)
open SourceSurvey.Tree.Houses (Area)
open Session (Vacant)

variable {site : Site} {K : Path → Prop} {c c' : Cache} {t t' : Tree} {k : Path} {e : CacheEntry}

/-! ## Names of drafts -/

theorem utf8ByteSize_toString_le {n width : Nat} (hw : 0 < width) (hn : n < 10 ^ width) :
    (toString n).utf8ByteSize ≤ width := by
  have hdigit : ∀ c ∈ Nat.toDigits 10 n, c.utf8Size = 1 := by
    intro c hc
    have hd := Json.isDigit_of_mem_toDigits c hc
    simp only [Char.isDigit, Bool.and_eq_true, decide_eq_true_eq] at hd
    exact if_pos (UInt32.le_trans hd.2 (by decide))
  show (String.ofList (Nat.toDigits 10 n)).utf8ByteSize ≤ width
  rw [Digest.utf8ByteSize_ofList _ hdigit]
  exact (Nat.length_toDigits_le_iff (by decide) hw).mpr hn

/-! ## What stays of a stored result -/

namespace Site

/-- Fingerprints are written with 64 bytes, so the names of payload files are longer than those of
the index file and its drafts. -/
def LongNames (site : Site) : Prop := ∀ bytes, (site.fingerprint bytes).utf8ByteSize = 64

/-- The index file holds an index in order with a record at a key. -/
structure Saves (site : Site) (K : Path → Prop) (t : Tree) (k : Path) (r : IndexRecord) : Prop where
  nameable : (site.directory.join ⟨fileName "index"⟩).Nameable
  file : ∃ m changed, Orderly K m ∧ m.get? k = some r ∧
    t.find? site.indexPlace = some (.file (site.indexFile m).bytes changed)

theorem Saves.frame {r : IndexRecord} (h : site.Saves K t k r)
    (same : t'.find? site.indexPlace = t.find? site.indexPlace) : site.Saves K t' k r := by
  refine ⟨h.nameable, ?_⟩
  rw [same]
  exact h.file

theorem Saves.filed {r : IndexRecord} (h : site.Saves K t k r) : site.Filed K t := by
  obtain ⟨m, changed, orderly, -, hf⟩ := h.file
  intro bytes changed' hf'
  obtain ⟨rfl, -⟩ := Node.file.inj (Option.some.inj (hf.symm.trans hf'))
  exact ⟨m, orderly, rfl⟩

/-- The index that is read has the record. -/
theorem Saves.readIndex {r : IndexRecord} (h : site.Saves K t k r)
    (houses : t.Houses site.directory site.home)
    (made : t.find? (site.home ++ ["entries"]) = some .directory)
    (version : site.formatVersion < 2 ^ 32) :
    (Cache.readIndex site.formatVersion t (site.directory.join ⟨fileName "index"⟩)).get? k =
      some r := by
  obtain ⟨m, changed, orderly, record, hf⟩ := h.file
  have hname : Path.IsName (fileName "index") := by decide
  rw [orderly.readIndex version (houses.readText made .top hname
    (Cache.area_ne_entries (@Area.top site.directory site.home) (by decide)) h.nameable hf), record]

/-- The payload file of a key holds an entry, and the file at the key, which lies outside of the
home, has the content that the stamp of the entry says. -/
structure Keeps (site : Site) (t : Tree) (k : Path) (e : CacheEntry) : Prop where
  held : site.Shelves t k e
  stands : ∃ place bytes changed, t.locate k = .ok (place, .file bytes changed) ∧
    ¬ Below site.home place ∧ e.stamp.size = bytes.length ∧ e.stamp.changed? = some changed ∧
      e.stamp.digest = site.fingerprint bytes

theorem Keeps.touches (h : site.Keeps t k e) (houses : t.Houses site.directory site.home)
    {place : Place} (touched : site.Touches place t t') (hne : site.payloadPlace k ≠ place) :
    site.Keeps t' k e := by
  obtain ⟨source, bytes, changed, hl, outside, hstamp⟩ := h.stands
  exact ⟨touched.shelves h.held hne, source, bytes, changed,
    touched.locate houses hl outside, outside, hstamp⟩

end Site

namespace Cache

/-- A result that is stored at a key lasts: the record of the key is that of the entry, which its
payload file holds, and so is its record in the index file unless the index is still to be
written. -/
structure Lasts (site : Site) (K : Path → Prop) (k : Path) (e : CacheEntry) (c : Cache) (t : Tree) :
    Prop extends Ordered site K c t where
  settings : c.settingsDigest = e.metadata.settingsDigest
  record : c.index.get? k = some (recordOf e)
  kept : site.Keeps t k e
  saved : c.dirty = false → site.Saves K t k (recordOf e)

namespace Lasts

/-- Removing another record leaves the result. -/
theorem invalidate (h : c.Lasts site K k e t) (told : Unambiguous site.fingerprint K) (key : K k)
    {p : Path} (key' : K (t.key p)) (other : t.key p ≠ k) :
    (c.invalidate t p).1.Lasts site K k e (c.invalidate t p).2.1 := by
  have touched := h.here.invalidate h.houses p
  refine ⟨h.toOrdered.invalidate p, h.settings, ?_, h.kept.touches h.houses touched ?_, fun clean => ?_⟩
  · refine (PathMap.get?_erase ..).trans ?_
    rw [if_neg fun hs => other (told _ _ key' key (.inl hs)), h.record]
  · exact fun hplace => other (Site.eq_of_payloadPlace told key' key hplace.symm)
  · have clean : (c.dirty || c.index.contains (t.key p)) = false := clean
    exact (h.saved (Bool.or_eq_false_iff.mp clean).1).frame touched.index

/-- No act that stores or removes results of other keys only does away with the result. -/
theorem act (h : c.Lasts site K k e t) (told : Unambiguous site.fingerprint K) (key : K k)
    (ha : Act site K (· ≠ k) c t c' t') : c'.Lasts site K k e t' := by
  have ordered := h.toOrdered.act told ha
  cases ha with
  | count => exact ⟨ordered, h.settings, h.record, h.kept, h.saved⟩
  | forget => exact ⟨ordered, h.settings, h.record, h.kept, h.saved⟩
  | serve => exact ⟨ordered, h.settings, h.record, h.kept, h.saved⟩
  | @store p m edges micros stamp c' t' key' other holdable hs =>
    obtain ⟨s, hstamp, -, rfl, touched, -⟩ := h.here.store_ok h.houses hs
    have hpath : (c.entryFor t s m edges micros).stamp.path = t.key p := (stamp?_some hstamp).1
    refine ⟨ordered, h.settings, ?_, h.kept.touches h.houses touched ?_, nofun⟩
    · refine (PathMap.get?_insert ..).trans ?_
      rw [hpath, if_neg fun hs => other (told _ _ key key' (.inl hs)).symm]
      exact h.record
    · exact fun hplace => other (Site.eq_of_payloadPlace told key key' hplace).symm
  | miss hs =>
    obtain ⟨touched, drafts, rfl⟩ := h.here.store_error h.houses hs
    exact ⟨ordered, h.settings, h.record,
      h.kept.touches h.houses (touched site.indexPlace) (site.payloadPlace_ne_index k),
      fun clean => (h.saved clean).frame (touched (site.payloadPlace k)).index⟩
  | invalidate key' other => exact h.invalidate told key key' other
  | @discard p r key' record _ unreadable =>
    refine h.invalidate told key key' ?_
    rintro rfl
    obtain rfl := Option.some.inj (h.record.symm.trans record)
    exact nomatch (h.here.readPayload? h.houses h.kept.held rfl).symm.trans unreadable
  | flush hf =>
    have flushed := h.here.flush h.houses hf
    have kept : site.Keeps t' k e :=
      h.kept.touches h.houses (flushed.touches h.houses) (site.payloadPlace_ne_index k)
    cases flushed with
    | clean => exact h
    | failed touched =>
      exact ⟨ordered, h.settings, h.record, kept,
        fun clean => (h.saved clean).frame (touched (site.payloadPlace k)).index⟩
    | written touched nameable file =>
      rw [h.here.indexFile] at file
      exact ⟨ordered, h.settings, h.record, kept,
        fun _ => ⟨nameable, c.index, _, h.index, h.record, file⟩⟩
  | clear replaced => exact absurd rfl (replaced k)

theorem acts (h : c.Lasts site K k e t) (told : Unambiguous site.fingerprint K) (key : K k)
    (ha : Acts site K (· ≠ k) c t c' t') : c'.Lasts site K k e t' := by
  induction ha with
  | refl => exact h
  | snoc _ last ih => exact ih.act told key last

/-- Writing the index succeeds as long as the system takes the path of the payload file. -/
theorem flush_ok (h : c.Lasts site K k e t)
    (long : site.LongNames) (drafts : c.drafts < Json.wordLimit) : (c.flush t).2.2 = .ok () := by
  have nameable {name : String} (hn : Path.IsName name) (nul : '\x00' ∉ name.toList)
      (short : name.utf8ByteSize ≤ 64) : (site.directory.join ⟨name⟩).Nameable := by
    refine h.kept.held.nameable.above Tree.Houses.isName_entries (site.isName_stem k) hn nul
      (by rw [Tree.nameLimit]; omega) ?_
    unfold fileName Cache.stemOf
    rw [String.utf8ByteSize_append, String.utf8ByteSize_append, long]
    omega
  have hindex : (site.directory.join ⟨fileName "index"⟩).Nameable :=
    nameable (by decide) (by decide) (by decide)
  have hdraft : (site.directory.join ⟨draftName "index" c.drafts⟩).Nameable := by
    refine nameable (isName_draftName (by decide) _) ?_ ?_
    · have hnul : '\x00' ∉ Nat.toDigits 10 c.drafts :=
        fun hc => absurd (Json.isDigit_of_mem_toDigits _ hc) (by decide)
      simp [draftName, hnul]
    · have hsize : (toString c.drafts).utf8ByteSize ≤ 20 :=
        utf8ByteSize_toString_le (by decide) (drafts.trans (by decide))
      have hrest : ("index" : String).utf8ByteSize = 5 ∧ (".": String).utf8ByteSize = 1 ∧
          ("tmp." : String).utf8ByteSize = 4 := by decide
      unfold draftName
      simp only [String.utf8ByteSize_append]
      omega
  have directory := h.here.directory
  refine Cache.flush_ok c (by rw [directory]; exact h.houses) h.kept.held.made ?_ ?_
  · rw [h.here.indexPath]
    exact hindex
  · rw [directory]
    exact hdraft

/-- A result that lasts comes back for every path that leads to its key. -/
theorem get (h : c.Lasts site K k e t) (mirrored : c.Mirrored site K t)
    (told : Unambiguous site.fingerprint K) (key : K k) {q : Path} (hq : t.key q = k) :
    c.hasChanged t q = false ∧ (c.get t q).2.2 = some e := by
  subst hq
  obtain ⟨place, bytes, changed, hl, -, size, hchanged, digest⟩ := h.kept.stands
  have same : c.hasChanged t q = false := by
    unfold Cache.hasChanged Cache.isCurrent
    rw [h.record, hl]
    simp [recordOf, h.settings, size, hchanged, digest, h.here.fingerprint]
  have read : c.readPayload? t q (recordOf e) = some e :=
    h.here.readPayload? h.houses h.kept.held rfl
  refine ⟨same, ?_⟩
  unfold Cache.get Cache.load
  rw [same, if_neg Bool.false_ne_true]
  dsimp only
  rw [h.record]
  dsimp only
  cases hf : c.recent.find? fun x => (t.key q).same x.1 with
  | some x =>
    obtain ⟨hmem, hs⟩ := Cache.recent_of_find? hf
    have held := mirrored.readPayload? told key h.record hmem hs
    exact held.symm.trans read
  | none =>
    dsimp only
    rw [read]

end Lasts

/-- A version under which a result was stored has 32 bits. -/
theorem At.version_of_store (h : c.At site) (houses : t.Houses site.directory site.home) {p : Path}
    {m : Module} {edges : List Edge} {micros : Nat} {stamp : FileStamp}
    (holdable : c.Holdable t (.storing p m edges micros))
    (hs : c.store t p m edges micros = (c', t', .ok stamp)) : site.formatVersion < 2 ^ 32 := by
  obtain ⟨s, hstamp, -⟩ := h.store_ok houses hs
  rw [← h.formatVersion]
  exact (holdable s hstamp).metadata.formatVersion

/-- A result that is stored lasts. -/
theorem Ordered.store (h : c.Ordered site K t) (told : Unambiguous site.fingerprint K) {p : Path}
    (key : K (t.key p)) {m : Module} {edges : List Edge} {micros : Nat}
    (holdable : c.Holdable t (.storing p m edges micros))
    (outside : ∀ place node, t.locate (t.key p) = .ok (place, node) → ¬ Below site.home place)
    {stamp : FileStamp} (hs : c.store t p m edges micros = (c', t', .ok stamp)) :
    ∃ e, c'.Lasts site K (t.key p) e t' ∧ e.stamp = stamp ∧ e.module = m ∧ e.edges = edges ∧
      e.metadata.settingsDigest = c.settingsDigest := by
  have ordered := h.act told (.store (W := fun _ => True) key trivial holdable hs)
  obtain ⟨s, hstamp, rfl, rfl, touched, held⟩ := h.here.store_ok h.houses hs
  have sized := holdable s hstamp
  obtain ⟨hpath, place, bytes, changed, hl, digest, size, hchanged⟩ := stamp?_some hstamp
  have hentry : (c.entryFor t s m edges micros).stamp.path = t.key p := hpath
  refine ⟨c.entryFor t s m edges micros, ⟨ordered, rfl, ?_, ⟨held sized, ?_⟩, nofun⟩, rfl, rfl, rfl,
    rfl⟩
  · refine (PathMap.get?_insert ..).trans ?_
    rw [hentry, Path.same_refl, if_pos rfl]
    rfl
  · have beyond := outside place _ hl
    refine ⟨place, bytes, changed, touched.locate h.houses hl beyond, beyond, size, hchanged, ?_⟩
    rw [← h.here.fingerprint]
    exact digest

end Cache

/-! ## What a client does -/

namespace Client

variable {s s' : Client}

/-- A request that spares the result of a key under some settings. It stores or removes the results
of other keys only, and edits neither the file at the key nor the home. A cache is opened with the
same settings, and none is lost. The drafts that were written are counted with 64 bits. -/
def Spares (site : Site) (k : Path) (settingsDigest : String) (s : Client) : Request → Prop
  | .opening settingsDigest' _ =>
    settingsDigest' = settingsDigest ∧ ∀ c, s.cache? = some c → c.drafts < Json.wordLimit
  | .ordering o => ∀ c, s.cache? = some c → c.Holdable s.tree o ∧ ¬ c.Replaces s.tree k o
  | .closing => ∀ c, s.cache? = some c → c.drafts < Json.wordLimit
  | .losing => False
  | .editing t =>
    t.Houses site.directory site.home ∧ (∀ q, Below site.home q → t.find? q = s.tree.find? q) ∧
      t.locate k = s.tree.locate k

theorem Spares.allows {settingsDigest : String} {r : Request} (h : s.Spares site k settingsDigest r) :
    s.Allows site r := by
  cases r with
  | opening => trivial
  | ordering o => exact fun c hc => (h c hc).1
  | closing => trivial
  | losing => trivial
  | editing t => exact ⟨h.1, h.2.1⟩

/-- A result that is stored at a key lasts in the open cache, or in the index file. -/
structure Lasts (site : Site) (K : Path → Prop) (k : Path) (e : CacheEntry) (s : Client) : Prop where
  mirrored : s.Mirrored site K
  kept : site.Keeps s.tree k e
  cache : ∀ c, s.cache? = some c → c.Lasts site K k e s.tree
  closed : s.cache? = none → site.Saves K s.tree k (recordOf e)

namespace Lasts

/-- Closing the open cache writes its index. -/
theorem shut (h : s.Lasts site K k e) (told : Unambiguous site.fingerprint K) (key : K k)
    (long : site.LongNames)
    (drafts : ∀ c, s.cache? = some c → c.drafts < Json.wordLimit) : s.shut.Lasts site K k e := by
  obtain ⟨t, _ | c⟩ := s
  · exact h
  · have lasts := h.cache c rfl
    rcases hf : c.flush t with ⟨c', t', r⟩
    have ok := lasts.flush_ok long (drafts c rfl)
    rw [hf] at ok
    obtain rfl : r = .ok () := ok
    have lasts' := lasts.act told key (.flush hf)
    have clean : c'.dirty = false := by
      cases lasts.here.flush lasts.houses hf with
      | clean h => exact h
      | written => rfl
    have hshut : (Client.mk t (some c)).shut = ⟨t', none⟩ := by
      show Client.mk (c.flush t).2.1 none = _
      rw [hf]
    rw [hshut]
    exact ⟨⟨lasts'.houses, nofun⟩, lasts'.kept, nofun, fun _ => lasts'.saved clean⟩

/-- A cache that is opened with the same settings finds the result. -/
theorem opened (h : s.Lasts site K k e) (hc : s.cache? = none)
    (version : site.formatVersion < 2 ^ 32) {capacity : Nat} {r : Except Failure Cache}
    (ho : Cache.openIn s.tree site.directory e.metadata.settingsDigest capacity site.formatVersion
      site.fingerprint = (t', r)) : Client.Lasts site K k e ⟨t', r.toOption⟩ := by
  have houses := h.mirrored.houses
  have made := h.kept.held.made
  have saves := h.closed hc
  obtain rfl : s.tree = t' := (houses.createDirectories_of_made made).symm.trans (openIn_fst ho)
  cases r with
  | error f => exact ⟨⟨houses, nofun⟩, h.kept, nofun, fun _ => saves⟩
  | ok c =>
    obtain ⟨here, recent, settings, -, index⟩ := Cache.At.opened ho
    have ordered : c.Ordered site K s.tree := .opened ho houses saves.filed version
    refine ⟨⟨houses, ?_⟩, h.kept, ?_, nofun⟩
    · rintro d ⟨⟩
      exact .of_recent_nil here houses recent
    · rintro d ⟨⟩
      exact ⟨ordered, settings, by rw [index, saves.readIndex houses made version], h.kept,
        fun _ => saves⟩

/-- A request that spares the result leaves it. -/
theorem serves (h : s.Lasts site K k e) (told : Unambiguous site.fingerprint K) (key : K k)
    (long : site.LongNames)
    (version : site.formatVersion < 2 ^ 32) {r : Request}
    (spares : s.Spares site k e.metadata.settingsDigest r) (hs : s.Serves site K (· ≠ k) r s') :
    s'.Lasts site K k e := by
  have mirrored := h.mirrored.serves told spares.allows hs
  cases hs with
  | opening ho =>
    obtain ⟨rfl, drafts⟩ := spares
    exact (h.shut told key long drafts).opened s.shut_cache? version ho
  | idle => exact h
  | @acting _ c c' t' hc acts =>
    have lasts := (h.cache c hc).acts told key acts
    refine ⟨mirrored, lasts.kept, fun d hd => ?_, nofun⟩
    obtain rfl := Option.some.inj hd
    exact lasts
  | closing => exact h.shut told key long spares
  | losing => exact spares.elim
  | editing t =>
    obtain ⟨houses, same, stays⟩ := spares
    obtain ⟨held, stands⟩ := h.kept
    have kept : site.Keeps t k e := by
      refine ⟨held.frame (same _ (below_append nofun)) (same _ (Cache.below_payloadPlace k)), ?_⟩
      rw [stays]
      exact stands
    have index : t.find? site.indexPlace = s.tree.find? site.indexPlace := same _ (below_append nofun)
    refine ⟨mirrored, kept, fun c hc => ?_, fun hc => (h.closed hc).frame index⟩
    have lasts := h.cache c hc
    exact ⟨⟨lasts.here, houses, lasts.index, lasts.filed.frame index⟩, lasts.settings, lasts.record,
      kept, fun clean => (lasts.saved clean).frame index⟩

/-- The directory of a result that lasts can be opened again. -/
theorem reopens (h : s.Lasts site K k e) (told : Unambiguous site.fingerprint K) (key : K k)
    (long : site.LongNames)
    (drafts : ∀ c, s.cache? = some c → c.drafts < Json.wordLimit) (settingsDigest : String)
    (capacity : Nat) :
    ∃ c, (s.serve site (.opening settingsDigest capacity)).1 = ⟨s.shut.tree, some c⟩ := by
  have closed := h.shut told key long drafts
  have entries : (site.directory.join ⟨"entries"⟩).Nameable :=
    closed.kept.held.nameable.above Tree.Houses.isName_entries (site.isName_stem k)
      Tree.Houses.isName_entries (by decide) (by decide) (Nat.le_add_right _ _)
  have made := closed.mirrored.houses.createDirectories_ok closed.kept.held.made entries
  rw [serve_opening]
  unfold Cache.openIn Cache.entriesPath
  dsimp only
  rw [made]
  exact ⟨_, rfl⟩

end Lasts

/-- A client whose cache has stored a result of a file outside of the home has a result that
lasts. -/
theorem lasts_of_store {c₀ c₁ : Cache} {t₀ t₁ : Tree} {p : Path} {m : Module} {edges : List Edge}
    {micros : Nat} {stamp : FileStamp} (ordered : c₀.Ordered site K t₀)
    (mirrored : c₀.Mirrored site K t₀) (told : Unambiguous site.fingerprint K) (key : K (t₀.key p))
    (holdable : c₀.Holdable t₀ (.storing p m edges micros))
    (outside : ∀ place node, t₀.locate (t₀.key p) = .ok (place, node) → ¬ Below site.home place)
    (stored : c₀.store t₀ p m edges micros = (c₁, t₁, .ok stamp)) :
    ∃ e, (Client.mk t₁ (some c₁)).Lasts site K (t₀.key p) e ∧ e.stamp = stamp ∧ e.module = m ∧
      e.edges = edges ∧ e.metadata.settingsDigest = c₀.settingsDigest := by
  have mirrored₁ := mirrored.act told (.store (W := fun _ => True) key trivial holdable stored)
  obtain ⟨e, lasts, entry⟩ := ordered.store told key holdable outside stored
  refine ⟨e, ⟨⟨mirrored₁.houses, ?_⟩, lasts.kept, ?_, nofun⟩, entry⟩
  · rintro d ⟨⟩
    exact mirrored₁
  · rintro d ⟨⟩
    exact lasts

/-- A cache that has stored a result of the file beside the directory forgets it, and the directory
is opened again. -/
theorem reopens_beside {c₀ c₁ : Cache} {t₁ : Tree} {stamp : FileStamp}
    (ho : Cache.openIn .beside Site.hashed.directory "A" 1 Site.hashed.formatVersion
      Site.hashed.fingerprint = (.housed, .ok c₀))
    (stored : c₀.store .housed ⟨"/f"⟩ Cache.bareModule [] 0 = (c₁, t₁, .ok stamp))
    (drafts : c₁.drafts = 1) :
    ∃ c t, (Client.mk t₁ (some c₁)).after .hashed [.ordering .forgetting, .opening "A" 2] =
      ⟨t, some c⟩ ∧ t.key ⟨"/f"⟩ = ⟨"/f"⟩ := by
  obtain ⟨here, recent, -⟩ := Cache.At.opened ho
  have long : Site.hashed.LongNames := Digest.Blake3.utf8ByteSize_hexHash
  have told : Unambiguous Site.hashed.fingerprint (· = ⟨"/f"⟩) :=
    fun k k' hk hk' _ => hk.trans hk'.symm
  have filed : Site.hashed.Filed (· = ⟨"/f"⟩) .housed := fun bytes changed hf =>
    nomatch (show Tree.housed.find? ["c", "index.json"] = none from rfl).symm.trans hf
  obtain ⟨e, stores, -⟩ := lasts_of_store (.opened ho Tree.houses_housed filed (by decide))
    (.of_recent_nil here Tree.houses_housed recent) told Tree.key_housed (Cache.holdable_housed here)
    (fun _ _ => Cache.outside_housed) stored
  have forgets : (Client.mk t₁ (some c₁.clearMemory)).Lasts .hashed (· = ⟨"/f"⟩)
      (Tree.housed.key ⟨"/f"⟩) e :=
    stores.serves told Tree.key_housed long (by decide) (r := .ordering .forgetting)
      (fun _ _ => ⟨trivial, id⟩) (.acting rfl (.one .forget))
  have hdrafts : ∀ c, some c₁.clearMemory = some c → c.drafts < Json.wordLimit := by
    rintro c ⟨⟩
    show c₁.drafts < _
    rw [drafts]
    decide
  obtain ⟨c, hc⟩ := forgets.reopens told Tree.key_housed long hdrafts "A" 2
  have hforgetting : ((Client.mk t₁ (some c₁)).serve .hashed (.ordering .forgetting)).1 =
      ⟨t₁, some c₁.clearMemory⟩ := rfl
  rcases hf : c₁.clearMemory.flush t₁ with ⟨c', t', r⟩
  have hshut : (Client.mk t₁ (some c₁.clearMemory)).shut.tree = t' := by
    show (c₁.clearMemory.flush t₁).2.1 = t'
    rw [hf]
  have houses := forgets.mirrored.houses
  have touched := ((forgets.cache _ rfl).here.flush houses hf).touches houses
  refine ⟨c, t', ?_, Tree.key_of_beside
    (touched.locate houses (Cache.locate_store here stored) (by decide))⟩
  rw [after_cons, hforgetting, after_cons, hc, hshut]
  rfl

/-- A result that is stored for a file outside of the home of the cache lasts after whatever requests
that spare it. -/
theorem lasts_after {rs rs' : List Request} {c₀ c₁ : Cache} {t₀ t₁ : Tree} {p : Path} {m : Module}
    {edges : List Edge} {micros : Nat} {stamp : FileStamp} (long : site.LongNames)
    (begins : s.Begins site) (vacant : Vacant site.home s.tree)
    (allowed : s.Throughout site (Allows site) rs) (running : s.after site rs = ⟨t₀, some c₀⟩)
    (holdable : c₀.Holdable t₀ (.storing p m edges micros))
    (outside : ∀ place node, t₀.locate (t₀.key p) = .ok (place, node) → ¬ Below site.home place)
    (stored : c₀.store t₀ p m edges micros = (c₁, t₁, .ok stamp))
    (spared : (Client.mk t₁ (some c₁)).Throughout site
      (Spares site (t₀.key p) c₀.settingsDigest) rs')
    (told : Unambiguous site.fingerprint K)
    (keys : ∀ k ∈ s.asked site (rs ++ .ordering (.storing p m edges micros) :: rs'), K k) :
    ∃ e, K (t₀.key p) ∧ site.formatVersion < 2 ^ 32 ∧
      (Client.mk t₁ (some c₁)).Lasts site K (t₀.key p) e ∧
      ((Client.mk t₁ (some c₁)).after site rs').Lasts site K (t₀.key p) e ∧ e.stamp = stamp ∧
      e.module = m ∧ e.edges = edges ∧ e.metadata.settingsDigest = c₀.settingsDigest := by
  have hstoring : ((s.after site rs).serve site (.ordering (.storing p m edges micros))).1 =
      ⟨t₁, some c₁⟩ := by
    rw [running, serve_storing stored]
  rw [asked_append, asked_cons, hstoring, running, asks_storing] at keys
  obtain ⟨before, keys⟩ := List.forall_mem_append.mp keys
  obtain ⟨key, afterwards⟩ := List.forall_mem_append.mp keys
  replace key := key _ List.mem_cons_self
  -- Before the result is stored.
  have mirrored := (Mirrored.begins begins).after told allowed before
  rw [running] at mirrored
  have mirrored₀ := mirrored.cache c₀ rfl
  have version := mirrored₀.here.version_of_store mirrored₀.houses holdable stored
  have ordered := (Ordered.begins begins vacant version).after told version allowed before
  rw [running] at ordered
  obtain ⟨e, start, hstamp, hmodule, hedges, hsettings⟩ :=
    lasts_of_store (ordered.cache c₀ rfl) mirrored₀ told key holdable outside stored
  -- Afterwards.
  rw [← hsettings] at spared
  have stays := after_induction start spared afterwards fun _ _ h spares keys =>
    h.serves told key long version spares
      (serve_serves spares.allows keys fun c o k hc ho hk => by
        subst ho
        rintro rfl
        exact (spares c hc).2 hk)
  exact ⟨e, key, version, start, stays, hstamp, hmodule, hedges, hsettings⟩

/-- Stored results come back. A result is stored for a file outside of the home of the cache. After
whatever requests that spare it, every path that then leads to the key of the file is unchanged, and
the result that is got for it has the stamp that was answered, the module and the edges that were
stored, and the settings under which they were. -/
theorem stored_lasts (site : Site) (s : Client) (rs rs' : List Request) (c₀ c₁ c : Cache)
    (t₀ t₁ t : Tree) (p q : Path) (m : Module) (edges : List Edge) (micros : Nat) (stamp : FileStamp)
    (long : site.LongNames) (begins : s.Begins site)
    (vacant : Vacant site.home s.tree) (allowed : s.Throughout site (Allows site) rs)
    (running : s.after site rs = ⟨t₀, some c₀⟩)
    (holdable : c₀.Holdable t₀ (.storing p m edges micros))
    (outside : ∀ place node, t₀.locate (t₀.key p) = .ok (place, node) → ¬ Below site.home place)
    (stored : c₀.store t₀ p m edges micros = (c₁, t₁, .ok stamp))
    (spared : (Client.mk t₁ (some c₁)).Throughout site
      (Spares site (t₀.key p) c₀.settingsDigest) rs')
    (told : Unambiguous site.fingerprint fun k =>
      k ∈ s.asked site (rs ++ .ordering (.storing p m edges micros) :: rs'))
    (final : (Client.mk t₁ (some c₁)).after site rs' = ⟨t, some c⟩) (leads : t.key q = t₀.key p) :
    c.hasChanged t q = false ∧ ∃ e, (c.get t q).2.2 = some e ∧ e.stamp = stamp ∧ e.module = m ∧
      e.edges = edges ∧ e.metadata.settingsDigest = c₀.settingsDigest := by
  obtain ⟨e, key, -, -, stays, entry⟩ := lasts_after long begins vacant allowed running holdable
    outside stored spared told fun _ => id
  rw [final] at stays
  obtain ⟨same, found⟩ := (stays.cache c rfl).get (stays.mirrored.cache c rfl) told key leads
  exact ⟨same, e, found, entry⟩

/-- A result of the file beside the directory is found by the next cache. -/
theorem stored_lasts_beside :
    ∃ c₀ c₁ c t₁ t stamp e,
      (Client.mk .beside none).after .hashed [.opening "A" 1] = ⟨.housed, some c₀⟩ ∧
      c₀.store .housed ⟨"/f"⟩ Cache.bareModule [] 0 = (c₁, t₁, .ok stamp) ∧
      (Client.mk t₁ (some c₁)).after .hashed [.ordering .forgetting, .opening "A" 2] = ⟨t, some c⟩ ∧
      (c.get t ⟨"/f"⟩).2.2 = some e ∧ e.stamp = stamp ∧ e.module = Cache.bareModule ∧
      e.edges = [] ∧ e.metadata.settingsDigest = "A" := by
  obtain ⟨c₀, ho, drafts₀⟩ := Cache.opened_beside "A" 1
  obtain ⟨here, recent, settings, -⟩ := Cache.At.opened ho
  obtain ⟨c₁, t₁, stamp, stored, drafts₁⟩ := Cache.store_housed here drafts₀
  have long : Site.hashed.LongNames := Digest.Blake3.utf8ByteSize_hexHash
  have vacant : Vacant Site.hashed.home .beside :=
    fun q hq _ => Tree.find?_of_bare (by decide) hq
  have holdable := Cache.holdable_housed here
  -- The cache is opened, stores the result, forgets it and is opened again.
  have hopening : (Client.mk .beside none).after .hashed [.opening "A" 1] =
      ⟨.housed, some c₀⟩ := by
    show ((Client.mk .beside none).serve .hashed (.opening "A" 1)).1 = _
    rw [serve_opening, show (Client.mk .beside none).shut.tree = .beside from rfl, ho]
    rfl
  have hforgetting : (Client.mk t₁ (some c₁)).serve .hashed (.ordering .forgetting) =
      (⟨t₁, some c₁.clearMemory⟩, .nothing) := rfl
  have drafts : ∀ c, some c₁.clearMemory = some c → c.drafts < Json.wordLimit := by
    rintro c ⟨⟩
    show c₁.drafts < _
    rw [drafts₁]
    decide
  have spared : (Client.mk t₁ (some c₁)).Throughout .hashed
      (Spares .hashed (Tree.housed.key ⟨"/f"⟩) c₀.settingsDigest)
      [.ordering .forgetting, .opening "A" 2] :=
    ⟨fun _ _ => ⟨trivial, id⟩, ⟨settings.symm, drafts⟩, trivial⟩
  have told : Unambiguous Site.hashed.fingerprint fun k =>
      k ∈ (Client.mk .beside none).asked .hashed ([.opening "A" 1] ++
        .ordering (.storing ⟨"/f"⟩ Cache.bareModule [] 0) :: [.ordering .forgetting, .opening "A" 2]) := by
    have hfirst : (Client.mk .beside none).asked .hashed [.opening "A" 1] = [] := rfl
    have hrest : (Client.mk t₁ (some c₁)).asked .hashed [.ordering .forgetting, .opening "A" 2] = [] :=
      rfl
    rw [asked_append, hfirst, hopening, asked_cons, serve_storing stored, asks_storing,
      Tree.key_housed, hrest]
    simp only [List.nil_append, List.append_nil, List.mem_singleton]
    exact fun k k' hk hk' _ => hk.trans hk'.symm
  obtain ⟨c, t, final, leads⟩ := reopens_beside ho stored drafts₁
  obtain ⟨-, e, found, hstamp, hmodule, hedges, hsettings⟩ :=
    stored_lasts .hashed ⟨.beside, none⟩ [.opening "A" 1] [.ordering .forgetting, .opening "A" 2] c₀ c₁
      c .housed t₁ t ⟨"/f"⟩ ⟨"/f"⟩ Cache.bareModule [] 0 stamp long ⟨Tree.houses_beside, nofun⟩ vacant
      ⟨trivial, trivial⟩ hopening holdable (fun _ _ => Cache.outside_housed) stored spared
      told final
      (leads.trans Tree.key_housed.symm)
  exact ⟨c₀, c₁, c, t₁, t, stamp, e, hopening, stored, final, found, hstamp, hmodule, hedges,
    hsettings.trans settings⟩

end Client
end SourceSurvey
