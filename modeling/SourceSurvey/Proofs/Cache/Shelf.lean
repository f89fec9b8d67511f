import SourceSurvey.Proofs.Cache.Index
import SourceSurvey.Proofs.Cache.Session

/-!
# Payload files one by one

What the payload file of one key holds (`Site.Shelves`), and which places an operation of a cache at
its site touches (`Site.Touches`): besides drafts, storing a result and removing a record touch the
payload file of one key, and writing the index touches the index file. Everything else stands as
before, so what the payload file of another key holds can still be read.

* `Cache.At.readPayload?`, `Cache.At.shelves`: a payload is read from its file iff the file holds it.
* `Cache.At.store_ok`, `Cache.At.store_error`, `Cache.At.invalidate`, `Cache.At.flush`: what the
  operations that write do.
-/

namespace SourceSurvey

open SourceSurvey.Path (IsName)
open SourceSurvey.Tree (Houses Rewrites)
open SourceSurvey.Tree.Houses (Area)
open Cache (fileName draftName stemOf)

/-- The directory of the payloads stands if a path through it leads somewhere. -/
theorem Tree.Houses.made_of_resolve {t : Tree} {dir : Path} {home : Place} {name : String}
    (h : t.Houses dir home) (hn : IsName name) {follow : Bool} {target : Target}
    (hr : t.resolve follow ((dir.join ⟨"entries"⟩).join ⟨name⟩) = .ok target) :
    t.find? (home ++ ["entries"]) = some .directory := by
  rcases h.entries with he | he
  · obtain ⟨links, hl⟩ := Tree.resolve_below h.locate ["entries", name]
      (by simpa using ⟨Houses.isName_entries, hn⟩) nofun (Tree.resolve_ok hr).1
    have hw := (hl follow).symm.trans hr
    rw [Tree.walk_none (.of_name Houses.isName_entries (by decide)) he,
      if_neg (by simp [hn.ne_empty])] at hw
    exact nomatch hw
  · exact he

/-- The directory of the payloads stands if a payload file was written. -/
theorem Cache.made_of_writeFile {c c' : Cache} {t t' : Tree} {dir : Path} {home : Place}
    {stem : String} {bytes : List UInt8} (h : t.Houses dir home) (hs : stem ≠ "")
    (hn : '/' ∉ stem.toList)
    (hw : c.writeFile t ((dir.join ⟨"entries"⟩).join ⟨fileName stem⟩) bytes = (c', t', .ok ())) :
    t.find? (home ++ ["entries"]) = some .directory := by
  unfold writeFile at hw
  dsimp only at hw
  rw [draft_path _ hs hn] at hw
  cases hd : t.write ((dir.join ⟨"entries"⟩).join ⟨draftName stem c.drafts⟩) bytes with
  | error e =>
    rw [hd] at hw
    exact nomatch (Prod.mk.inj (Prod.mk.inj hw).2).2
  | ok t₁ =>
    obtain ⟨target, hr, -⟩ := Tree.bind_ok hd
    exact h.made_of_resolve (isName_draftName hn _) hr

/-! ## Sites -/

namespace Site

variable {site : Site} {t t' t'' : Tree} {k k' : Path} {e e' : CacheEntry} {place q : Place}

/-- The payload file of a key. -/
def payloadPath (site : Site) (k : Path) : Path :=
  (site.directory.join ⟨"entries"⟩).join ⟨fileName (stemOf site.fingerprint k)⟩

/-- Where the payload file of a key stands. -/
def payloadPlace (site : Site) (k : Path) : Place :=
  Cache.payloadPlace site.fingerprint site.home k

/-- Where the index file stands. -/
def indexPlace (site : Site) : Place := site.home ++ [fileName "index"]

/-- A draft stands beside the index file or beside the payload files. -/
def IsDraft (site : Site) (q : Place) : Prop :=
  ∃ stem n, q = site.home ++ [draftName stem n] ∨
    q = site.home ++ ["entries"] ++ [draftName stem n]

theorem plain_stem (site : Site) (k : Path) :
    stemOf site.fingerprint k ≠ "" ∧ '/' ∉ (stemOf site.fingerprint k).toList :=
  site.plain k.text.toUTF8.toList

theorem isName_stem (site : Site) (k : Path) : IsName (fileName (stemOf site.fingerprint k)) :=
  Cache.isName_fileName (site.plain_stem k).2

theorem payloadPlace_not_draft (site : Site) (k : Path) : ¬ site.IsDraft (site.payloadPlace k) := by
  rintro ⟨stem, n, h | h⟩
  · exact Cache.payloadPlace_ne_top k _ h
  · exact Cache.payloadPlace_ne_draft k stem n h

theorem indexPlace_not_draft (site : Site) : ¬ site.IsDraft site.indexPlace := by
  rintro ⟨stem, n, h | h⟩
  · exact Cache.draftName_ne_fileName stem "index" n
      (List.singleton_inj.mp (List.append_cancel_left h)).symm
  · have := congrArg List.length h
    simp [indexPlace] at this

theorem payloadPlace_ne_index (site : Site) (k : Path) : site.payloadPlace k ≠ site.indexPlace :=
  Cache.payloadPlace_ne_top k _

theorem payloadPlace_ne_entries (site : Site) (k : Path) :
    site.payloadPlace k ≠ site.home ++ ["entries"] :=
  Cache.payloadPlace_ne_entries k

/-- Two keys of which a cache keeps one payload file are one key, if the keys are told apart. -/
theorem eq_of_payloadPlace {K : Path → Prop} (told : Cache.Unambiguous site.fingerprint K)
    (hk : K k) (hk' : K k') (h : site.payloadPlace k = site.payloadPlace k') : k = k' :=
  told k k' hk hk' (.inr (Cache.payloadPlace_inj h))

/-! ### What a payload file holds -/

/-- The payload file of a key holds an entry of the version of the site, and can be read. -/
structure Shelves (site : Site) (t : Tree) (k : Path) (e : CacheEntry) : Prop where
  nameable : (site.payloadPath k).Nameable
  made : t.find? (site.home ++ ["entries"]) = some .directory
  file : ∃ bytes changed, t.find? (site.payloadPlace k) = some (.file bytes changed) ∧
    (Text.decode? bytes).bind (fun text => (Json.parse text).bind CacheEntry.ofJson?) = some e
  version : e.metadata.formatVersion = site.formatVersion

/-- A payload file holds one entry. -/
theorem Shelves.unique (h : site.Shelves t k e) (h' : site.Shelves t k e') : e = e' := by
  obtain ⟨bytes, changed, hf, hr⟩ := h.file
  obtain ⟨bytes', changed', hf', hr'⟩ := h'.file
  obtain ⟨rfl, -⟩ := Node.file.inj (Option.some.inj (hf.symm.trans hf'))
  exact Option.some.inj (hr.symm.trans hr')

theorem Shelves.frame (h : site.Shelves t k e)
    (made : t'.find? (site.home ++ ["entries"]) = t.find? (site.home ++ ["entries"]))
    (same : t'.find? (site.payloadPlace k) = t.find? (site.payloadPlace k)) :
    site.Shelves t' k e := by
  refine ⟨h.nameable, made.trans h.made, ?_, h.version⟩
  rw [same]
  exact h.file

/-! ### What an operation touches -/

/-- A step of a cache that touches one place and drafts only. -/
structure Touches (site : Site) (place : Place) (t t' : Tree) : Prop where
  houses : t'.Houses site.directory site.home
  rewrites : Rewrites site.home t t'
  same : ∀ q, q ≠ place → ¬ site.IsDraft q → t'.find? q = t.find? q

theorem Touches.refl (houses : t.Houses site.directory site.home) (place : Place) :
    site.Touches place t t :=
  ⟨houses, .refl t, fun _ _ _ => rfl⟩

theorem Touches.trans (h : site.Touches place t t') (h' : site.Touches place t' t'') :
    site.Touches place t t'' :=
  ⟨h'.houses, h.rewrites.trans h'.rewrites,
    fun q hq hd => (h'.same q hq hd).trans (h.same q hq hd)⟩

theorem Touches.shelves (h : site.Touches place t t') (he : site.Shelves t k e)
    (hne : site.payloadPlace k ≠ place) : site.Shelves t' k e :=
  he.frame h.rewrites.entries (h.same _ hne (site.payloadPlace_not_draft k))

theorem Touches.index (h : site.Touches (site.payloadPlace k) t t') :
    t'.find? site.indexPlace = t.find? site.indexPlace :=
  h.same _ (site.payloadPlace_ne_index k).symm site.indexPlace_not_draft

/-- A file outside of the home stays where a path leads to it. -/
theorem Touches.locate (h : site.Touches place t t') (houses : t.Houses site.directory site.home)
    {bytes : List UInt8} {changed : Instant} (hl : t.locate k = .ok (q, .file bytes changed))
    (outside : ¬ Below site.home q) : t'.locate k = .ok (q, .file bytes changed) := by
  refine Tree.locate_mono hl h.rewrites.current fun r n hr hk => h.rewrites.keep houses hr ?_
  rcases hk with hk | rfl
  · exact .inl hk
  · exact .inr outside

/-- A step that removes files of the home and adds none. -/
structure Sheds (site : Site) (t t' : Tree) : Prop where
  houses : t'.Houses site.directory site.home
  fewer : ∀ q n, q ≠ site.home ++ ["entries"] → t'.find? q = some n → t.find? q = some n

theorem Sheds.refl (houses : t.Houses site.directory site.home) : site.Sheds t t :=
  ⟨houses, fun _ _ _ => id⟩

theorem Sheds.trans (h : site.Sheds t t') (h' : site.Sheds t' t'') : site.Sheds t t'' :=
  ⟨h'.houses, fun q n hq hn => h.fewer q n hq (h'.fewer q n hq hn)⟩

theorem Sheds.removeEntries (houses : t.Houses site.directory site.home)
    (hr : t.removeDirectory (site.directory.join ⟨"entries"⟩) = .ok t') : site.Sheds t t' := by
  have hbelow : Below site.home (site.home ++ ["entries"]) := below_append nofun
  obtain rfl := houses.slotAt_entries.removeDirectory hr
  refine ⟨houses.removeBelow, fun q n _ hn => ?_⟩
  rw [Tree.find?_removeBelow t hbelow.ne_nil] at hn
  split at hn
  · exact nomatch hn
  · exact hn

theorem Sheds.createEntries (houses : t.Houses site.directory site.home)
    {r : Except IoFailure Unit}
    (hc : t.createDirectories (site.directory.join ⟨"entries"⟩) = (t', r)) : site.Sheds t t' := by
  obtain ⟨houses', -, frame⟩ := houses.createDirectories hc
  exact ⟨houses', fun q n hq hn => (frame q hq).symm.trans hn⟩

theorem Sheds.removeIndex (houses : t.Houses site.directory site.home)
    (hr : t.removeFile (site.directory.join ⟨"index.json"⟩) = .ok t') : site.Sheds t t' := by
  have hbelow : Below site.home (site.home ++ ["index.json"]) := below_append nofun
  have hne : site.home ++ ["index.json"] ≠ site.home ++ ["entries"] :=
    Cache.area_ne_entries (@Area.top site.directory site.home) (by decide)
  obtain rfl := (houses.slotAt .top (by decide) hne).removeFile hr
  refine ⟨houses.remove hbelow, fun q n _ hn => ?_⟩
  rw [Tree.find?_remove t hbelow.ne_nil] at hn
  split at hn
  · exact nomatch hn
  · exact hn

/-! ### Writing a file -/

/-- What writing a file leads to: the bytes stand at its place, or all files but the drafts stand as
before. -/
inductive Writes (site : Site) (p : Path) (place : Place) (bytes : List UInt8) (t : Tree) :
    Tree → Except Failure Unit → Prop
  | failed {t' : Tree} {f : Failure} (touched : ∀ place, site.Touches place t t') :
      Writes site p place bytes t t' (.error f)
  | written {t' : Tree} {changed : Instant} (touched : site.Touches place t t')
      (nameable : p.Nameable) (file : t'.find? place = some (.file bytes changed)) :
      Writes site p place bytes t t' (.ok ())

theorem Writes.touches {p : Path} {bytes : List UInt8} {r : Except Failure Unit}
    (h : site.Writes p place bytes t t' r) : site.Touches place t t' := by
  cases h with
  | failed touched => exact touched place
  | written touched => exact touched

theorem writes (houses : t.Houses site.directory site.home) {c c' : Cache} {b : Path} {d : Place}
    {stem : String} {bytes : List UInt8} {r : Except Failure Unit}
    (area : Area site.directory site.home b d) (hs : stem ≠ "") (hn : '/' ∉ stem.toList)
    (hw : c.writeFile t (b.join ⟨fileName stem⟩) bytes = (c', t', r)) :
    c' = { c with drafts := c.drafts + 1 } ∧
      site.Writes (b.join ⟨fileName stem⟩) (d ++ [fileName stem]) bytes t t' r := by
  obtain ⟨t₁, r₁, hw₁, houses', rewrites, frame, post⟩ := c.writeFile_spec houses area hs hn bytes
  obtain ⟨rfl, rfl, rfl⟩ := Cache.triple_inj hw₁ hw
  have spared {q : Place} (hd : ¬ site.IsDraft q) : q ≠ d ++ [draftName stem c.drafts] := by
    rintro rfl
    cases area with
    | top => exact hd ⟨_, _, .inl rfl⟩
    | entries => exact hd ⟨_, _, .inr rfl⟩
  refine ⟨rfl, ?_⟩
  cases r₁ with
  | ok =>
    obtain ⟨changed, post⟩ := post
    exact .written ⟨houses', rewrites, fun q hq hd => frame q hq (spared hd)⟩
      (Cache.nameable_of_writeFile hw) post
  | error =>
    refine .failed fun place => ⟨houses', rewrites, fun q _ hd => ?_⟩
    by_cases hq : q = d ++ [fileName stem]
    · rw [hq]
      exact post
    · exact frame q hq (spared hd)

end Site

/-! ## Caches at a site -/

namespace Cache

variable {site : Site} {c c' : Cache} {t t' : Tree} {p : Path} {e : CacheEntry} {m : Module}
  {edges : List Edge} {micros : Nat}

/-- A cache that was opened at a site. -/
structure At (site : Site) (c : Cache) : Prop where
  directory : c.directory = site.directory
  fingerprint : c.fingerprint = site.fingerprint
  formatVersion : c.formatVersion = site.formatVersion

namespace At

theorem same (h : c.At site) (hs : SameSetup c c') : c'.At site where
  directory := hs.directory.trans h.directory
  fingerprint := hs.fingerprint.trans h.fingerprint
  formatVersion := hs.formatVersion.trans h.formatVersion

theorem plain (h : c.At site) : PlainNames c.fingerprint := by
  rw [h.fingerprint]
  exact site.plain

theorem payloadPath (h : c.At site) (t : Tree) (p : Path) :
    c.payloadPath t p = site.payloadPath (t.key p) := by
  rw [payloadPath_eq, h.directory, h.fingerprint]
  rfl

theorem indexPath (h : c.At site) : c.indexPath = site.directory.join ⟨fileName "index"⟩ := by
  unfold Cache.indexPath
  rw [h.directory]
  rfl

/-- A payload is read if its file holds it and it fits the record. -/
theorem readPayload? (h : c.At site) (houses : t.Houses site.directory site.home)
    (held : site.Shelves t (t.key p) e) {r : IndexRecord} (digest : e.stamp.digest = r.stamp.digest) :
    c.readPayload? t p r = some e := by
  obtain ⟨bytes, changed, hf, hread⟩ := held.file
  have htext : (t.readText (c.payloadPath t p)).toOption = Text.decode? bytes := by
    rw [h.payloadPath]
    exact houses.readText held.made .entries (site.isName_stem _)
      (site.payloadPlace_ne_entries _) held.nameable hf
  rw [← htext] at hread
  obtain ⟨text, ht, hread⟩ := Option.bind_eq_some_iff.mp hread
  unfold Cache.readPayload?
  simp only [ht, hread, Option.bind_eq_bind, Option.bind_some, held.version, h.formatVersion, digest,
    decide_true, Bool.and_self, if_true]

/-- A payload that is read is held by its file. -/
theorem shelves (h : c.At site) (houses : t.Houses site.directory site.home) {r : IndexRecord}
    (hr : c.readPayload? t p r = some e) : site.Shelves t (t.key p) e := by
  obtain ⟨text, htext, hread, version, -⟩ := Cache.readPayload?_eq_some hr
  rw [h.payloadPath] at htext
  have hslot := houses.slotAt .entries (site.isName_stem (t.key p)) (site.payloadPlace_ne_entries _)
  obtain ⟨bytes, changed, hf, hd⟩ := hslot.readText htext
  obtain ⟨target, hl, -⟩ := Tree.bind_ok htext
  obtain ⟨target', hl', -⟩ := Tree.bind_ok hl
  obtain ⟨place, node⟩ := target'
  have hresolve := Tree.locate_ok hl'
  refine ⟨Tree.nameable_of_resolve hresolve,
    houses.made_of_resolve (site.isName_stem _) hresolve, ⟨bytes, changed, hf, ?_⟩,
    version.trans h.formatVersion⟩
  rw [hd]
  exact hread

/-- Writing the payload file of a key. -/
theorem writePayload (h : c.At site) (houses : t.Houses site.directory site.home)
    {bytes : List UInt8} {r : Except Failure Unit}
    (hw : c.writeFile t (c.payloadPath t p) bytes = (c', t', r)) :
    c' = { c with drafts := c.drafts + 1 } ∧
      site.Writes (site.payloadPath (t.key p)) (site.payloadPlace (t.key p)) bytes t t' r := by
  obtain ⟨hstem, hslash⟩ := site.plain_stem (t.key p)
  rw [h.payloadPath] at hw
  exact Site.writes houses .entries hstem hslash hw

/-- Writing the index file. -/
theorem writeIndex (h : c.At site) (houses : t.Houses site.directory site.home)
    {bytes : List UInt8} {r : Except Failure Unit}
    (hw : c.writeFile t c.indexPath bytes = (c', t', r)) :
    c' = { c with drafts := c.drafts + 1 } ∧
      site.Writes (site.directory.join ⟨fileName "index"⟩) site.indexPlace bytes t t' r := by
  rw [h.indexPath] at hw
  exact Site.writes houses .top (by decide) (by decide) hw

/-- Storing a result writes the payload file of the key, of which the system takes the path, and
holds the entry. -/
theorem store_writes (h : c.At site) (houses : t.Houses site.directory site.home)
    {stamp : FileStamp} (hs : c.store t p m edges micros = (c', t', .ok stamp)) :
    ∃ s, c.stamp? t p = some s ∧ stamp = (c.entryFor t s m edges micros).stamp ∧
      c' = ({ c with drafts := c.drafts + 1 } : Cache).hold (c.entryFor t s m edges micros) ∧
      site.Touches (site.payloadPlace (t.key p)) t t' ∧
      (site.payloadPath (t.key p)).Nameable ∧
      t'.find? (site.home ++ ["entries"]) = some .directory ∧
      ∃ changed, t'.find? (site.payloadPlace (t.key p)) =
        some (.file (c.entryFor t s m edges micros).bytes changed) := by
  rcases c.store_cases t p m edges micros with
    ⟨e, hs'⟩ | ⟨s, t₁, hstamp, ⟨e, -, hs'⟩ | ⟨hw, hs'⟩⟩
  · exact nomatch (Prod.mk.inj (Prod.mk.inj (hs'.symm.trans hs)).2).2
  · exact nomatch (Prod.mk.inj (Prod.mk.inj (hs'.symm.trans hs)).2).2
  · obtain ⟨rfl, rfl, hok⟩ := triple_inj hs' hs
    obtain ⟨-, writes⟩ := h.writePayload houses hw
    cases writes with
    | written touched nameable file =>
      obtain ⟨hstem, hslash⟩ := site.plain_stem (t.key p)
      rw [h.payloadPath] at hw
      have made := touched.rewrites.entries.trans (made_of_writeFile houses hstem hslash hw)
      exact ⟨s, hstamp, (Except.ok.inj hok).symm, rfl, touched, nameable, made, _, file⟩

/-- A stored result of a size that the payload file can hold can be read from there. -/
theorem store_ok (h : c.At site) (houses : t.Houses site.directory site.home) {stamp : FileStamp}
    (hs : c.store t p m edges micros = (c', t', .ok stamp)) :
    ∃ s, c.stamp? t p = some s ∧ stamp = (c.entryFor t s m edges micros).stamp ∧
      c' = ({ c with drafts := c.drafts + 1 } : Cache).hold (c.entryFor t s m edges micros) ∧
      site.Touches (site.payloadPlace (t.key p)) t t' ∧
      ((c.entryFor t s m edges micros).Sized →
        site.Shelves t' (t.key p) (c.entryFor t s m edges micros)) := by
  obtain ⟨s, hstamp, hstored, held, touched, nameable, made, changed, file⟩ :=
    h.store_writes houses hs
  exact ⟨s, hstamp, hstored, held, touched, fun sized =>
    ⟨nameable, made, ⟨_, _, file, CacheEntry.read_sized sized⟩, h.formatVersion⟩⟩

/-- A result that could not be stored leaves all files but the drafts, and all records. -/
theorem store_error (h : c.At site) (houses : t.Houses site.directory site.home) {f : Failure}
    (hs : c.store t p m edges micros = (c', t', .error f)) :
    (∀ place, site.Touches place t t') ∧ ∃ drafts, c' = { c with drafts } := by
  rcases c.store_cases t p m edges micros with
    ⟨e, hs'⟩ | ⟨s, t₁, -, ⟨e, hw, hs'⟩ | ⟨-, hs'⟩⟩
  · obtain ⟨rfl, rfl, -⟩ := triple_inj hs' hs
    exact ⟨.refl houses, c.drafts, rfl⟩
  · obtain ⟨rfl, rfl, -⟩ := triple_inj hs' hs
    obtain ⟨-, writes⟩ := h.writePayload houses hw
    cases writes with
    | failed touched => exact ⟨touched, _, rfl⟩
  · exact nomatch (Prod.mk.inj (Prod.mk.inj (hs'.symm.trans hs)).2).2

/-- Removing a record removes its payload file or leaves the tree as it is. -/
theorem invalidate_tree (h : c.At site) (houses : t.Houses site.directory site.home) (p : Path) :
    (c.invalidate t p).2.1 = t ∨
      (c.invalidate t p).2.1 = t.remove (site.payloadPlace (t.key p)) := by
  rw [← h.directory] at houses
  have htree := c.invalidate_tree houses h.plain p
  rwa [h.fingerprint] at htree

/-- Removing a record touches its payload file only. -/
theorem invalidate (h : c.At site) (houses : t.Houses site.directory site.home) (p : Path) :
    site.Touches (site.payloadPlace (t.key p)) t (c.invalidate t p).2.1 := by
  have hbelow : Below site.home (site.payloadPlace (t.key p)) := below_payloadPlace _
  rcases h.invalidate_tree houses p with ht | ht
  · rw [ht]
    exact .refl houses _
  · rw [ht]
    refine ⟨houses.remove hbelow, .remove hbelow (payloadPlace_ne_entries _), fun q hq _ => ?_⟩
    rw [Tree.find?_remove t hbelow.ne_nil, if_neg hq]

/-- What writing the index leads to. -/
inductive Flushed (site : Site) (c : Cache) (t : Tree) : Cache → Tree → Except Failure Unit → Prop
  | clean (h : c.dirty = false) : Flushed site c t c t (.ok ())
  | failed {t' : Tree} {f : Failure} (h : ∀ place, site.Touches place t t') :
      Flushed site c t { c with drafts := c.drafts + 1 } t' (.error f)
  | written {t' : Tree} {changed : Instant} (h : site.Touches site.indexPlace t t')
      (nameable : (site.directory.join ⟨fileName "index"⟩).Nameable)
      (file : t'.find? site.indexPlace = some (.file c.indexFile.bytes changed)) :
      Flushed site c t { c with drafts := c.drafts + 1, dirty := false } t' (.ok ())

theorem Flushed.touches {r : Except Failure Unit} (h : Flushed site c t c' t' r)
    (houses : t.Houses site.directory site.home) : site.Touches site.indexPlace t t' := by
  cases h with
  | clean => exact .refl houses _
  | failed touched => exact touched _
  | written touched => exact touched

/-- Writing the index leaves what a cache knows. -/
theorem Flushed.records {r : Except Failure Unit} (h : Flushed site c t c' t' r) :
    c'.index = c.index ∧ c'.recent = c.recent := by
  cases h with
  | clean => exact ⟨rfl, rfl⟩
  | failed => exact ⟨rfl, rfl⟩
  | written => exact ⟨rfl, rfl⟩

theorem flush (h : c.At site) (houses : t.Houses site.directory site.home)
    {r : Except Failure Unit} (hf : c.flush t = (c', t', r)) : Flushed site c t c' t' r := by
  rcases c.flush_cases t with ⟨clean, hf'⟩ | ⟨t₁, r₁, -, hw, hf'⟩
  · obtain ⟨rfl, rfl, rfl⟩ := triple_inj hf' hf
    exact .clean clean
  · obtain ⟨-, writes⟩ := h.writeIndex houses hw
    cases writes with
    | failed touched =>
      obtain ⟨rfl, rfl, rfl⟩ := triple_inj hf' hf
      exact .failed touched
    | written touched nameable file =>
      obtain ⟨rfl, rfl, rfl⟩ := triple_inj hf' hf
      exact .written touched nameable file

/-- Removing everything leaves no record and adds no file. -/
theorem clear (h : c.At site) (houses : t.Houses site.directory site.home)
    {r : Except Failure Unit} (hc : c.clear t = (c', t', r)) :
    site.Sheds t t' ∧ ∃ dirty, c' = { c with index := .empty, recent := [], dirty } := by
  have hentries : c.entriesPath = site.directory.join ⟨"entries"⟩ := by
    unfold Cache.entriesPath
    rw [h.directory]
  have hindex : c.indexPath = site.directory.join ⟨"index.json"⟩ := h.indexPath
  unfold Cache.clear at hc
  dsimp only at hc
  rw [show ({ c with index := .empty, recent := [] } : Cache).entriesPath = _ from hentries,
    show ({ c with index := .empty, recent := [] } : Cache).indexPath = _ from hindex] at hc
  split at hc
  · obtain ⟨rfl, rfl, -⟩ := triple_inj rfl hc
    exact ⟨.refl houses, c.dirty, rfl⟩
  · rename_i t₁ h₁
    have removed : site.Sheds t t₁ := by
      split at h₁
      · exact .removeEntries houses h₁
      · obtain rfl := Except.ok.inj h₁
        exact .refl houses
    split at hc
    · rename_i t₂ e h₂
      obtain ⟨rfl, rfl, -⟩ := triple_inj rfl hc
      exact ⟨removed.trans (.createEntries removed.houses h₂), c.dirty, rfl⟩
    · rename_i t₂ h₂
      have made := removed.trans (.createEntries removed.houses h₂)
      split at hc
      · obtain ⟨rfl, rfl, -⟩ := triple_inj rfl hc
        exact ⟨made, c.dirty, rfl⟩
      · rename_i t₃ h₃
        have cleared : site.Sheds t t₃ := by
          split at h₃
          · exact made.trans (.removeIndex made.houses h₃)
          · obtain rfl := Except.ok.inj h₃
            exact made
        obtain ⟨rfl, rfl, -⟩ := triple_inj rfl hc
        exact ⟨cleared, false, rfl⟩

/-- A cache that has just been opened is one of the site; opening makes the directory of the
payloads and touches nothing else. -/
theorem opened {settingsDigest : String} {capacity : Nat}
    (ho : Cache.openIn t site.directory settingsDigest capacity site.formatVersion
      site.fingerprint = (t', .ok c)) :
    c.At site ∧ c.recent = [] ∧ c.settingsDigest = settingsDigest ∧ c.dirty = false ∧
      c.index = readIndex site.formatVersion t' (site.directory.join ⟨fileName "index"⟩) := by
  obtain ⟨recent, directory, settings, fingerprint, version⟩ := openIn_ok ho
  obtain ⟨-, hindex, hclean⟩ := Backed.openIn_index ho
  exact ⟨⟨directory, fingerprint, version⟩, recent, settings, hclean, hindex⟩

end At
end Cache
end SourceSurvey
