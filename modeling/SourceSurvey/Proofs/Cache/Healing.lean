import SourceSurvey.Proofs.Cache.Client
import SourceSurvey.Proofs.Cache.Removal

/-!
# Damaged files

Nothing is known of the files in the directory of a cache when it is opened, and they may be replaced
or deleted at any time. All the same the memory of an open cache can be relied on (`Cache.Vouched`),
so whatever is served was stored for the content that the file has now, in the version of the site
(`Cache.Served`). A payload file that does not do for its record (`Site.Damaged`) is removed with the
record, and the result can be stored anew (`Cache.Heals`).

* `Cache.Vouched.perform`, `Client.Vouched.after`: the step lemma and the run lemma.
* `Cache.Vouched.heals`: what looking a file up does that has a damaged payload.
* `Client.damaged_files_heal`: all of it after whatever was asked for and done to the files.
-/

namespace SourceSurvey

open SourceSurvey.Tree (Houses)
open Cache (draftName stemOf)

/-! ## Damage -/

/-- The payload file of a key does not do for a record of some content: there is none, or one that
holds no entry, or the entry has another version or was stored for other content. -/
inductive Site.Damaged (site : Site) (t : Tree) (k : Path) (digest : String) : Prop
  | missing (h : t.find? (site.payloadPlace k) = none)
  | undecodable {bytes : List UInt8} {changed : Instant}
      (h : t.find? (site.payloadPlace k) = some (.file bytes changed))
      (read : (Text.decode? bytes).bind (fun text => (Json.parse text).bind CacheEntry.ofJson?) = none)
  | outdated {bytes : List UInt8} {changed : Instant} {e : CacheEntry}
      (h : t.find? (site.payloadPlace k) = some (.file bytes changed))
      (read : (Text.decode? bytes).bind (fun text => (Json.parse text).bind CacheEntry.ofJson?) = some e)
      (other : e.metadata.formatVersion ≠ site.formatVersion)
  | foreign {bytes : List UInt8} {changed : Instant} {e : CacheEntry}
      (h : t.find? (site.payloadPlace k) = some (.file bytes changed))
      (read : (Text.decode? bytes).bind (fun text => (Json.parse text).bind CacheEntry.ofJson?) = some e)
      (other : e.stamp.digest ≠ digest)

/-- Replacing a payload file touches this file only. -/
theorem Site.touches_put {site : Site} {t : Tree} (houses : t.Houses site.directory site.home) (k : Path)
    (bytes : List UInt8) (changed : Instant) :
    site.Touches (site.payloadPlace k) t (t.put (site.payloadPlace k) (.file bytes changed)) := by
  have hbelow : Below site.home (site.payloadPlace k) := Cache.below_payloadPlace k
  have hne := site.payloadPlace_ne_entries k
  refine ⟨houses.put hbelow hne (.intro ..), .put hbelow hne _, fun q hq _ => ?_⟩
  rw [Tree.find?_put t hbelow.ne_nil, if_neg hq]

namespace Cache

variable {site : Site} {c c' : Cache} {t t' : Tree} {p k : Path} {e : CacheEntry}

/-- A damaged payload is not read. -/
theorem At.readPayload?_of_damaged (here : c.At site) (houses : t.Houses site.directory site.home)
    {r : IndexRecord} (damaged : site.Damaged t (t.key p) r.stamp.digest) :
    c.readPayload? t p r = none := by
  by_contra hsome
  obtain ⟨e, he⟩ := Option.ne_none_iff_exists'.mp hsome
  obtain ⟨-, -, ⟨bytes, changed, hf, hread⟩, version⟩ := here.shelves houses he
  have digest := readPayload?_digest he
  cases damaged with
  | missing h => exact nomatch h.symm.trans hf
  | undecodable h read =>
    obtain ⟨rfl, -⟩ := Node.file.inj (Option.some.inj (h.symm.trans hf))
    exact nomatch read.symm.trans hread
  | outdated h read other =>
    obtain ⟨rfl, -⟩ := Node.file.inj (Option.some.inj (h.symm.trans hf))
    obtain rfl := Option.some.inj (read.symm.trans hread)
    exact other version
  | foreign h read other =>
    obtain ⟨rfl, -⟩ := Node.file.inj (Option.some.inj (h.symm.trans hf))
    obtain rfl := Option.some.inj (read.symm.trans hread)
    exact other digest.symm

/-! ## A cache that can be relied on -/

/-- A cache at its site with room for a payload, whose payloads in memory fit their records and have
the version of the site. Nothing is said of the files. -/
structure Vouched (site : Site) (c : Cache) (t : Tree) : Prop where
  here : c.At site
  houses : t.Houses site.directory site.home
  room : 0 < c.capacity
  coherent : c.Coherent
  version : ∀ x ∈ c.recent, x.2.metadata.formatVersion = site.formatVersion

namespace Vouched

theorem opened (houses : t.Houses site.directory site.home) {settingsDigest : String} {capacity : Nat}
    (h : openIn t site.directory settingsDigest capacity site.formatVersion site.fingerprint =
      (t', .ok c)) : c.Vouched site t' := by
  obtain ⟨here, recent, -⟩ := At.opened h
  have room : 0 < c.capacity := by
    unfold openIn at h
    dsimp only at h
    split at h
    · exact nomatch h
    · obtain rfl := Except.ok.inj (Prod.mk.inj h).2
      dsimp only
      split
      · decide
      · exact Nat.pos_of_ne_zero ‹_›
  refine ⟨here, (Client.sheds_openIn houses h).houses, room, coherent_of_recent_nil recent, ?_⟩
  rw [recent]
  exact nofun

/-- A cache stays reliable whatever happens to the files. -/
theorem edited (h : c.Vouched site t) (houses : t'.Houses site.directory site.home) :
    c.Vouched site t' :=
  ⟨h.here, houses, h.room, h.coherent, h.version⟩

/-- What a cache counts does not matter. -/
theorem counted (h : c.Vouched site t) (hits misses savedMicros drafts : Nat) (dirty : Bool) :
    ({ c with hits, misses, savedMicros, drafts, dirty } : Cache).Vouched site t :=
  ⟨h.here.same ⟨rfl, rfl, rfl, rfl⟩, h.houses, h.room, h.coherent, h.version⟩

theorem store (h : c.Vouched site t) (p : Path) (m : Module) (edges : List Edge) (micros : Nat) :
    (c.store t p m edges micros).1.Vouched site (c.store t p m edges micros).2.1 := by
  rcases hs : c.store t p m edges micros with ⟨c', t', r⟩
  have coherent := h.coherent.store hs
  cases r with
  | error f =>
    obtain ⟨touched, drafts, rfl⟩ := h.here.store_error h.houses hs
    exact (h.edited (touched []).houses).counted ..
  | ok stamp =>
    obtain ⟨s, -, -, rfl, touched, -⟩ := h.here.store_writes h.houses hs
    refine ⟨h.here.same ⟨rfl, rfl, rfl, rfl⟩, touched.houses, h.room, coherent, fun x hx => ?_⟩
    rcases mem_use hx with rfl | ⟨hx, -⟩
    · exact h.here.formatVersion
    · exact h.version x hx

theorem invalidate (h : c.Vouched site t) (p : Path) :
    (c.invalidate t p).1.Vouched site (c.invalidate t p).2.1 :=
  ⟨h.here.same ⟨rfl, rfl, rfl, rfl⟩, (h.here.invalidate h.houses p).houses, h.room,
    h.coherent.invalidate t p, fun x hx => h.version x (List.mem_of_mem_filter hx)⟩

theorem invalidateAll (h : c.Vouched site t) (paths : List Path) :
    (c.invalidateAll t paths).1.Vouched site (c.invalidateAll t paths).2 := by
  induction paths generalizing c t with
  | nil => exact h
  | cons p rest ih => exact ih (h.invalidate p)

theorem flush (h : c.Vouched site t) : (c.flush t).1.Vouched site (c.flush t).2.1 := by
  rcases hf : c.flush t with ⟨c', t', r⟩
  have flushed := h.here.flush h.houses hf
  have houses := (flushed.touches h.houses).houses
  cases flushed with
  | clean => exact h
  | failed => exact (h.edited houses).counted ..
  | written => exact (h.edited houses).counted ..

theorem cleanup (h : c.Vouched site t) {days : Nat} {r : Except Failure Nat}
    (hc : c.cleanup t days = some (c', t', r)) : c'.Vouched site t' := by
  unfold Cache.cleanup at hc
  split at hc
  · exact nomatch hc
  · have vouched := h.invalidateAll (c.staleKeys t.now (signedDays days))
    dsimp only at hc
    split at hc
    · obtain ⟨rfl, rfl, -⟩ := triple_inj rfl (Option.some.inj hc)
      exact vouched
    · obtain ⟨rfl, rfl, -⟩ := triple_inj rfl (Option.some.inj hc)
      exact vouched.flush

theorem clear (h : c.Vouched site t) : (c.clear t).1.Vouched site (c.clear t).2.1 := by
  rcases hc : c.clear t with ⟨c', t', r⟩
  obtain ⟨sheds, dirty, rfl⟩ := h.here.clear h.houses hc
  exact ⟨h.here.same ⟨rfl, rfl, rfl, rfl⟩, sheds.houses, h.room, coherent_of_recent_nil rfl, nofun⟩

/-- What is served has the version of the site. -/
theorem served_version (h : c.Vouched site t) {r : IndexRecord}
    (he : (∃ k, (k, e) ∈ c.recent ∧ (t.key p).same k = true) ∨ c.readPayload? t p r = some e) :
    e.metadata.formatVersion = site.formatVersion := by
  rcases he with ⟨k, hk, -⟩ | hr
  · exact h.version _ hk
  · exact (h.here.shelves h.houses hr).version

theorem load (h : c.Vouched site t) (p : Path) :
    (c.load t p).1.Vouched site (c.load t p).2.1 := by
  rcases c.load_cases t p with hl | hl | ⟨r, e, -, hl, he⟩
  · rw [hl]
    exact h.counted ..
  · rw [hl]
    exact (h.invalidate p).counted ..
  · have coherent := h.coherent.load hl
    rw [hl]
    refine ⟨h.here.same ⟨rfl, rfl, rfl, rfl⟩, h.houses, h.room, coherent, fun x hx => ?_⟩
    rcases mem_use hx with rfl | ⟨hx, -⟩
    · exact h.served_version he
    · exact h.version x hx

theorem get (h : c.Vouched site t) (p : Path) : (c.get t p).1.Vouched site (c.get t p).2.1 := by
  unfold Cache.get
  split
  · exact h.counted ..
  · exact h.load p

theorem collect {lookup : Cache → Tree → Path → Cache × Tree × Option CacheEntry}
    (one : ∀ c t p, c.Vouched site t → (lookup c t p).1.Vouched site (lookup c t p).2.1)
    (h : c.Vouched site t) (paths : List Path) (found : PathMap CacheEntry) :
    (Cache.collect lookup c t found paths).1.Vouched site
      (Cache.collect lookup c t found paths).2.1 := by
  induction paths generalizing c t found with
  | nil => exact h
  | cons p rest ih => exact ih (one c t p h) _

/-- A cache stays reliable whatever it does for its client. -/
theorem perform (h : c.Vouched site t) (o : Order) :
    (c.perform t o).1.Vouched site (c.perform t o).2.1 := by
  unfold Cache.perform
  cases o with
  | storing p m edges micros =>
    dsimp only
    exact h.store p m edges micros
  | checking => exact h
  | comparing =>
    dsimp only [changedFiles]
    exact h.counted ..
  | getting p =>
    dsimp only
    exact h.get p
  | gettingAll paths =>
    dsimp only
    exact h.collect (fun _ _ p h => h.get p) paths .empty
  | loadingAll paths =>
    dsimp only
    exact h.collect (fun _ _ p h => h.load p) paths .empty
  | invalidating p =>
    dsimp only
    exact h.invalidate p
  | cleaning days =>
    dsimp only
    rcases hc : c.cleanup t days with _ | ⟨c', t', r⟩
    · exact h
    · exact h.cleanup hc
  | clearing =>
    dsimp only
    exact h.clear
  | forgetting =>
    dsimp only
    exact ⟨h.here.same ⟨rfl, rfl, rfl, rfl⟩, h.houses, h.room, Coherent.clearMemory c, nofun⟩
  | flushing =>
    dsimp only
    exact h.flush

end Vouched

/-! ## What is served -/

/-- An entry that is served for a path: it was stored for the content that the file has now, be it
found under its canonical path or under the path itself, and it has the version of the site. -/
structure Served (site : Site) (t : Tree) (p : Path) (e : CacheEntry) : Prop where
  fits : Session.Fits site.fingerprint t p e
  content : t.Rooted site.home → ∀ place bytes changed,
    t.locate p = .ok (place, .file bytes changed) → ¬ Below site.home place →
      e.stamp.digest = site.fingerprint bytes
  version : e.metadata.formatVersion = site.formatVersion

theorem Vouched.served_of_get (h : c.Vouched site t) (hg : c.get t p = (c', t', some e)) :
    Served site t p e := by
  obtain ⟨place, bytes, changed, hl, digest⟩ := get_digest h.coherent hg
  rw [h.here.fingerprint] at digest
  refine ⟨⟨place, bytes, changed, hl, digest⟩, fun rooted _ _ _ hp outside => ?_, ?_⟩
  · rw [digest, rooted.locate_key hp outside hl]
  · unfold Cache.get at hg
    split at hg
    · exact nomatch hg
    · rcases c.load_cases t p with hl | hl | ⟨r, e', -, hl, he⟩
      · exact nomatch hl.symm.trans hg
      · exact nomatch hl.symm.trans hg
      · obtain rfl := Option.some.inj (Prod.mk.inj (Prod.mk.inj (hl.symm.trans hg)).2).2
        exact h.served_version he

/-! ## Healing -/

/-- Looking a file up heals its cache: one miss is counted, the record goes and so does the payload
file, so that the file counts as changed; other records stay. What is stored for the file next is
served from then on. -/
structure Heals (site : Site) (c : Cache) (t : Tree) (p : Path) (c' : Cache) (t' : Tree) : Prop where
  misses : c'.misses = c.misses + 1
  hits : c'.hits = c.hits
  unknown : ¬ c'.Knows (t.key p)
  payload : t.find? (site.home ++ ["entries"]) = some .directory →
    (site.payloadPath (t.key p)).Nameable → t'.find? (site.payloadPlace (t.key p)) = none
  changed : c'.hasChanged t' p = true
  others : ∀ k, (t.key p).same k = false → c'.index.get? k = c.index.get? k
  storable : t.find? (site.home ++ ["entries"]) = some .directory →
    (site.payloadPath (t.key p)).Nameable →
    ((site.directory.join ⟨"entries"⟩).join
      ⟨draftName (stemOf site.fingerprint (t.key p)) c.drafts⟩).Nameable →
    ∀ m edges micros, ∃ c₁ t₁ stamp, c'.store t' p m edges micros = (c₁, t₁, .ok stamp)
  restored : ∀ m edges micros c₁ t₁ stamp, c'.store t' p m edges micros = (c₁, t₁, .ok stamp) →
    ∃ c₂ e, c₁.get t₁ p = (c₂, t₁, some e) ∧ e.module = m ∧ e.edges = edges

namespace Vouched

variable (h : c.Vouched site t) (apart : site.Apart (site.payloadPlace (t.key p)) t p)
  (apart' : site.Apart (site.payloadPlace (t.key p)) t (t.key p))
include h apart apart'

/-- A result that was stored is served. -/
theorem get_of_store {m : Module} {edges : List Edge} {micros : Nat} {stamp : FileStamp}
    (stored : c.store t p m edges micros = (c', t', .ok stamp)) :
    ∃ c'' e, c'.get t' p = (c'', t', some e) ∧ e.module = m ∧ e.edges = edges := by
  obtain ⟨s, hstamp, -, rfl, touched, -⟩ := h.here.store_writes h.houses stored
  obtain ⟨path, place, bytes, changed, hl, digest, size, time⟩ := stamp?_some hstamp
  have hkey := apart.key touched h.houses
  have hl' : t'.locate (t'.key p) = .ok (place, .file bytes changed) := by
    rw [hkey]
    exact (apart'.locate_iff touched h.houses).mpr hl
  have room : 0 < ({ c with drafts := c.drafts + 1 } : Cache).capacity := h.room
  have hpath : (c.entryFor t s m edges micros).stamp.path = t'.key p := path.trans hkey.symm
  obtain ⟨c'', hget⟩ := get_hold room hpath rfl hl' size time digest
  exact ⟨c'', _, hget, rfl, rfl⟩

/-- Looking up a file that has not changed, but of which the payload is not in memory and its file is
damaged, heals the cache. -/
theorem heals {r : IndexRecord} (hi : c.index.get? (t.key p) = some r)
    (unchanged : c.hasChanged t p = false) (cold : ∀ x ∈ c.recent, (t.key p).same x.1 = false)
    (damaged : site.Damaged t (t.key p) r.stamp.digest) :
    ∃ c' t', c.get t p = (c', t', none) ∧ Heals site c t p c' t' := by
  have hget : c.get t p = ((c.invalidate t p).1.countMiss, (c.invalidate t p).2.1, none) := by
    unfold Cache.get
    rw [unchanged, if_neg Bool.false_ne_true]
    exact load_of_unreadable hi cold (h.here.readPayload?_of_damaged h.houses damaged)
  have after : (c.invalidate t p).1.countMiss.Vouched site (c.invalidate t p).2.1 := by
    have hv := h.get p
    rwa [hget] at hv
  have touched := h.here.invalidate h.houses p
  have hkey := apart.key touched h.houses
  refine ⟨_, _, hget, ?_⟩
  refine
    { misses := rfl
      hits := rfl
      unknown := not_knows_invalidate c t (Path.same_refl _)
      payload := fun made nameable => h.here.payload_invalidate h.houses made nameable
      changed := ?_
      others := fun k hk => ?_
      storable := fun made nameable draft m edges micros => ?_
      restored := fun m edges micros c₁ t₁ stamp stored => ?_ }
  · refine hasChanged_of_unknown ?_
    rw [hkey]
    exact (PathMap.get?_erase ..).trans (if_pos (Path.same_refl _))
  · refine (PathMap.get?_erase ..).trans (if_neg ?_)
    rw [hk]
    exact Bool.false_ne_true
  · obtain ⟨place, bytes, changed, hl, -⟩ :=
      digest_of_hasChanged (Bool.eq_false_iff.mp unchanged) hi
    have hl' : (c.invalidate t p).2.1.locate ((c.invalidate t p).2.1.key p) =
        .ok (place, .file bytes changed) := by
      rw [hkey]
      exact (apart'.locate_iff touched h.houses).mpr hl
    obtain ⟨s, hs⟩ := stamp?_of_locate (c.invalidate t p).1.countMiss hl'
    have houses : (c.invalidate t p).2.1.Houses (c.invalidate t p).1.countMiss.directory site.home := by
      rw [after.here.directory]
      exact after.houses
    obtain ⟨t'', stored⟩ := store_ok (c.invalidate t p).1.countMiss houses
      (touched.rewrites.entries.trans made) after.here.plain
      (by rwa [after.here.payloadPath, hkey])
      (by rwa [after.here.directory, after.here.fingerprint, hkey]) hs m edges micros
    exact ⟨_, t'', _, stored⟩
  · refine after.get_of_store ?_ ?_ stored
    · rw [hkey]
      exact apart.touched touched
    · rw [hkey]
      exact apart'.touched touched

end Vouched

/-- Opening a cache succeeds if the system takes the path of the directory of the payloads. -/
theorem openIn_nameable (houses : t.Houses site.directory site.home)
    (nameable : (site.directory.join ⟨"entries"⟩).Nameable) (settingsDigest : String)
    (capacity : Nat) :
    ∃ t' c, openIn t site.directory settingsDigest capacity site.formatVersion site.fingerprint =
      (t', .ok c) := by
  obtain ⟨t', hcreate⟩ : ∃ t', t.createDirectories (site.directory.join ⟨"entries"⟩) = (t', .ok ()) := by
    rcases houses.entries with missing | made
    · exact ⟨_, houses.createDirectories_missing missing nameable⟩
    · exact ⟨_, houses.createDirectories_ok made nameable⟩
  unfold openIn entriesPath
  dsimp only
  rw [hcreate]
  exact ⟨t', _, rfl⟩

end Cache

/-! ## After whatever happened -/

namespace Client

variable {site : Site} {s : Client}

/-- Whatever is asked for, and whatever is done to the files, those of the cache included, as long as
its home stands. -/
def Tampers (site : Site) (_ : Client) : Request → Prop
  | .editing t => t.Houses site.directory site.home
  | _ => True

/-- The open cache can be relied on. -/
structure Vouched (site : Site) (s : Client) : Prop where
  houses : s.tree.Houses site.directory site.home
  cache : ∀ c, s.cache? = some c → c.Vouched site s.tree

namespace Vouched

theorem shut (h : s.Vouched site) : s.shut.tree.Houses site.directory site.home := by
  unfold Client.shut
  cases hc : s.cache? with
  | none => exact h.houses
  | some c => exact (h.cache c hc).flush.houses

theorem serve (h : s.Vouched site) {r : Request} (tampers : s.Tampers site r) :
    (s.serve site r).1.Vouched site := by
  cases r with
  | opening settingsDigest capacity =>
    rw [serve_opening]
    rcases ho : Cache.openIn s.shut.tree site.directory settingsDigest capacity site.formatVersion
      site.fingerprint with ⟨t, r⟩
    refine ⟨(sheds_openIn h.shut ho).houses, fun c hc => ?_⟩
    cases r with
    | error => exact nomatch hc
    | ok c' =>
      obtain rfl := Option.some.inj hc
      exact .opened h.shut ho
  | ordering o =>
    obtain ⟨t, _ | c⟩ := s
    · exact h
    · rw [serve_ordering]
      have vouched := (h.cache c rfl).perform o
      refine ⟨vouched.houses, fun d hd => ?_⟩
      obtain rfl := Option.some.inj hd
      exact vouched
  | closing => exact ⟨h.shut, fun c hc => nomatch s.shut_cache?.symm.trans hc⟩
  | losing => exact ⟨h.houses, nofun⟩
  | editing t => exact ⟨tampers, fun c hc => (h.cache c hc).edited tampers⟩

/-- An open cache can be relied on after whatever requests. -/
theorem after (h : s.Vouched site) {rs : List Request}
    (tampers : s.Throughout site (Tampers site) rs) : (s.after site rs).Vouched site :=
  after_induction (K := fun _ => True) h tampers (fun _ _ => trivial)
    fun _ _ h tampers _ => h.serve tampers

end Vouched

/-- Whatever the directory of a cache held at first, and whatever is asked for and done to its files
from then on: a cache can be opened; what it serves was stored for the content that the file has now,
in the version of the site; and looking up a file that has not changed, but of which the payload is
not in memory and its file is damaged, heals the cache. -/
theorem damaged_files_heal (site : Site) (t₀ : Tree)
    (houses : t₀.Houses site.directory site.home) (rs : List Request)
    (tampers : (Client.mk t₀ none).Throughout site (Tampers site) rs) (s : Client)
    (reached : (Client.mk t₀ none).after site rs = s) :
    ((site.directory.join ⟨"entries"⟩).Nameable → ∀ settingsDigest capacity,
        (s.serve site (.opening settingsDigest capacity)).2 = .done (.ok ())) ∧
      ∀ c, s.cache? = some c →
        (∀ p c' t' e, c.get s.tree p = (c', t', some e) → Cache.Served site s.tree p e) ∧
        ∀ p r, site.Apart (site.payloadPlace (s.tree.key p)) s.tree p →
          site.Apart (site.payloadPlace (s.tree.key p)) s.tree (s.tree.key p) →
          c.index.get? (s.tree.key p) = some r → c.hasChanged s.tree p = false →
          (∀ x ∈ c.recent, (s.tree.key p).same x.1 = false) →
          site.Damaged s.tree (s.tree.key p) r.stamp.digest →
            ∃ c' t', c.get s.tree p = (c', t', none) ∧ Cache.Heals site c s.tree p c' t' := by
  have start : (Client.mk t₀ none).Vouched site := ⟨houses, nofun⟩
  have vouched : s.Vouched site := by
    rw [← reached]
    exact start.after tampers
  refine ⟨fun nameable settingsDigest capacity => ?_, fun c hc => ⟨fun p c' t' e hg => ?_, ?_⟩⟩
  · obtain ⟨t', c, ho⟩ := Cache.openIn_nameable vouched.shut nameable settingsDigest capacity
    rw [serve_opening, ho]
    rfl
  · exact (vouched.cache c hc).served_of_get hg
  · exact fun p r apart apart' hi unchanged cold damaged =>
      (vouched.cache c hc).heals apart apart' hi unchanged cold damaged

/-- The payload of a result is forgotten, and its file is replaced by a byte that is no text. -/
theorem damaged_files_heal_byte :
    ∃ rs s c c' t', (Client.mk .beside none).Throughout .hashed (Tampers .hashed) rs ∧
      (Client.mk .beside none).after .hashed rs = s ∧ s.cache? = some c ∧
      c.get s.tree ⟨"/f"⟩ = (c', t', none) ∧ Cache.Heals .hashed c s.tree ⟨"/f"⟩ c' t' := by
  obtain ⟨c, ho, drafts⟩ := Cache.opened_beside "A" 1
  have h : c.Beside 0 .housed := .housed (Cache.At.opened ho).1 drafts
  obtain ⟨t, stored, h'⟩ := h.store (by decide) (Cache.stamp?_housed h.here) Cache.bareModule
  obtain ⟨t', ht⟩ : ∃ t', t' = t.put (Site.hashed.payloadPlace ⟨"/f"⟩) (.file [255] ⟨0, 0⟩) := ⟨_, rfl⟩
  have touched := Site.touches_put h'.houses ⟨"/f"⟩ [255] ⟨0, 0⟩
  rw [← ht] at touched
  have h'' := h'.touches touched ⟨rfl, rfl, rfl, rfl⟩ h'.drafts
  have hkey : t'.key ⟨"/f"⟩ = ⟨"/f"⟩ := Tree.key_of_beside h''.file
  -- The record is that of the entry, and still fits the file.
  let e := c.entryFor .housed ⟨⟨"/f"⟩, Digest.Blake3.hexHash [47, 102], 2, some ⟨0, 0⟩, ⟨0, 0⟩, 0, 0⟩
    Cache.bareModule [] 0
  let c₁ : Cache := { c with drafts := c.drafts + 1 }
  have hpath : e.stamp.path = t'.key ⟨"/f"⟩ := hkey.symm
  have hfile : t'.locate (t'.key ⟨"/f"⟩) = .ok (["f"], .file [47, 102] ⟨0, 0⟩) := by
    rw [hkey]
    exact h''.file
  have hdigest : e.stamp.digest = c₁.fingerprint [47, 102] := by
    rw [show c₁.fingerprint = Site.hashed.fingerprint from h.here.fingerprint]
    rfl
  have unchanged : (c₁.hold e).hasChanged t' ⟨"/f"⟩ = false :=
    Cache.hasChanged_hold hpath rfl hfile rfl rfl hdigest
  have hbyte : t'.find? (Site.hashed.payloadPlace (t'.key ⟨"/f"⟩)) = some (.file [255] ⟨0, 0⟩) := by
    rw [hkey, ht]
    exact (Tree.find?_put t (Cache.below_payloadPlace _).ne_nil ..).trans (if_pos rfl)
  have damaged : Site.hashed.Damaged t' (t'.key ⟨"/f"⟩) e.stamp.digest :=
    .undecodable hbyte (by decide)
  have apart : Site.hashed.Apart (Site.hashed.payloadPlace (t'.key ⟨"/f"⟩)) t' ⟨"/f"⟩ :=
    Site.apart_of_outside h''.houses (Cache.below_payloadPlace _) h''.file (by decide)
  have apart' : Site.hashed.Apart (Site.hashed.payloadPlace (t'.key ⟨"/f"⟩)) t' (t'.key ⟨"/f"⟩) :=
    Site.apart_of_outside h''.houses (Cache.below_payloadPlace _) hfile (by decide)
  have tampers : (Client.mk .beside none).Throughout .hashed (Tampers .hashed)
      [.opening "A" 1, .ordering (.storing ⟨"/f"⟩ Cache.bareModule [] 0), .ordering .forgetting,
        .editing t'] :=
    ⟨trivial, trivial, trivial, h''.houses, trivial⟩
  have reached : (Client.mk .beside none).after .hashed
      [.opening "A" 1, .ordering (.storing ⟨"/f"⟩ Cache.bareModule [] 0), .ordering .forgetting,
        .editing t'] = ⟨t', some (c₁.hold e).clearMemory⟩ := by
    rw [after_cons, serve_opening_ok ho, after_cons, serve_storing stored]
    rfl
  obtain ⟨-, healing⟩ := damaged_files_heal .hashed .beside Tree.houses_beside _ tampers _ reached
  obtain ⟨c', t'', hget, heals⟩ := (healing _ rfl).2 ⟨"/f"⟩ _ apart apart' (Cache.get?_hold hpath)
    unchanged nofun damaged
  exact ⟨_, _, _, c', t'', tampers, reached, rfl, hget, heals⟩

end Client
end SourceSurvey
