import SourceSurvey.Proofs.Cache.Client

/-!
# The memory of a cache cannot be observed

A cache without memory (`Cache.blank`) reads every payload from its file. As long as the memory of a
cache mirrors the payload files, the cache answers like the one without memory, counts like it, and
leaves the same files: every operation commutes with `Cache.blank` (`Cache.perform_blank`). So the
answers to a sequence of requests do not depend on how many payloads are held in memory, nor on when
they are forgotten.

* `Client.answers_eq`: a client gets the answers of one that has no memory.
* `Client.memory_unobservable`: what follows for two clients that differ in their memory only.
-/

namespace SourceSurvey

open Cache (Unambiguous)

/-! ## Caches without memory -/

namespace Cache

variable {site : Site} {K : Path → Prop} {c c' : Cache} {t t' : Tree} {p : Path}

/-- The cache without memory. -/
def blank (c : Cache) : Cache := { c with capacity := 0, recent := [] }

/-- A result of a cache, with the cache without memory in its place. -/
def blanked {β : Type} (x : Cache × β) : Cache × β := (x.1.blank, x.2)

theorem writeFile_blank (c : Cache) (t : Tree) (p : Path) (bytes : List UInt8) :
    c.blank.writeFile t p bytes = blanked (c.writeFile t p bytes) := by
  unfold writeFile
  dsimp only [blank]
  cases t.write (p.withExtension ("tmp." ++ toString c.drafts)) bytes with
  | error e => rfl
  | ok t₁ =>
    dsimp only
    cases t₁.rename (p.withExtension ("tmp." ++ toString c.drafts)) p with
    | error e => rfl
    | ok t₂ => rfl

theorem store_blank (c : Cache) (t : Tree) (p : Path) (m : Module) (edges : List Edge)
    (micros : Nat) : c.blank.store t p m edges micros = blanked (c.store t p m edges micros) := by
  unfold store
  rw [show c.blank.stamp? t p = c.stamp? t p from rfl,
    show c.blank.payloadPath t p = c.payloadPath t p from rfl]
  cases c.stamp? t p with
  | none => rfl
  | some stamp =>
    dsimp only
    rw [show c.blank.entryFor t stamp m edges micros = c.entryFor t stamp m edges micros from rfl,
      writeFile_blank]
    rcases c.writeFile t (c.payloadPath t p)
      (c.entryFor t stamp m edges micros).toJson.compact.toUTF8.toList with ⟨c₁, t₁, r⟩
    cases r with
    | error e => rfl
    | ok u => rfl

theorem flush_blank (c : Cache) (t : Tree) : c.blank.flush t = blanked (c.flush t) := by
  unfold Cache.flush
  rw [show c.blank.dirty = c.dirty from rfl, show c.blank.index = c.index from rfl,
    show c.blank.formatVersion = c.formatVersion from rfl,
    show c.blank.indexPath = c.indexPath from rfl]
  split
  · rfl
  · dsimp only
    rw [writeFile_blank]
    rcases c.writeFile t c.indexPath
      (IndexFile.toJson { version := c.formatVersion, records := c.index.values }).pretty.toUTF8.toList
      with ⟨c₁, t₁, r⟩
    cases r with
    | error e => rfl
    | ok u => rfl

theorem invalidateAll_blank (c : Cache) (t : Tree) (paths : List Path) :
    c.blank.invalidateAll t paths = blanked (c.invalidateAll t paths) := by
  induction paths generalizing c t with
  | nil => rfl
  | cons p rest ih => exact ih (c.invalidate t p).1 (c.invalidate t p).2.1

theorem cleanup_blank (c : Cache) (t : Tree) (days : Nat) :
    c.blank.cleanup t days = (c.cleanup t days).map blanked := by
  unfold cleanup
  dsimp only
  split
  · rfl
  · rw [show c.blank.staleKeys t.now (signedDays days) = c.staleKeys t.now (signedDays days) from rfl,
      invalidateAll_blank]
    rcases c.invalidateAll t (c.staleKeys t.now (signedDays days)) with ⟨c₁, t₁⟩
    dsimp only [blanked]
    split
    · rfl
    · rw [flush_blank]
      rfl

theorem clear_blank (c : Cache) (t : Tree) : c.blank.clear t = blanked (c.clear t) := by
  unfold clear
  dsimp only
  have hentries (c : Cache) :
      ({ c with index := .empty, recent := [] } : Cache).entriesPath = c.entriesPath := rfl
  have hindex (c : Cache) :
      ({ c with index := .empty, recent := [] } : Cache).indexPath = c.indexPath := rfl
  rw [hentries, hindex, hentries, hindex, show c.blank.entriesPath = c.entriesPath from rfl,
    show c.blank.indexPath = c.indexPath from rfl]
  split
  · rfl
  · split
    · rfl
    · split
      · rfl
      · rfl

/-- A cache whose memory mirrors the payload files serves what they hold. -/
theorem load_blank (h : c.Mirrored site K t) (told : Unambiguous site.fingerprint K)
    (key : K (t.key p)) : c.blank.load t p = blanked (c.load t p) := by
  unfold load
  dsimp only
  rw [show c.blank.index = c.index from rfl]
  cases hi : c.index.get? (t.key p) with
  | none => rfl
  | some r =>
    dsimp only
    rw [show c.blank.recent.find? (fun e => (t.key p).same e.1) = none from rfl,
      show c.blank.readPayload? t p r = c.readPayload? t p r from rfl]
    dsimp only
    cases hf : c.recent.find? fun e => (t.key p).same e.1 with
    | some x =>
      obtain ⟨hmem, hs⟩ := recent_of_find? hf
      rw [h.readPayload? told key hi hmem hs]
      rfl
    | none =>
      dsimp only
      cases c.readPayload? t p r with
      | some e => rfl
      | none => rfl

theorem get_blank (h : c.Mirrored site K t) (told : Unambiguous site.fingerprint K)
    (key : K (t.key p)) : c.blank.get t p = blanked (c.get t p) := by
  unfold Cache.get
  rw [show c.blank.hasChanged t p = c.hasChanged t p from rfl]
  split
  · rfl
  · exact load_blank h told key

theorem collect_blank {lookup : Cache → Tree → Path → Cache × Tree × Option CacheEntry}
    (one : ∀ c t p, c.Mirrored site K t → K (t.key p) →
      lookup c.blank t p = blanked (lookup c t p) ∧
        (lookup c t p).1.Mirrored site K (lookup c t p).2.1)
    {paths : List Path} (h : c.Mirrored site K t)
    (keys : ∀ k ∈ c.collectKeys lookup t paths, K k) (found : PathMap CacheEntry) :
    collect lookup c.blank t found paths = blanked (collect lookup c t found paths) := by
  induction paths generalizing c t found with
  | nil => rfl
  | cons p rest ih =>
    obtain ⟨key, keys⟩ := List.forall_mem_cons.mp keys
    obtain ⟨hblank, mirrored⟩ := one c t p h key
    unfold collect
    rw [hblank]
    exact ih mirrored keys _

/-- Whatever a cache does for its client, it answers like the one without memory and leaves the same
files, as long as its memory mirrors the payload files. -/
theorem perform_blank (h : c.Mirrored site K t) (told : Unambiguous site.fingerprint K) {o : Order}
    (keys : ∀ k ∈ c.asked t o, K k) : c.blank.perform t o = blanked (c.perform t o) := by
  have follow {c : Cache} {t : Tree} (hc : c.Mirrored site K t) {c' : Cache} {t' : Tree}
      (acts : Acts site K (fun _ => True) c t c' t') : c'.Mirrored site K t' := hc.acts told acts
  unfold perform
  cases o with
  | storing p m edges micros =>
    dsimp only
    rw [store_blank]
    rcases c.store t p m edges micros with ⟨c', t', r⟩
    rfl
  | checking p => rfl
  | comparing paths => rfl
  | getting p =>
    dsimp only
    rw [get_blank h told (keys _ (List.mem_singleton_self _))]
    rcases c.get t p with ⟨c', t', e?⟩
    rfl
  | gettingAll paths =>
    dsimp only [bulkLoad]
    rw [collect_blank (fun c t p hc hk => ⟨get_blank hc told hk, follow hc (get_acts hk)⟩) h keys]
    rcases collect get c t .empty paths with ⟨c', t', found⟩
    rfl
  | loadingAll paths =>
    dsimp only [bulkLoadUnchanged]
    rw [collect_blank (fun c t p hc hk => ⟨load_blank hc told hk, follow hc (load_acts hk)⟩) h keys]
    rcases collect load c t .empty paths with ⟨c', t', found⟩
    rfl
  | invalidating p => rfl
  | cleaning days =>
    dsimp only
    rw [cleanup_blank]
    rcases c.cleanup t days with _ | ⟨c', t', r⟩
    · rfl
    · rfl
  | clearing =>
    dsimp only
    rw [clear_blank]
    rcases c.clear t with ⟨c', t', r⟩
    rfl
  | forgetting => rfl
  | flushing =>
    dsimp only
    rw [flush_blank]
    rcases c.flush t with ⟨c', t', r⟩
    rfl

theorem diskBytes_blank (c : Cache) (t : Tree) : c.blank.diskBytes t = c.diskBytes t := by
  unfold diskBytes
  rw [show c.blank.entriesPath = c.entriesPath from rfl,
    show c.blank.indexPath = c.indexPath from rfl]

/-- The number of payloads that a cache may hold decides about nothing else when it is opened. -/
theorem openIn_blank (t : Tree) (dir : Path) (settingsDigest : String) (capacity version : Nat)
    (fingerprint : List UInt8 → String) :
    ((openIn t dir settingsDigest 0 version fingerprint).1,
        (openIn t dir settingsDigest 0 version fingerprint).2.map blank) =
      ((openIn t dir settingsDigest capacity version fingerprint).1,
        (openIn t dir settingsDigest capacity version fingerprint).2.map blank) := by
  unfold openIn entriesPath indexPath
  dsimp only
  rcases t.createDirectories (dir.join ⟨"entries"⟩) with ⟨t', e | u⟩
  · rfl
  · rfl

end Cache

/-! ## Requests without memory -/

namespace Request

/-- A request to forget what is held in memory. -/
def forgets : Request → Bool
  | .ordering .forgetting => true
  | _ => false

/-- A request without the number of payloads that a cache may hold. -/
def bare : Request → Request
  | .opening settingsDigest _ => .opening settingsDigest 0
  | r => r

/-- What some requests ask for, apart from what is to be held in memory and for how long. -/
def essential (rs : List Request) : List Request := (rs.filter fun r => !r.forgets).map bare

end Request

namespace Client

variable {site : Site} {K : Path → Prop} {s s' : Client} {r : Request}

/-- What a cache says about itself. -/
structure Tally where
  hits : Nat
  misses : Nat
  savedMicros : Nat
  files : Nat
  diskBytes : Nat
  deriving DecidableEq, Repr

/-- What the open cache says about itself. -/
def tally? (s : Client) : Option Tally :=
  s.cache?.map fun c => ⟨c.hits, c.misses, c.savedMicros, c.size, c.diskBytes s.tree⟩

/-- The answer to each request that is none to forget, with what the cache says about itself after
it. -/
def answers (site : Site) (s : Client) : List Request → List (Reply × Option Tally)
  | [] => []
  | r :: rest =>
    let (s', reply) := s.serve site r
    if r.forgets then s'.answers site rest else (reply, s'.tally?) :: s'.answers site rest

/-- The client whose cache has no memory. -/
def blank (s : Client) : Client := { s with cache? := s.cache?.map Cache.blank }

/-- What a client answers whose caches never have a memory. -/
def bareAnswers (site : Site) (s : Client) : List Request → List (Reply × Option Tally)
  | [] => []
  | r :: rest =>
    let (s', reply) := s.serve site r
    (reply, s'.tally?) :: s'.blank.bareAnswers site rest

theorem blank_blank (s : Client) : s.blank.blank = s.blank := by
  obtain ⟨t, _ | c⟩ := s
  · rfl
  · rfl

theorem bareAnswers_cons (site : Site) (s : Client) (r : Request) (rest : List Request) :
    s.bareAnswers site (r :: rest) = ((s.serve site r).2, (s.serve site r).1.tally?) ::
      (s.serve site r).1.blank.bareAnswers site rest := rfl

theorem tally?_blank (s : Client) : s.blank.tally? = s.tally? := by
  obtain ⟨t, _ | c⟩ := s
  · rfl
  · exact congrArg (fun n => some (Tally.mk c.hits c.misses c.savedMicros c.size n))
      (c.diskBytes_blank t)

theorem tally?_congr (h : s.blank = s'.blank) : s.tally? = s'.tally? := by
  rw [← tally?_blank s, h, tally?_blank]

theorem shut_blank (s : Client) : s.blank.shut = s.shut.blank := by
  obtain ⟨t, _ | c⟩ := s
  · rfl
  · show Client.mk (c.blank.flush t).2.1 none = ⟨(c.flush t).2.1, none⟩
    rw [c.flush_blank t]
    rcases c.flush t with ⟨c', t', r⟩
    rfl

/-- A request to forget leaves the client as it is, but for its memory. -/
theorem serve_forgets (h : r.forgets = true) : (s.serve site r).1.blank = s.blank := by
  unfold Request.forgets at h
  split at h
  · obtain ⟨t, _ | c⟩ := s
    · rfl
    · rfl
  · exact nomatch h

/-- Whatever is requested, a client answers like the one whose cache has no memory, and both are
alike afterwards. -/
theorem serve_blank (h : s.Mirrored site K) (told : Unambiguous site.fingerprint K)
    (keys : ∀ k ∈ s.asks r, K k) :
    (s.blank.serve site r.bare).1.blank = (s.serve site r).1.blank ∧
      (s.blank.serve site r.bare).2 = (s.serve site r).2 := by
  cases r with
  | opening settingsDigest capacity =>
    obtain ⟨htree, hcache⟩ := Prod.mk.inj (Cache.openIn_blank s.shut.tree site.directory
      settingsDigest capacity site.formatVersion site.fingerprint)
    have toOption (r : Except Failure Cache) :
        r.toOption.map Cache.blank = (r.map Cache.blank).toOption := by cases r <;> rfl
    have done (r : Except Failure Cache) :
        (r.map fun _ => ()) = (r.map Cache.blank).map fun _ => () := by cases r <;> rfl
    rw [Request.bare, serve_opening, serve_opening, shut_blank,
      show s.shut.blank.tree = s.shut.tree from rfl, done, hcache, ← done]
    refine ⟨?_, rfl⟩
    unfold blank
    dsimp only
    rw [toOption, toOption, hcache, htree]
  | ordering o =>
    obtain ⟨t, _ | c⟩ := s
    · exact ⟨rfl, rfl⟩
    · have perform := Cache.perform_blank (h.cache c rfl) told keys
      rw [show Request.bare (.ordering o) = .ordering o from rfl, serve_ordering,
        show Client.blank ⟨t, some c⟩ = ⟨t, some c.blank⟩ from rfl, serve_ordering, perform]
      rcases c.perform t o with ⟨c', t', reply⟩
      exact ⟨rfl, rfl⟩
  | closing =>
    refine ⟨?_, rfl⟩
    show s.blank.shut.blank = s.shut.blank
    rw [shut_blank, blank_blank]
  | losing => exact ⟨rfl, rfl⟩
  | editing t =>
    refine ⟨?_, rfl⟩
    obtain ⟨t', _ | c⟩ := s
    · rfl
    · rfl

/-- A client whose memory mirrors the payload files gets the answers of one that has no memory. -/
theorem answers_eq (h : s.Mirrored site K) (told : Unambiguous site.fingerprint K)
    {rs : List Request} (allowed : s.Throughout site (Allows site) rs)
    (keys : ∀ k ∈ s.asked site rs, K k) :
    s.answers site rs = s.blank.bareAnswers site (Request.essential rs) := by
  induction rs generalizing s with
  | nil => rfl
  | cons r rest ih =>
    have keys' := List.forall_mem_append.mp keys
    have next := ih (h.serve told allowed.1 keys'.1) allowed.2 keys'.2
    unfold answers
    dsimp only
    cases hf : r.forgets with
    | true =>
      rw [if_pos rfl, next, serve_forgets hf]
      unfold Request.essential
      rw [List.filter_cons_of_neg (by simp [hf])]
    | false =>
      obtain ⟨same, reply⟩ := serve_blank (r := r) h told keys'.1
      have hrest : Request.essential (r :: rest) = r.bare :: Request.essential rest := by
        unfold Request.essential
        rw [List.filter_cons_of_pos (by simp [hf])]
        rfl
      rw [if_neg Bool.false_ne_true, next, hrest, bareAnswers_cons, reply, same, tally?_congr same]

/-! ## Two clients of one directory -/

/-- A client that stores a result, and asks for it at once or after it was forgotten. -/
def storesAndGets (capacity : Nat) (gap : List Request) : List Request :=
  .opening "A" capacity :: .ordering (.storing ⟨"/f"⟩ Cache.bareModule [] 0) ::
    (gap ++ [.ordering (.getting ⟨"/f"⟩)])

theorem storesAndGets_beside (capacity : Nat) {gap : List Request}
    (hgap : gap = [] ∨ gap = [.ordering .forgetting]) :
    (Client.mk .beside none).Throughout .hashed (Allows .hashed) (storesAndGets capacity gap) ∧
      ∀ k ∈ (Client.mk .beside none).asked .hashed (storesAndGets capacity gap), k = ⟨"/f"⟩ := by
  obtain ⟨c, ho, -⟩ := Cache.opened_beside "A" capacity
  obtain ⟨here, -⟩ := Cache.At.opened ho
  rcases hs : c.store .housed ⟨"/f"⟩ Cache.bareModule [] 0 with ⟨c', t', r⟩
  have key := Tree.key_of_beside (Cache.locate_store here hs)
  have allowed : (Client.mk .housed (some c)).Allows .hashed
      (.ordering (.storing ⟨"/f"⟩ Cache.bareModule [] 0)) := by
    rintro d ⟨⟩
    exact Cache.holdable_housed here
  have hforgetting : (Client.mk t' (some c')).serve .hashed (.ordering .forgetting) =
      (⟨t', some c'.clearMemory⟩, .nothing) := rfl
  unfold storesAndGets
  rw [throughout_cons, throughout_cons, asked_cons, asked_cons, serve_opening_ok ho, serve_storing hs,
    asks_storing, Tree.key_housed]
  rcases hgap with rfl | rfl
  · refine ⟨⟨trivial, allowed, fun _ _ => trivial, trivial⟩, ?_⟩
    simp [asked_cons, Client.asks, asked, Cache.asked, key]
  · refine ⟨⟨trivial, allowed, fun _ _ => trivial, fun _ _ => trivial, trivial⟩, ?_⟩
    simp [asked_cons, hforgetting, Client.asks, asked, Cache.asked, key]

/-- The memory of a cache cannot be observed. Two clients begin alike, but for the number of payloads
that an open cache may hold. Their requests differ in such numbers only, and in when a cache is told
to forget what it holds. Then they get the same answers, and after each answer their open caches say
the same about themselves. -/
theorem memory_unobservable (site : Site) (s s' : Client) (rs rs' : List Request)
    (begins : s.Begins site) (begins' : s'.Begins site) (same : s.blank = s'.blank)
    (alike : Request.essential rs = Request.essential rs')
    (allowed : s.Throughout site (Allows site) rs) (allowed' : s'.Throughout site (Allows site) rs')
    (told : Unambiguous site.fingerprint fun k => k ∈ s.asked site rs)
    (told' : Unambiguous site.fingerprint fun k => k ∈ s'.asked site rs') :
    s.answers site rs = s'.answers site rs' := by
  rw [answers_eq (.begins begins) told allowed fun _ => id,
    answers_eq (.begins begins') told' allowed' fun _ => id, same, alike]

/-- A result that is stored is found again, be it held in memory or not. -/
theorem memory_unobservable_beside :
    (Client.mk .beside none).answers .hashed (storesAndGets 1 []) =
      (Client.mk .beside none).answers .hashed (storesAndGets 2 [.ordering .forgetting]) := by
  obtain ⟨allowed, told⟩ := storesAndGets_beside 1 (.inl rfl)
  obtain ⟨allowed', told'⟩ := storesAndGets_beside 2 (.inr rfl)
  have alone {K : Path → Prop} (h : ∀ k, K k → k = ⟨"/f"⟩) :
      Unambiguous Site.hashed.fingerprint K := fun k k' hk hk' _ => (h k hk).trans (h k' hk').symm
  have begins : (Client.mk .beside none).Begins .hashed := ⟨Tree.houses_beside, nofun⟩
  exact memory_unobservable .hashed ⟨.beside, none⟩ ⟨.beside, none⟩ (storesAndGets 1 [])
    (storesAndGets 2 [.ordering .forgetting]) begins begins rfl rfl allowed allowed' (alone told)
    (alone told')

end Client
end SourceSurvey
