import SourceSurvey.Proofs.Cache.Shelf

/-!
# What a cache does at its site

A client asks an open cache for one thing after the other (`Order`, `Cache.perform`). Whatever it
asks for, the cache does a sequence of a few kinds of acts (`Cache.Act`): it counts, serves a
payload, stores one, removes a record, writes the index or removes everything. So an invariant of a
cache needs one lemma for each kind of act and none for each order.

* `Cache.perform_acts`: every order is a sequence of acts.
* `Cache.Mirrored`: every payload in memory is the one that its file holds. `Mirrored.act` is the
  step lemma, `Mirrored.acts` the run lemma.
-/

namespace SourceSurvey

open Cache (Unambiguous)

/-! ## Orders -/

/-- What a client may ask an open cache for. `gettingAll` looks several files up, `loadingAll`
several that are known not to have changed. -/
inductive Order where
  | storing (p : Path) (module : Module) (edges : List Edge) (micros : Nat)
  | checking (p : Path)
  | comparing (paths : List Path)
  | getting (p : Path)
  | gettingAll (paths : List Path)
  | loadingAll (paths : List Path)
  | invalidating (p : Path)
  | cleaning (days : Nat)
  | clearing
  | forgetting
  | flushing

/-- What a cache answers. -/
inductive Reply where
  | nothing
  | done (r : Except Failure Unit)
  | stored (r : Except Failure FileStamp)
  | told (answer : Bool)
  | compared (changed same : List Path)
  | found (e? : Option CacheEntry)
  | collected (found : PathMap CacheEntry)
  | cleaned (r? : Option (Except Failure Nat))

namespace Cache

/-- What an open cache does for its client. -/
def perform (c : Cache) (t : Tree) : Order → Cache × Tree × Reply
  | .storing p module edges micros =>
    let (c, t, r) := c.store t p module edges micros
    (c, t, .stored r)
  | .checking p => (c, t, .told (c.hasChanged t p))
  | .comparing paths =>
    let (c, changed, same) := c.changedFiles t paths
    (c, t, .compared changed same)
  | .getting p =>
    let (c, t, e?) := c.get t p
    (c, t, .found e?)
  | .gettingAll paths =>
    let (c, t, found) := c.bulkLoad t paths
    (c, t, .collected found)
  | .loadingAll paths =>
    let (c, t, found) := c.bulkLoadUnchanged t paths
    (c, t, .collected found)
  | .invalidating p =>
    let (c, t, removed) := c.invalidate t p
    (c, t, .told removed)
  | .cleaning days =>
    (c.cleanup t days).elim (c, t, .cleaned none) fun (c, t, r) => (c, t, .cleaned (some r))
  | .clearing =>
    let (c, t, r) := c.clear t
    (c, t, .done r)
  | .forgetting => (c.clearMemory, t, .nothing)
  | .flushing =>
    let (c, t, r) := c.flush t
    (c, t, .done r)

/-- The keys of files that are looked up one after the other. -/
def collectKeys (lookup : Cache → Tree → Path → Cache × Tree × Option CacheEntry) (c : Cache)
    (t : Tree) : List Path → List Path
  | [] => []
  | p :: rest =>
    let (c', t', _) := lookup c t p
    t.key p :: collectKeys lookup c' t' rest

/-- The keys of records that are removed one after the other. -/
def invalidateKeys (c : Cache) (t : Tree) : List Path → List Path
  | [] => []
  | p :: rest =>
    let (c', t', _) := c.invalidate t p
    t.key p :: c'.invalidateKeys t' rest

/-- The keys of the payload files with which a cache deals for its client. -/
def asked (c : Cache) (t : Tree) : Order → List Path
  | .storing p _ _ _ => [t.key p]
  | .getting p => [t.key p]
  | .gettingAll paths => c.collectKeys get t paths
  | .loadingAll paths => c.collectKeys load t paths
  | .invalidating p => [t.key p]
  | .cleaning days => c.invalidateKeys t (c.staleKeys t.now (signedDays days))
  | _ => []

/-- The result of a key is stored or removed for a client. -/
def Replaces (c : Cache) (t : Tree) (k : Path) : Order → Prop
  | .storing p _ _ _ => k = t.key p
  | .invalidating p => k = t.key p
  | .cleaning days => k ∈ c.invalidateKeys t (c.staleKeys t.now (signedDays days))
  | .clearing => True
  | _ => False

/-- The machine holds the numbers and instants of what is stored. -/
def Holdable (c : Cache) (t : Tree) : Order → Prop
  | .storing p module edges micros =>
    ∀ stamp, c.stamp? t p = some stamp → (c.entryFor t stamp module edges micros).Sized
  | _ => True

/-! ## Acts -/

/-- An act of a cache at its site that deals with the payload files of some keys, and replaces the
results of some of them only. -/
inductive Act (site : Site) (K W : Path → Prop) (c : Cache) (t : Tree) : Cache → Tree → Prop
  | count (hits misses savedMicros : Nat) : Act site K W c t { c with hits, misses, savedMicros } t
  | forget : Act site K W c t c.clearMemory t
  | serve {p : Path} {r : IndexRecord} {e : CacheEntry} (key : K (t.key p))
      (record : c.index.get? (t.key p) = some r)
      (held : (∃ k, (k, e) ∈ c.recent ∧ (t.key p).same k = true) ∨ c.readPayload? t p r = some e) :
      Act site K W c t { c with recent := use c.capacity (t.key p) e c.recent } t
  | store {p : Path} {m : Module} {edges : List Edge} {micros : Nat} {stamp : FileStamp}
      {c' : Cache} {t' : Tree} (key : K (t.key p)) (replaced : W (t.key p))
      (holdable : c.Holdable t (.storing p m edges micros))
      (h : c.store t p m edges micros = (c', t', .ok stamp)) : Act site K W c t c' t'
  | miss {p : Path} {m : Module} {edges : List Edge} {micros : Nat} {f : Failure} {c' : Cache}
      {t' : Tree} (h : c.store t p m edges micros = (c', t', .error f)) : Act site K W c t c' t'
  | invalidate {p : Path} (key : K (t.key p)) (replaced : W (t.key p)) :
      Act site K W c t (c.invalidate t p).1 (c.invalidate t p).2.1
  | discard {p : Path} {r : IndexRecord} (key : K (t.key p))
      (record : c.index.get? (t.key p) = some r)
      (missing : c.recent.find? (fun x => (t.key p).same x.1) = none)
      (unreadable : c.readPayload? t p r = none) :
      Act site K W c t (c.invalidate t p).1 (c.invalidate t p).2.1
  | flush {r : Except Failure Unit} {c' : Cache} {t' : Tree} (h : c.flush t = (c', t', r)) :
      Act site K W c t c' t'
  | clear {r : Except Failure Unit} {c' : Cache} {t' : Tree} (replaced : ∀ k, W k)
      (h : c.clear t = (c', t', r)) : Act site K W c t c' t'

/-- Acts one after the other. -/
inductive Acts (site : Site) (K W : Path → Prop) (c : Cache) (t : Tree) : Cache → Tree → Prop
  | refl : Acts site K W c t c t
  | snoc {c' c'' : Cache} {t' t'' : Tree} (init : Acts site K W c t c' t')
      (last : Act site K W c' t' c'' t'') : Acts site K W c t c'' t''

variable {site : Site} {K W : Path → Prop} {c c' c'' : Cache} {t t' t'' : Tree} {p : Path}

theorem Acts.one (h : Act site K W c t c' t') : Acts site K W c t c' t' := .snoc .refl h

theorem Acts.trans (h : Acts site K W c t c' t') (h' : Acts site K W c' t' c'' t'') :
    Acts site K W c t c'' t'' := by
  induction h' with
  | refl => exact h
  | snoc _ last ih => exact .snoc ih last

theorem countMiss_acts (c : Cache) (t : Tree) : Acts site K W c t c.countMiss t :=
  .one (.count ..)

theorem load_acts (key : K (t.key p)) :
    Acts site K W c t (c.load t p).1 (c.load t p).2.1 := by
  unfold load
  dsimp only
  cases hi : c.index.get? (t.key p) with
  | none => exact countMiss_acts c t
  | some r =>
    dsimp only
    cases hf : c.recent.find? fun e => (t.key p).same e.1 with
    | some x =>
      exact (Acts.one (.serve key hi (.inl ⟨x.1, recent_of_find? hf⟩))).snoc (.count ..)
    | none =>
      dsimp only
      cases hr : c.readPayload? t p r with
      | some e => exact (Acts.one (.serve key hi (.inr hr))).snoc (.count ..)
      | none => exact (Acts.one (.discard key hi hf hr)).snoc (.count ..)

theorem get_acts (key : K (t.key p)) : Acts site K W c t (c.get t p).1 (c.get t p).2.1 := by
  unfold Cache.get
  split
  · exact countMiss_acts c t
  · exact load_acts key

theorem collect_acts {lookup : Cache → Tree → Path → Cache × Tree × Option CacheEntry}
    (one : ∀ c t p, K (t.key p) → Acts site K W c t (lookup c t p).1 (lookup c t p).2.1)
    {paths : List Path} (keys : ∀ k ∈ c.collectKeys lookup t paths, K k)
    (found : PathMap CacheEntry) :
    Acts site K W c t (collect lookup c t found paths).1 (collect lookup c t found paths).2.1 := by
  induction paths generalizing c t found with
  | nil => exact .refl
  | cons p rest ih =>
    obtain ⟨key, keys⟩ := List.forall_mem_cons.mp keys
    exact (one c t p key).trans (ih keys _)

theorem invalidateAll_acts {paths : List Path}
    (keys : ∀ k ∈ c.invalidateKeys t paths, K k ∧ W k) :
    Acts site K W c t (c.invalidateAll t paths).1 (c.invalidateAll t paths).2 := by
  induction paths generalizing c t with
  | nil => exact .refl
  | cons p rest ih =>
    obtain ⟨⟨key, replaced⟩, keys⟩ := List.forall_mem_cons.mp keys
    exact (Acts.one (.invalidate key replaced)).trans (ih keys)

theorem cleanup_acts {days : Nat} {r : Except Failure Nat}
    (keys : ∀ k ∈ c.invalidateKeys t (c.staleKeys t.now (signedDays days)), K k ∧ W k)
    (h : c.cleanup t days = some (c', t', r)) : Acts site K W c t c' t' := by
  unfold cleanup at h
  split at h
  · exact nomatch h
  · have acts : Acts site K W c t (c.invalidateAll t (c.staleKeys t.now (signedDays days))).1
        (c.invalidateAll t (c.staleKeys t.now (signedDays days))).2 := invalidateAll_acts keys
    dsimp only at h
    split at h
    · obtain ⟨rfl, rfl, -⟩ := triple_inj rfl (Option.some.inj h)
      exact acts
    · obtain ⟨rfl, rfl, -⟩ := triple_inj rfl (Option.some.inj h)
      exact acts.snoc (.flush rfl)

/-- Whatever a cache does for its client is a sequence of acts. -/
theorem perform_acts {o : Order} (keys : ∀ k ∈ c.asked t o, K k)
    (holdable : c.Holdable t o) (replaced : ∀ k, c.Replaces t k o → W k) :
    Acts site K W c t (c.perform t o).1 (c.perform t o).2.1 := by
  unfold perform
  cases o with
  | storing p m edges micros =>
    dsimp only
    rcases hs : c.store t p m edges micros with ⟨c', t', r⟩
    have key : K (t.key p) := keys _ (List.mem_singleton_self _)
    cases r with
    | ok stamp => exact .one (.store key (replaced _ rfl) holdable hs)
    | error f => exact .one (.miss hs)
  | checking p => exact .refl
  | comparing paths => exact .one (.count ..)
  | getting p =>
    dsimp only
    exact get_acts (keys _ (List.mem_singleton_self _))
  | gettingAll paths =>
    dsimp only
    exact collect_acts (fun _ _ _ => get_acts) keys _
  | loadingAll paths =>
    dsimp only
    exact collect_acts (fun _ _ _ => load_acts) keys _
  | invalidating p =>
    dsimp only
    exact .one (.invalidate (keys _ (List.mem_singleton_self _)) (replaced _ rfl))
  | cleaning days =>
    dsimp only
    rcases h : c.cleanup t days with _ | ⟨c', t', r⟩
    · exact .refl
    · exact cleanup_acts (fun k hk => ⟨keys k hk, replaced k hk⟩) h
  | clearing =>
    dsimp only
    exact .one (.clear (fun k => replaced k trivial) rfl)
  | forgetting => exact .one .forget
  | flushing =>
    dsimp only
    exact .one (.flush rfl)

/-! ## The memory mirrors the payload files -/

/-- Every payload in memory is the one that its file holds, and fits its record. -/
structure Mirrored (site : Site) (K : Path → Prop) (c : Cache) (t : Tree) : Prop where
  here : c.At site
  houses : t.Houses site.directory site.home
  recent : ∀ x ∈ c.recent, K x.1 ∧ site.Shelves t x.1 x.2 ∧
    ∃ r, c.index.get? x.1 = some r ∧ x.2.stamp.digest = r.stamp.digest

namespace Mirrored

theorem of_recent_nil (here : c.At site) (houses : t.Houses site.directory site.home)
    (h : c.recent = []) : Mirrored site K c t := by
  refine ⟨here, houses, ?_⟩
  rw [h]
  exact nofun

/-- A payload in memory is the one that is read from its file. -/
theorem readPayload? (h : Mirrored site K c t) (told : Unambiguous site.fingerprint K)
    (key : K (t.key p)) {r : IndexRecord} (hi : c.index.get? (t.key p) = some r) {k : Path}
    {e : CacheEntry} (hk : (k, e) ∈ c.recent) (same : (t.key p).same k = true) :
    c.readPayload? t p r = some e := by
  obtain ⟨hkey, held, r', hi', digest⟩ := h.recent _ hk
  obtain rfl : t.key p = k := told _ _ key hkey (.inl same)
  obtain rfl := Option.some.inj (hi.symm.trans hi')
  exact h.here.readPayload? h.houses held digest

/-- A step that touches the payload file of one key, after which a payload of that key is in memory
only if it was put there. -/
theorem touch (h : Mirrored site K c t) (told : Unambiguous site.fingerprint K) {k : Path}
    (key : K k) (touched : site.Touches (site.payloadPlace k) t t') (here : c'.At site)
    (recent : ∀ x ∈ c'.recent, x ∈ c.recent ∧ k.same x.1 = false ∨
      K x.1 ∧ site.Shelves t' x.1 x.2 ∧
        ∃ r, c'.index.get? x.1 = some r ∧ x.2.stamp.digest = r.stamp.digest)
    (index : ∀ k', k.same k' = false → c'.index.get? k' = c.index.get? k') :
    Mirrored site K c' t' := by
  refine ⟨here, touched.houses, fun x hx => ?_⟩
  rcases recent x hx with ⟨hx, other⟩ | hx
  · obtain ⟨hkey, held, hrecord⟩ := h.recent x hx
    refine ⟨hkey, touched.shelves held fun hplace => ?_, by rwa [index x.1 other]⟩
    rw [Site.eq_of_payloadPlace told hkey key hplace, Path.same_refl] at other
    exact nomatch other
  · exact hx

theorem invalidate (h : Mirrored site K c t) (told : Unambiguous site.fingerprint K)
    (key : K (t.key p)) : Mirrored site K (c.invalidate t p).1 (c.invalidate t p).2.1 := by
  refine h.touch told key (h.here.invalidate h.houses p) ⟨h.here.directory, h.here.fingerprint,
    h.here.formatVersion⟩ (fun x hx => ?_) fun k hk => ?_
  · obtain ⟨hx, other⟩ := List.mem_filter.mp hx
    exact .inl ⟨hx, by simpa using other⟩
  · refine (PathMap.get?_erase ..).trans (if_neg ?_)
    rw [hk]
    exact Bool.false_ne_true

/-- No act lets the memory and the payload files get out of step. -/
theorem act (h : Mirrored site K c t) (told : Unambiguous site.fingerprint K)
    (ha : Act site K W c t c' t') : Mirrored site K c' t' := by
  have same {c' : Cache} (hs : SameSetup c c') : c'.At site := h.here.same hs
  cases ha with
  | count => exact ⟨same ⟨rfl, rfl, rfl, rfl⟩, h.houses, h.recent⟩
  | forget => exact .of_recent_nil (same ⟨rfl, rfl, rfl, rfl⟩) h.houses rfl
  | @serve p r e key record held =>
    refine ⟨same ⟨rfl, rfl, rfl, rfl⟩, h.houses, fun x hx => ?_⟩
    rcases mem_use hx with rfl | ⟨hx, -⟩
    · have hread : c.readPayload? t p r = some e := by
        rcases held with ⟨k, hk, hs⟩ | hr
        · exact h.readPayload? told key record hk hs
        · exact hr
      exact ⟨key, h.here.shelves h.houses hread, r, record, (readPayload?_digest hread).symm⟩
    · exact h.recent x hx
  | @store p m edges micros stamp c' t' key _ holdable hs =>
    obtain ⟨s, hstamp, -, rfl, touched, held⟩ := h.here.store_ok h.houses hs
    have hpath : (c.entryFor t s m edges micros).stamp.path = t.key p := (stamp?_some hstamp).1
    refine h.touch told key touched (same ⟨rfl, rfl, rfl, rfl⟩) (fun x hx => ?_) fun k hk => ?_
    · rcases mem_use hx with rfl | ⟨hx, other⟩
      · refine .inr ⟨?_, ?_, _, (PathMap.get?_insert ..).trans (if_pos (Path.same_refl _)), rfl⟩
        · rw [hpath]
          exact key
        · rw [hpath]
          exact held (holdable s hstamp)
      · rw [hpath] at other
        exact .inl ⟨hx, other⟩
    · refine (PathMap.get?_insert ..).trans (if_neg ?_)
      rw [hpath]
      intro hs
      rw [Path.same_symm hs] at hk
      exact nomatch hk
  | miss hs =>
    obtain ⟨touched, drafts, rfl⟩ := h.here.store_error h.houses hs
    refine ⟨same ⟨rfl, rfl, rfl, rfl⟩, (touched site.indexPlace).houses, fun x hx => ?_⟩
    obtain ⟨hkey, held, hrecord⟩ := h.recent x hx
    exact ⟨hkey, (touched _).shelves held (site.payloadPlace_ne_index x.1), hrecord⟩
  | invalidate key => exact h.invalidate told key
  | discard key => exact h.invalidate told key
  | flush hf =>
    have flushed := h.here.flush h.houses hf
    have touched := flushed.touches h.houses
    have kept : ∀ x ∈ c.recent, K x.1 ∧ site.Shelves t' x.1 x.2 ∧
        ∃ r, c.index.get? x.1 = some r ∧ x.2.stamp.digest = r.stamp.digest := by
      intro x hx
      obtain ⟨hkey, held, hrecord⟩ := h.recent x hx
      exact ⟨hkey, touched.shelves held (site.payloadPlace_ne_index x.1), hrecord⟩
    cases flushed with
    | clean => exact h
    | failed => exact ⟨same ⟨rfl, rfl, rfl, rfl⟩, touched.houses, kept⟩
    | written => exact ⟨same ⟨rfl, rfl, rfl, rfl⟩, touched.houses, kept⟩
  | clear _ hc =>
    obtain ⟨sheds, dirty, rfl⟩ := h.here.clear h.houses hc
    exact .of_recent_nil (same ⟨rfl, rfl, rfl, rfl⟩) sheds.houses rfl

theorem acts (h : Mirrored site K c t) (told : Unambiguous site.fingerprint K)
    (ha : Acts site K W c t c' t') : Mirrored site K c' t' := by
  induction ha with
  | refl => exact h
  | snoc _ last ih => exact ih.act told last

/-- A cache at which nothing below the home has changed. -/
theorem spared (h : Mirrored site K c t) (houses : t'.Houses site.directory site.home)
    (same : ∀ q, Below site.home q → t'.find? q = t.find? q) : Mirrored site K c t' := by
  refine ⟨h.here, houses, fun x hx => ?_⟩
  obtain ⟨hkey, held, hrecord⟩ := h.recent x hx
  exact ⟨hkey, held.frame (same _ (below_append nofun)) (same _ (below_payloadPlace x.1)), hrecord⟩

end Mirrored
end Cache
end SourceSurvey
