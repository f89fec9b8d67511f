import SourceSurvey.Proofs.Cache.Client

/-!
# Files with several paths

A cache remembers the result of a file under its absolute path, and the module of the result names
the path under which the file was parsed. A client that stores under every path what parsing says of
it (`Request.Parses`) may reach one file by several paths: relative and absolute ones, a link and its
target. `Client.spelled` says under which of them the result of each file was last stored.

* `Cache.Keeps.perform`: whatever a predicate says of the payloads, orders that store nothing keep it.
* `Client.Spelled`: the payloads in memory and in files are what parsing says of those paths.
  `Spelled.serve` is the step lemma, `Spelled.after` the run lemma.
* `Client.got_spelling`: so is what is served.
-/

namespace SourceSurvey

open Cache (Unambiguous Blind Respects Keeps Stored)

/-! ## Orders that store nothing -/

/-- An order other than to store a result. -/
def Order.StoresNothing (o : Order) : Prop := ∀ p m edges micros, o ≠ .storing p m edges micros

namespace Cache

variable {K : Path → Prop} {P : Path → CacheEntry → Prop} {home : Place} {c c' c'' : Cache}
  {t t' : Tree}

/-- Looking files up one after the other keeps a predicate if each lookup does. -/
theorem Keeps.collect {lookup : Cache → Tree → Path → Cache × Tree × Option CacheEntry}
    (one : ∀ c' t p, Keeps K P home c' t → SameSetup c c' → K (t.key p) →
      Keeps K P home (lookup c' t p).1 (lookup c' t p).2.1 ∧ SameSetup c' (lookup c' t p).1)
    (h : Keeps K P home c' t) (setup : SameSetup c c') {paths : List Path}
    (keys : ∀ k ∈ c'.collectKeys lookup t paths, K k) (found : PathMap CacheEntry) :
    Keeps K P home (Cache.collect lookup c' t found paths).1
        (Cache.collect lookup c' t found paths).2.1 ∧
      SameSetup c (Cache.collect lookup c' t found paths).1 := by
  induction paths generalizing c' t found with
  | nil => exact ⟨h, setup⟩
  | cons p rest ih =>
    obtain ⟨key, keys⟩ := List.forall_mem_cons.mp keys
    obtain ⟨keeps, next⟩ := one c' t p h setup key
    exact ih keeps (setup.trans next) keys _

/-- An order that stores nothing keeps a predicate of the payloads. -/
theorem Keeps.perform (h : Keeps K P home c t) (hfp : PlainNames c.fingerprint)
    (blind : Blind c.fingerprint K P) (respects : Respects P) {o : Order}
    (keys : ∀ k ∈ c.asked t o, K k) (reads : o.StoresNothing) :
    Keeps K P home (c.perform t o).1 (c.perform t o).2.1 ∧ SameSetup c (c.perform t o).1 := by
  have plain {c' : Cache} (setup : SameSetup c c') : PlainNames c'.fingerprint := by
    rwa [setup.fingerprint]
  have blind' {c' : Cache} (setup : SameSetup c c') : Blind c'.fingerprint K P := by
    rwa [setup.fingerprint]
  cases o with
  | storing p m edges micros => exact absurd rfl (reads p m edges micros)
  | checking => exact ⟨h, .refl c⟩
  | comparing => exact ⟨⟨h.houses, h.stored, h.recent⟩, rfl, rfl, rfl, rfl⟩
  | getting p =>
    have follows := (h.get hfp blind respects (keys _ (List.mem_singleton_self _)) rfl).1
    exact ⟨follows.keeps, follows.setup⟩
  | gettingAll paths =>
    refine Keeps.collect (fun c' t p h setup key => ?_) h (.refl c) keys .empty
    have follows := (h.get (plain setup) (blind' setup) respects key rfl).1
    exact ⟨follows.keeps, follows.setup⟩
  | loadingAll paths =>
    refine Keeps.collect (fun c' t p h setup key => ?_) h (.refl c) keys .empty
    have follows := (h.load (plain setup) (blind' setup) respects key rfl).1
    exact ⟨follows.keeps, follows.setup⟩
  | invalidating p =>
    have follows := h.invalidate hfp p
    exact ⟨follows.keeps, follows.setup⟩
  | cleaning days =>
    unfold Cache.perform
    dsimp only
    rcases hc : c.cleanup t days with _ | ⟨c', t', r⟩
    · exact ⟨h, .refl c⟩
    · have follows := h.cleanup hfp hc
      exact ⟨follows.keeps, follows.setup⟩
  | clearing =>
    unfold Cache.perform
    dsimp only
    rcases hc : c.clear t with ⟨c', t', r⟩
    obtain ⟨keeps, -, setup⟩ := h.clear hc
    exact ⟨keeps, setup⟩
  | forgetting => exact ⟨h.clearMemory, rfl, rfl, rfl, rfl⟩
  | flushing =>
    unfold Cache.perform
    dsimp only
    rcases hf : c.flush t with ⟨c', t', r⟩
    have follows := h.flush hf
    exact ⟨follows.keeps, follows.setup⟩

namespace At

variable {site : Site}

theorem blind (h : c.At site) (told : Unambiguous site.fingerprint K)
    (P : Path → CacheEntry → Prop) : Blind c.fingerprint K P := by
  rw [h.fingerprint]
  exact told.blind P

end At
end Cache

/-! ## Paths under which results are stored -/

/-- A request that stores under a path what parsing says of this path, and edits no file. -/
def Request.Parses (parse : Path → Module) : Request → Prop
  | .ordering (.storing p m _ _) => m = parse p
  | .editing _ => False
  | _ => True

namespace Client

variable {site : Site} {K : Path → Prop} {parse : Path → Module} {last : Path → Option Path}
  {s : Client} {c c' : Cache} {t t' : Tree}

/-- The path under which the result of each key was last stored, after a request was answered. -/
def noted (s : Client) (last : Path → Option Path) : Request → Reply → Path → Option Path
  | .ordering (.storing p _ _ _), .stored (.ok _) =>
    Function.update last (s.tree.key p) (some p)
  | _, _ => last

theorem noted_of_storesNothing {o : Order} (h : o.StoresNothing) (reply : Reply) :
    s.noted last (.ordering o) reply = last := by
  cases o with
  | storing p m edges micros => exact absurd rfl (h p m edges micros)
  | _ => rfl

/-- The path under which the result of each key was last stored, after some requests. -/
def spelledFrom (site : Site) (s : Client) (last : Path → Option Path) :
    List Request → Path → Option Path
  | [] => last
  | r :: rest => (s.serve site r).1.spelledFrom site (s.noted last r (s.serve site r).2) rest

theorem spelledFrom_cons (site : Site) (s : Client) (last : Path → Option Path) (r : Request)
    (rest : List Request) :
    s.spelledFrom site last (r :: rest) =
      (s.serve site r).1.spelledFrom site (s.noted last r (s.serve site r).2) rest := rfl

/-- The path under which the result of each key was last stored, if nothing was stored before. -/
def spelled (site : Site) (s : Client) (rs : List Request) : Path → Option Path :=
  s.spelledFrom site (fun _ => none) rs

/-- The module of an entry is what parsing says of the path under which the result of its key was
last stored. -/
def Spells (parse : Path → Module) (last : Path → Option Path) (k : Path) (e : CacheEntry) : Prop :=
  (last k).map parse = some e.module

theorem spells_respects (parse : Path → Module) (last : Path → Option Path) :
    Respects (Spells parse last) := by
  intro k e e' h alike
  unfold Spells at h ⊢
  rw [h, alike.module]

theorem spells_update {k p : Path} {e : CacheEntry} (h : e.module = parse p) :
    Spells parse (Function.update last k (some p)) k e := by
  unfold Spells
  rw [Function.update_self, h]
  rfl

theorem spells_update_of_ne {k k' p : Path} {e : CacheEntry} (h : k' ≠ k) :
    Spells parse (Function.update last k (some p)) k' e ↔ Spells parse last k' e := by
  unfold Spells
  rw [Function.update_of_ne h]

/-- The payloads in memory and in files are what parsing says of the paths under which they were last
stored. -/
structure Spelled (site : Site) (K : Path → Prop) (parse : Path → Module)
    (last : Path → Option Path) (s : Client) : Prop where
  houses : s.tree.Houses site.directory site.home
  stored : Stored site.fingerprint K (Spells parse last) site.home s.tree
  cache : ∀ c, s.cache? = some c → c.At site ∧ Keeps K (Spells parse last) site.home c s.tree

namespace Spelled

theorem closed (houses : t.Houses site.directory site.home)
    (stored : Stored site.fingerprint K (Spells parse last) site.home t) :
    (Client.mk t none).Spelled site K parse last :=
  ⟨houses, stored, nofun⟩

/-- A client with an open cache that keeps what parsing says. -/
theorem running (here : c.At site) (keeps : Keeps K (Spells parse last) site.home c t) :
    (Client.mk t (some c)).Spelled site K parse last := by
  refine ⟨?_, ?_, ?_⟩
  · rw [← here.directory]
    exact keeps.houses
  · rw [← here.fingerprint]
    exact keeps.stored
  · rintro d ⟨⟩
    exact ⟨here, keeps⟩

theorem opened (houses : t.Houses site.directory site.home)
    (stored : Stored site.fingerprint K (Spells parse last) site.home t) {t₀ : Tree}
    {settingsDigest : String} {capacity : Nat}
    (ho : Cache.openIn t₀ site.directory settingsDigest capacity site.formatVersion
      site.fingerprint = (t, .ok c)) : (Client.mk t (some c)).Spelled site K parse last := by
  obtain ⟨here, recent, -⟩ := Cache.At.opened ho
  exact .running here (.opened houses stored here.directory here.fingerprint recent)

theorem shut (h : s.Spelled site K parse last) : s.shut.Spelled site K parse last := by
  obtain ⟨t, _ | c⟩ := s
  · exact h
  · obtain ⟨here, keeps⟩ := h.cache c rfl
    rcases hf : c.flush t with ⟨c', t', r⟩
    have follows := keeps.flush hf
    have flushed := Spelled.running (here.same follows.setup) follows.keeps
    rw [show (Client.mk t (some c)).shut = ⟨t', none⟩ by unfold Client.shut; dsimp only; rw [hf]]
    exact .closed flushed.houses flushed.stored

/-- Storing what parsing says of a path. -/
theorem store (h : (Client.mk t (some c)).Spelled site K parse last)
    (told : Unambiguous site.fingerprint K) {p : Path} {edges : List Edge} {micros : Nat}
    (key : K (t.key p)) {r : Except Failure FileStamp}
    (hs : c.store t p (parse p) edges micros = (c', t', r)) :
    (Client.mk t' (some c')).Spelled site K parse ((Client.mk t (some c)).noted last
      (.ordering (.storing p (parse p) edges micros)) (.stored r)) := by
  obtain ⟨here, keeps⟩ := h.cache c rfl
  rcases keeps.store here.plain (here.blind told _) key
      (fun k _ hk e => (spells_update_of_ne hk).mpr) (fun stamp _ => spells_update rfl) hs with
    ⟨⟨f, rfl⟩, follows⟩ | ⟨⟨stamp, rfl⟩, follows⟩
  · exact .running (here.same follows.setup) follows.keeps
  · exact .running (here.same follows.setup) follows.keeps

/-- Every request keeps what parsing says. -/
theorem serve (h : s.Spelled site K parse last) (told : Unambiguous site.fingerprint K)
    {r : Request} (parses : r.Parses parse) (keys : ∀ k ∈ s.asks r, K k) :
    (s.serve site r).1.Spelled site K parse (s.noted last r (s.serve site r).2) := by
  cases r with
  | opening settingsDigest capacity =>
    rw [serve_opening]
    rcases ho : Cache.openIn s.shut.tree site.directory settingsDigest capacity site.formatVersion
      site.fingerprint with ⟨t, r⟩
    obtain ⟨houses, stored, -⟩ := h.shut.stored.openIn h.shut.houses ho
    cases r with
    | error f => exact .closed houses stored
    | ok c => exact .opened houses stored ho
  | closing => exact h.shut
  | losing => exact .closed h.houses h.stored
  | editing => exact parses.elim
  | ordering o =>
    by_cases reads : o.StoresNothing
    · rw [noted_of_storesNothing reads]
      obtain ⟨t, _ | c⟩ := s
      · exact h
      · obtain ⟨here, keeps⟩ := h.cache c rfl
        obtain ⟨keeps', setup⟩ := keeps.perform here.plain (here.blind told _)
          (spells_respects parse last) keys reads
        rw [serve_ordering]
        exact .running (here.same setup) keeps'
    · -- Only to store a result changes under which path it was last stored.
      simp only [Order.StoresNothing, not_forall, not_not] at reads
      obtain ⟨p, m, edges, micros, rfl⟩ := reads
      obtain rfl : m = parse p := parses
      obtain ⟨t, _ | c⟩ := s
      · exact h
      · rcases hs : c.store t p (parse p) edges micros with ⟨c', t', r⟩
        rw [serve_storing hs]
        exact h.store told (keys _ (List.mem_singleton_self _)) hs

/-- Whatever the requests, what is kept is what parsing says of the paths last stored under. -/
theorem after (h : s.Spelled site K parse last) (told : Unambiguous site.fingerprint K)
    {rs : List Request} (parses : ∀ r ∈ rs, r.Parses parse) (keys : ∀ k ∈ s.asked site rs, K k) :
    (s.after site rs).Spelled site K parse (s.spelledFrom site last rs) := by
  induction rs generalizing s last with
  | nil => exact h
  | cons r rest ih =>
    obtain ⟨parses, parses'⟩ := List.forall_mem_cons.mp parses
    obtain ⟨keys, keys'⟩ := List.forall_mem_append.mp keys
    exact ih (h.serve told parses keys) parses' keys'

/-- Nothing is kept in a directory in which nothing is stored. -/
theorem begins (h : s.Begins site) (vacant : Session.Vacant site.home s.tree) :
    s.Spelled site K parse last := by
  have stored : Stored site.fingerprint K (Spells parse last) site.home s.tree := by
    intro k _ bytes changed hf
    rw [vacant _ (Cache.below_payloadPlace k) (Cache.payloadPlace_ne_entries k)] at hf
    exact nomatch hf
  obtain ⟨t, _ | c⟩ := s
  · exact .closed h.houses stored
  · obtain ⟨t₀, settingsDigest, capacity, ho⟩ := h.opened c rfl
    exact .opened h.houses stored ho

end Spelled

/-- What is served for a path is what parsing says of the path under which the result of the same
absolute path was last stored. -/
theorem got_spelling (site : Site) (parse : Path → Module) (s : Client) (rs : List Request)
    (t : Tree) (c : Cache) (q : Path) (e : CacheEntry) (begins : s.Begins site)
    (vacant : Session.Vacant site.home s.tree) (parses : ∀ r ∈ rs, r.Parses parse)
    (running : s.after site rs = ⟨t, some c⟩)
    (told : Unambiguous site.fingerprint (· ∈ t.key q :: s.asked site rs))
    (found : (c.get t q).2.2 = some e) :
    ∃ p, s.spelled site rs (t.key q) = some p ∧ e.module = parse p := by
  have start : s.Spelled site (· ∈ t.key q :: s.asked site rs) parse fun _ => none :=
    .begins begins vacant
  have spelled := start.after told parses fun k hk => List.mem_cons_of_mem _ hk
  rw [running] at spelled
  obtain ⟨here, keeps⟩ := spelled.cache c rfl
  have hspells := (keeps.get here.plain (here.blind told _) (spells_respects parse _)
    List.mem_cons_self rfl).2 e found
  obtain ⟨p, hp, hmodule⟩ := Option.map_eq_some_iff.mp hspells
  exact ⟨p, hp, hmodule.symm⟩

end Client

/-! ## Two paths of one file -/

theorem Tree.locate_housed_up :
    Tree.housed.locate ⟨"/c/../f"⟩ = .ok (["f"], .file [47, 102] ⟨0, 0⟩) := by
  have hpieces : (⟨"/c/../f"⟩ : Path).pieces = ["", "c", "..", "f"] := by decide
  have hstart : Tree.housed.start ⟨"/c/../f"⟩ = [] := if_pos (by decide)
  refine locate_of_resolve ?_
  rw [resolve_eq ⟨by decide, by decide⟩ (by decide), hstart, hpieces, walk_idle (by decide),
    walk_directory (.of_name (by decide) (by decide)) rfl, walk_up,
    walk_file (.of_name (by decide) (by decide)) rfl]
  rfl

theorem Tree.key_housed_up : Tree.housed.key ⟨"/c/../f"⟩ = ⟨"/f"⟩ := by
  rw [key_of_locate locate_housed_up, ← key_of_locate locate_housed, key_housed]

namespace Client

/-- A cache is opened beside a file, and the empty record of the file is stored under a path that
leads through the directory of the cache. -/
def storesUp : List Request :=
  [.opening "A" 1, .ordering (.storing ⟨"/c/../f"⟩ (.empty ⟨"/c/../f"⟩) [] 0)]

theorem parses_storesUp : ∀ r ∈ storesUp, r.Parses Module.empty := by
  rintro r (_ | ⟨_, _ | ⟨_, ⟨⟩⟩⟩)
  · trivial
  · rfl

/-- The record is found under the other path of the file. -/
theorem got_storesUp :
    ∃ t c e, (Client.mk .beside none).after .hashed storesUp = ⟨t, some c⟩ ∧
      (Client.mk .beside none).spelled .hashed storesUp ⟨"/f"⟩ = some ⟨"/c/../f"⟩ ∧
      (∀ k ∈ t.key ⟨"/f"⟩ :: (Client.mk .beside none).asked .hashed storesUp, k = ⟨"/f"⟩) ∧
      t.key ⟨"/f"⟩ = ⟨"/f"⟩ ∧ (c.get t ⟨"/f"⟩).2.2 = some e ∧ e.module = .empty ⟨"/c/../f"⟩ := by
  let c : Cache := .first .hashed "A"
  have h : c.Beside 0 .housed := .housed ⟨rfl, rfl, rfl⟩ rfl
  obtain ⟨stamp, hstamp, hpath, hsize, htime, hdigest⟩ := h.stamped Tree.key_housed_up
  obtain ⟨t, hs, h'⟩ := h.store (by decide) hstamp (.empty ⟨"/c/../f"⟩)
  have hkey := Tree.key_of_beside h'.file
  rw [← hkey] at hpath
  have hlocate : t.locate (t.key ⟨"/f"⟩) = .ok (["f"], .file [47, 102] ⟨0, 0⟩) := by
    rw [hkey]
    exact h'.file
  -- The file stands where it stood, so what is held for it is served.
  have hroom : 0 < ({ c with drafts := c.drafts + 1 } : Cache).capacity := Nat.one_pos
  let e := c.entryFor .housed stamp (.empty ⟨"/c/../f"⟩) [] 0
  have hentry : e.stamp.path = t.key ⟨"/f"⟩ := hpath
  obtain ⟨c', hget⟩ := Cache.get_hold hroom hentry rfl hlocate hsize htime hdigest
  have hopening : (Client.mk .beside none).serve .hashed (.opening "A" 1) =
      (⟨.housed, some c⟩, .done (.ok ())) := by
    rw [serve_opening, show (Client.mk .beside none).shut.tree = .beside from rfl,
      Cache.openIn_beside]
    rfl
  refine ⟨t, _, e, ?_, ?_, ?_, hkey, congrArg (fun r => r.2.2) hget, rfl⟩
  · rw [storesUp, after_cons, hopening, after_cons, serve_storing hs]
    rfl
  · rw [storesUp, spelled, spelledFrom_cons, hopening, spelledFrom_cons, serve_storing hs]
    show Function.update _ (Tree.housed.key ⟨"/c/../f"⟩) _ ⟨"/f"⟩ = _
    rw [Tree.key_housed_up, Function.update_self]
  · rw [storesUp, asked_cons, hopening, asked_cons, serve_storing hs, asks_storing,
      Tree.key_housed_up, hkey]
    simp [asked, asks]

/-- What is served under one path of a file is the record of the other path. -/
theorem got_spelling_beside :
    ∃ t c e p, (Client.mk .beside none).after .hashed storesUp = ⟨t, some c⟩ ∧
      (c.get t ⟨"/f"⟩).2.2 = some e ∧
      (Client.mk .beside none).spelled .hashed storesUp (t.key ⟨"/f"⟩) = some p ∧
      e.module = .empty p := by
  obtain ⟨t, c, e, final, -, asked, -, found, -⟩ := got_storesUp
  have told : Unambiguous Site.hashed.fingerprint
      (· ∈ t.key ⟨"/f"⟩ :: (Client.mk .beside none).asked .hashed storesUp) :=
    fun k k' hk hk' _ => (asked k hk).trans (asked k' hk').symm
  have vacant : Session.Vacant Site.hashed.home .beside :=
    fun q hq _ => Tree.find?_of_bare (by decide) hq
  obtain ⟨p, spelled, hmodule⟩ := got_spelling .hashed .empty ⟨.beside, none⟩ storesUp t c ⟨"/f"⟩ e
    ⟨Tree.houses_beside, nofun⟩ vacant parses_storesUp final told found
  exact ⟨t, c, e, p, final, found, spelled, hmodule⟩

/-- A client stores under every path what parsing says of it, and is served something else. -/
theorem got_other_spelling :
    (∀ r ∈ storesUp, r.Parses Module.empty) ∧
      ∃ t c e, (Client.mk .beside none).after .hashed storesUp = ⟨t, some c⟩ ∧
        (c.get t ⟨"/f"⟩).2.2 = some e ∧ e.module ≠ .empty ⟨"/f"⟩ ∧ e.module.path ≠ ⟨"/f"⟩ := by
  obtain ⟨t, c, e, final, -, -, -, found, hmodule⟩ := got_storesUp
  refine ⟨parses_storesUp, t, c, e, final, found, ?_, ?_⟩
  · rw [hmodule]
    decide
  · rw [hmodule]
    decide

end Client
end SourceSurvey
