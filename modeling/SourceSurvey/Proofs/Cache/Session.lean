import Mathlib.Logic.Relation
import SourceSurvey.Proofs.Cache.Stored

/-!
# A cache directory over time

A session is a cache directory while caches are opened, used, closed and lost there, and while
others edit the files beside it (`Session.Step`). Nobody else writes below the directory. A session
remembers under which settings the result of each key was last stored.

* `Session.Reachable.sound`: what the payload files hold was stored under these settings.
* `Session.Reachable.served`: what is served was stored for the content that the file has now. It
  was stored under the settings of the open cache iff the result of the file was last stored under
  them: a record of one cache may stand beside a payload of another one that was lost before it
  wrote its index, and nothing compares the settings of a payload.
-/

namespace SourceSurvey

open SourceSurvey.Tree (Houses Rewrites Within)
open Cache (Unambiguous Keeps Follows Stored)

/-- The place of a cache directory, and what is the same whenever a cache is opened there. -/
structure Site where
  directory : Path
  home : Place
  fingerprint : List UInt8 → String
  formatVersion : Nat
  plain : PlainNames fingerprint

/-- A cache directory over time: the tree, the open cache, the settings under which the result of
each key was last stored, and the keys that were asked for. -/
structure Session where
  tree : Tree
  cache? : Option Cache
  writer : Path → Option String := fun _ => none
  used : List Path := []

namespace Session

variable {site : Site} {s s' s₁ s₂ : Session} {c c' : Cache} {t t' : Tree} {p q : Path}
  {e : CacheEntry} {K : Path → Prop}

/-! ## Steps -/

/-- The open cache does something that no key is asked for. -/
def become (s : Session) (c? : Option Cache) (t : Tree) : Session :=
  { s with tree := t, cache? := c? }

/-- The open cache is asked for a path. -/
def asked (s : Session) (p : Path) (c : Cache) (t : Tree) : Session :=
  { s with tree := t, cache? := some c, used := s.tree.key p :: s.used }

/-- The open cache has stored a result under some settings. -/
def wrote (s : Session) (p : Path) (settingsDigest : String) (c : Cache) (t : Tree) : Session :=
  { tree := t, cache? := some c, used := s.tree.key p :: s.used
    writer := fun k => if k = s.tree.key p then some settingsDigest else s.writer k }

/-- Looking an unchanged file up answers an entry or none. -/
def Gets (s : Session) (p : Path) (e? : Option CacheEntry) (s' : Session) : Prop :=
  ∃ c c' t', s.cache? = some c ∧ c.get s.tree p = (c', t', e?) ∧ s' = s.asked p c' t'

/-- One step of a session. A cache that is closed writes its index, one that is lost does not; an
edit touches nothing below the home and leaves the directory where it is. -/
inductive Step (site : Site) : Session → Session → Prop
  | opening {s : Session} {settingsDigest : String} {capacity : Nat} {t : Tree}
      {r : Except Failure Cache} (closed : s.cache? = none)
      (h : Cache.openIn s.tree site.directory settingsDigest capacity site.formatVersion
        site.fingerprint = (t, r)) : Step site s (s.become r.toOption t)
  | storing {s : Session} {c c' : Cache} {p : Path} {m : Module} {edges : List Edge}
      {micros : Nat} {t : Tree} {stamp : FileStamp} (running : s.cache? = some c)
      (h : c.store s.tree p m edges micros = (c', t, .ok stamp)) :
      Step site s (s.wrote p c.settingsDigest c' t)
  | failing {s : Session} {c c' : Cache} {p : Path} {m : Module} {edges : List Edge}
      {micros : Nat} {t : Tree} {failure : Failure} (running : s.cache? = some c)
      (h : c.store s.tree p m edges micros = (c', t, .error failure)) :
      Step site s (s.asked p c' t)
  | getting {s s' : Session} {p : Path} {e? : Option CacheEntry} (h : s.Gets p e? s') : Step site s s'
  | invalidating {s : Session} {c : Cache} {p : Path} (running : s.cache? = some c) :
      Step site s (s.become (some (c.invalidate s.tree p).1) (c.invalidate s.tree p).2.1)
  | cleaning {s : Session} {c c' : Cache} {days : Nat} {t : Tree} {r : Except Failure Nat}
      (running : s.cache? = some c) (h : c.cleanup s.tree days = some (c', t, r)) :
      Step site s (s.become (some c') t)
  | clearing {s : Session} {c c' : Cache} {t : Tree} {r : Except Failure Unit}
      (running : s.cache? = some c) (h : c.clear s.tree = (c', t, r)) :
      Step site s (s.become (some c') t)
  | forgetting {s : Session} {c : Cache} (running : s.cache? = some c) :
      Step site s (s.become (some c.clearMemory) s.tree)
  | flushing {s : Session} {c c' : Cache} {t : Tree} {r : Except Failure Unit}
      (running : s.cache? = some c) (h : c.flush s.tree = (c', t, r)) :
      Step site s (s.become (some c') t)
  | closing {s : Session} {c c' : Cache} {t : Tree} {r : Except Failure Unit}
      (running : s.cache? = some c) (h : c.flush s.tree = (c', t, r)) : Step site s (s.become none t)
  | losing {s : Session} : Step site s (s.become none s.tree)
  | editing {s : Session} {t : Tree} (houses : t.Houses site.directory site.home)
      (same : ∀ q, Below site.home q → t.find? q = s.tree.find? q) : Step site s (s.become s.cache? t)

/-- Nothing is stored in a home. -/
def Vacant (home : Place) (t : Tree) : Prop :=
  ∀ q, Below home q → q ≠ home ++ ["entries"] → t.find? q = none

/-- The sessions that steps lead to from a directory in which nothing is stored. The directory
stands there, or the first cache that is opened makes it. -/
inductive Reachable (site : Site) : Session → Prop
  | standing {t : Tree} (houses : t.Houses site.directory site.home) (vacant : Vacant site.home t) :
      Reachable site { tree := t, cache? := none }
  | made {t t' : Tree} {settingsDigest : String} {capacity : Nat} {c : Cache}
      (h : Cache.openIn t site.directory settingsDigest capacity site.formatVersion
        site.fingerprint = (t', .ok c))
      (houses : t'.Houses site.directory site.home) (vacant : Vacant site.home t') :
      Reachable site { tree := t', cache? := some c }
  | step {s s' : Session} : Reachable site s → Step site s s' → Reachable site s'

/-! ## What is stored -/

/-- An entry was stored under the settings under which the result of its key was last stored, as
far as the keys are told apart. -/
def Recorded (site : Site) (K : Path → Prop) (writer : Path → Option String) (k : Path)
    (e : CacheEntry) : Prop :=
  Unambiguous site.fingerprint K → writer k = some e.metadata.settingsDigest

theorem recorded_blind (site : Site) (K : Path → Prop) (writer : Path → Option String) :
    Cache.Blind site.fingerprint K (Recorded site K writer) := by
  intro k k' e hk hk' ht hr hK
  rw [← hK k k' hk hk' ht]
  exact hr hK

theorem recorded_respects (site : Site) (K : Path → Prop) (writer : Path → Option String) :
    Cache.Respects (Recorded site K writer) := by
  intro k e e' hr ha hK
  rw [ha.settings]
  exact hr hK

/-- What a session keeps: the open cache and the payload files hold entries that were stored under
the settings that the session remembers. -/
structure Sound (site : Site) (K : Path → Prop) (s : Session) : Prop where
  houses : s.tree.Houses site.directory site.home
  stored : Stored site.fingerprint K (Recorded site K s.writer) site.home s.tree
  cache : ∀ c, s.cache? = some c →
    Keeps K (Recorded site K s.writer) site.home c s.tree ∧ c.Coherent ∧
      c.directory = site.directory ∧ c.fingerprint = site.fingerprint

theorem Sound.closed (houses : t.Houses site.directory site.home) {writer : Path → Option String}
    (stored : Stored site.fingerprint K (Recorded site K writer) site.home t) {used : List Path} :
    Sound site K { tree := t, cache? := none, writer, used } :=
  ⟨houses, stored, nofun⟩

/-- A session with an open cache is sound if the cache keeps what was recorded. -/
theorem Sound.running {writer : Path → Option String}
    (keeps : Keeps K (Recorded site K writer) site.home c t) (coherent : c.Coherent)
    (directory : c.directory = site.directory) (fingerprint : c.fingerprint = site.fingerprint)
    {used : List Path} : Sound site K { tree := t, cache? := some c, writer, used } := by
  refine ⟨?_, ?_, ?_⟩
  · rw [← directory]
    exact keeps.houses
  · rw [← fingerprint]
    exact keeps.stored
  · intro c₁ hc₁
    obtain rfl := Option.some.inj hc₁
    exact ⟨keeps, coherent, directory, fingerprint⟩

theorem Sound.opened (houses : t'.Houses site.directory site.home)
    {writer : Path → Option String}
    (stored : Stored site.fingerprint K (Recorded site K writer) site.home t')
    {settingsDigest : String} {capacity : Nat}
    (ho : Cache.openIn t site.directory settingsDigest capacity site.formatVersion
      site.fingerprint = (t', .ok c)) {used : List Path} :
    Sound site K { tree := t', cache? := some c, writer, used } := by
  obtain ⟨recent, directory, -, fingerprint, -⟩ := Cache.openIn_ok ho
  exact .running (.opened houses stored directory fingerprint recent)
    (Cache.coherent_of_recent_nil recent) directory fingerprint

theorem Sound.follow {writer : Path → Option String} (h : s.Sound site K)
    (hc : s.cache? = some c) (hf : Follows K (Recorded site K writer) site.home c s.tree c' t')
    (coherent : c'.Coherent) {used : List Path} :
    Sound site K { tree := t', cache? := some c', writer, used } := by
  obtain ⟨-, -, directory, fingerprint⟩ := h.cache c hc
  exact .running hf.keeps coherent (hf.setup.directory.trans directory)
    (hf.setup.fingerprint.trans fingerprint)

theorem Sound.plainNames (h : s.Sound site K) (hc : s.cache? = some c) :
    PlainNames c.fingerprint := by
  rw [(h.cache c hc).2.2.2]
  exact site.plain

theorem Sound.gets (h : s.Sound site K) (hk : K (s.tree.key p))
    {e? : Option CacheEntry} (hg : s.Gets p e? s') :
    s'.Sound site K ∧ Rewrites site.home s.tree s'.tree ∧
      ∀ e, e? = some e → Recorded site K s.writer (s.tree.key p) e := by
  obtain ⟨c, c', t', hc, hg, rfl⟩ := hg
  obtain ⟨keeps, coherent, directory, fingerprint⟩ := h.cache c hc
  have hK : Cache.Blind c.fingerprint K (Recorded site K s.writer) := by
    rw [fingerprint]
    exact recorded_blind site K _
  obtain ⟨follows, served⟩ := keeps.get (h.plainNames hc) hK (recorded_respects site K _) hk hg
  exact ⟨h.follow hc follows (coherent.get hg), follows.rewrites, served⟩

/-- A result that is stored is recorded under the settings of the open cache. -/
theorem Sound.stores (h : s.Sound site K) (hc : s.cache? = some c) (hk : K (s.tree.key p))
    {m : Module} {edges : List Edge} {micros : Nat} {stamp : FileStamp}
    (hs : c.store s.tree p m edges micros = (c', t', .ok stamp)) :
    (s.wrote p c.settingsDigest c' t').Sound site K := by
  obtain ⟨keeps, coherent, -, fingerprint⟩ := h.cache c hc
  have hb : Cache.Blind c.fingerprint K (Recorded site K
      (s.wrote p c.settingsDigest c' t').writer) := by
    rw [fingerprint]
    exact recorded_blind site K _
  have old : ∀ k, K k → k ≠ s.tree.key p → ∀ e, Recorded site K s.writer k e →
      Recorded site K (s.wrote p c.settingsDigest c' t').writer k e :=
    fun k _ hne e hr hu => (if_neg hne).trans (hr hu)
  rcases keeps.store (h.plainNames hc) hb hk old (fun stamp _ _ => if_pos rfl) hs with
    ⟨⟨failure, hr⟩, -⟩ | ⟨-, follows⟩
  · exact nomatch hr
  · exact h.follow hc follows (coherent.store hs)

/-- A result that could not be stored leaves what was recorded. -/
theorem Sound.fails (h : s.Sound site K) (hc : s.cache? = some c) (hk : K (s.tree.key p))
    {m : Module} {edges : List Edge} {micros : Nat} {failure : Failure}
    (hs : c.store s.tree p m edges micros = (c', t', .error failure)) :
    (s.asked p c' t').Sound site K := by
  obtain ⟨keeps, coherent, -, -⟩ := h.cache c hc
  have hb : Cache.Blind c.fingerprint K fun _ _ => True := fun _ _ _ _ _ _ _ => trivial
  rcases keeps.store (h.plainNames hc) hb hk (fun _ _ _ _ _ => trivial) (fun _ _ => trivial) hs with
    ⟨-, follows⟩ | ⟨⟨stamp, hr⟩, -⟩
  · exact h.follow hc follows (coherent.store hs)
  · exact nomatch hr

/-- Edits beside the home leave what was recorded. -/
theorem Sound.edited (h : s.Sound site K) (houses : t.Houses site.directory site.home)
    (same : ∀ q, Below site.home q → t.find? q = s.tree.find? q) :
    (s.become s.cache? t).Sound site K := by
  have stored (fingerprint : List UInt8 → String)
      (hs : Stored fingerprint K (Recorded site K s.writer) site.home s.tree) :
      Stored fingerprint K (Recorded site K s.writer) site.home t :=
    hs.mono fun k _ n hn => (same _ (Cache.below_payloadPlace k)).symm.trans hn
  refine ⟨houses, stored _ h.stored, fun c hc => ?_⟩
  obtain ⟨keeps, coherent, directory, fingerprint⟩ := h.cache c hc
  refine ⟨⟨?_, stored _ keeps.stored, keeps.recent⟩, coherent, directory, fingerprint⟩
  rw [directory]
  exact houses

/-- Every step keeps a session sound. -/
theorem Sound.step (h : s.Sound site K)
    (hs : Step site s s') (hK : ∀ k ∈ s'.used, K k) : s'.Sound site K := by
  cases hs with
  | opening closed ho =>
    obtain ⟨houses, stored, -⟩ := h.stored.openIn h.houses ho
    rename_i r
    cases r with
    | error failure => exact .closed houses stored
    | ok c => exact .opened houses stored ho
  | storing running hst => exact h.stores running (hK _ List.mem_cons_self) hst
  | failing running hst => exact h.fails running (hK _ List.mem_cons_self) hst
  | getting hg =>
    rename_i p e?
    have hk : K (s.tree.key p) := by
      obtain ⟨c, c', t', -, -, rfl⟩ := hg
      exact hK _ List.mem_cons_self
    exact (h.gets hk hg).1
  | invalidating running =>
    obtain ⟨keeps, coherent, -, -⟩ := h.cache _ running
    exact h.follow running (keeps.invalidate (h.plainNames running) _) (coherent.invalidate _ _)
  | cleaning running hcl =>
    obtain ⟨keeps, coherent, -, -⟩ := h.cache _ running
    exact h.follow running (keeps.cleanup (h.plainNames running) hcl) (coherent.cleanup hcl)
  | clearing running hcl =>
    obtain ⟨keeps, -, directory, fingerprint⟩ := h.cache _ running
    obtain ⟨keeps', -, setup⟩ := keeps.clear hcl
    exact .running keeps' (.clear hcl) (setup.directory.trans directory)
      (setup.fingerprint.trans fingerprint)
  | forgetting running =>
    obtain ⟨keeps, -, directory, fingerprint⟩ := h.cache _ running
    exact .running keeps.clearMemory (Cache.Coherent.clearMemory _) directory fingerprint
  | flushing running hf =>
    obtain ⟨keeps, coherent, -, -⟩ := h.cache _ running
    exact h.follow running (keeps.flush hf) (coherent.flush hf)
  | closing running hf =>
    obtain ⟨keeps, -, directory, fingerprint⟩ := h.cache _ running
    obtain ⟨⟨houses, stored, -⟩, -, setup⟩ := keeps.flush hf
    rw [setup.directory, directory] at houses
    rw [setup.fingerprint, fingerprint] at stored
    exact .closed houses stored
  | losing => exact .closed h.houses h.stored
  | editing houses same => exact h.edited houses same

theorem Step.used (hs : Step site s s') : ∀ k ∈ s.used, k ∈ s'.used := by
  intro k hk
  cases hs with
  | storing => exact List.mem_cons_of_mem _ hk
  | failing => exact List.mem_cons_of_mem _ hk
  | getting hg =>
    obtain ⟨c, c', t', -, -, rfl⟩ := hg
    exact List.mem_cons_of_mem _ hk
  | opening => exact hk
  | invalidating => exact hk
  | cleaning => exact hk
  | clearing => exact hk
  | forgetting => exact hk
  | flushing => exact hk
  | closing => exact hk
  | losing => exact hk
  | editing => exact hk

/-- Every session that can be reached is sound for every set of keys that has those asked for. -/
theorem Reachable.sound (hs : Reachable site s) :
    (∀ k ∈ s.used, K k) → s.Sound site K := by
  have vacant_stored {t : Tree} {writer : Path → Option String} (hv : Vacant site.home t) :
      Stored site.fingerprint K (Recorded site K writer) site.home t := by
    intro k _ bytes changed hf
    rw [hv _ (Cache.below_payloadPlace k) (Cache.payloadPlace_ne_entries k)] at hf
    exact nomatch hf
  induction hs with
  | standing houses vacant => exact fun _ => .closed houses (vacant_stored vacant)
  | made ho houses vacant => exact fun _ => .opened houses (vacant_stored vacant) ho
  | step _ hst ih => exact fun hK => (ih fun k hk => hK k (hst.used k hk)).step hst hK

/-! ## What is served -/

/-- An entry was stored for the content that a file has now. -/
def Fits (fingerprint : List UInt8 → String) (t : Tree) (p : Path) (e : CacheEntry) : Prop :=
  ∃ place bytes changed, t.locate (t.key p) = .ok (place, .file bytes changed) ∧
    e.stamp.digest = fingerprint bytes

/-- What a session serves for a path. The entry fits the file. If the cache tells the keys apart
that were asked for, the entry was stored under the settings of the open cache iff the result of
the file was last stored under them. -/
structure Serves (site : Site) (s : Session) (settingsDigest : String) (p : Path)
    (e : CacheEntry) : Prop where
  fits : Fits site.fingerprint s.tree p e
  settings : Unambiguous site.fingerprint (· ∈ s.tree.key p :: s.used) →
    (e.metadata.settingsDigest = settingsDigest ↔
      s.writer (s.tree.key p) = some settingsDigest)

/-- Lookups that follow one another. -/
def Looks : Session → Session → Prop := Relation.ReflTransGen fun s s' => ∃ p e?, s.Gets p e? s'

theorem Reachable.looks (hs : Reachable site s) (hl : Looks s s') : Reachable site s' := by
  induction hl with
  | refl => exact hs
  | tail _ hg ih =>
    obtain ⟨p, e?, hg⟩ := hg
    exact ih.step (.getting hg)

/-- What a lookup serves. -/
theorem Reachable.serves (hs : Reachable site s)
    (hg : s.Gets p (some e) s') (settingsDigest : String) : s.Serves site settingsDigest p e := by
  constructor
  · have sound : s.Sound site fun _ => True := hs.sound fun _ _ => trivial
    obtain ⟨c, c', t', hc, hg, rfl⟩ := hg
    obtain ⟨-, coherent, -, fingerprint⟩ := sound.cache c hc
    rw [← fingerprint]
    exact Cache.get_digest coherent hg
  · intro hK
    have sound : s.Sound site (· ∈ s.tree.key p :: s.used) :=
      hs.sound fun k hk => List.mem_cons_of_mem _ hk
    have hr := (sound.gets List.mem_cons_self hg).2.2 e rfl hK
    rw [hr, Option.some.injEq]

/-- Every value of a bulk lookup was served by one lookup of a path of the list. -/
theorem collect_get (paths : List Path) {found : PathMap CacheEntry} (hc : s.cache? = some c)
    (hq : (Cache.collect Cache.get c s.tree found paths).2.2.get? q = some e) :
    found.get? q = some e ∨
      ∃ s₁ s₂ p, p ∈ paths ∧ q.same p = true ∧ Looks s s₁ ∧ s₁.Gets p (some e) s₂ := by
  induction paths generalizing s c found with
  | nil => exact .inl hq
  | cons p rest ih =>
    unfold Cache.collect at hq
    cases hg : c.get s.tree p with
    | mk c₁ r =>
      obtain ⟨t₁, e?⟩ := r
      have gets : s.Gets p e? (s.asked p c₁ t₁) := ⟨c, c₁, t₁, hc, hg, rfl⟩
      rw [hg] at hq
      rcases ih (s := s.asked p c₁ t₁) rfl hq with hf | ⟨s₁, s₂, p', hp, hs, hl, hg'⟩
      · cases e? with
        | none => exact .inl hf
        | some e₁ =>
          dsimp only at hf
          rw [PathMap.get?_insert] at hf
          split at hf
          · rename_i hsame
            obtain rfl := Option.some.inj hf
            exact .inr ⟨s, _, p, List.mem_cons_self, hsame, .refl, gets⟩
          · exact .inl hf
      · exact .inr ⟨s₁, s₂, p', List.mem_cons_of_mem _ hp, hs, .head ⟨p, e?, gets⟩ hl, hg'⟩

/-- Lookups write nothing, keep the cache open and touch nothing but the files of the home. -/
theorem Looks.frame (hs : Reachable site s)
    (hl : Looks s s') : s'.writer = s.writer ∧ Rewrites site.home s.tree s'.tree := by
  induction hl with
  | refl => exact ⟨rfl, .refl _⟩
  | tail hl hg ih =>
    obtain ⟨writer, rewrites⟩ := ih
    obtain ⟨p, e?, hg⟩ := hg
    have sound := (hs.looks hl).sound (K := fun _ => True) fun _ _ => trivial
    have rewrites' := (sound.gets trivial hg).2.1
    obtain ⟨c, c', t', hc, hg, rfl⟩ := hg
    exact ⟨writer, rewrites.trans rewrites'⟩

/-- Whatever is served by a lookup or a bulk lookup of a session that can be reached was stored for
the content that the file has now; and it was stored under the settings of the open cache iff the
result of the file was last stored under them. A bulk lookup asks for one file after the other, and
each value is what one of these lookups serves. -/
theorem Reachable.served (hs : Reachable site s)
    (hc : s.cache? = some c) :
    (∀ p e c' t', c.get s.tree p = (c', t', some e) → s.Serves site c.settingsDigest p e) ∧
      ∀ paths q e, (c.bulkLoad s.tree paths).2.2.get? q = some e →
        ∃ s₁ s₂ p, p ∈ paths ∧ q.same p = true ∧ Looks s s₁ ∧ s₁.Gets p (some e) s₂ ∧
          s₁.writer = s.writer ∧ Within site.home s.tree s₁.tree ∧
          s₁.Serves site c.settingsDigest p e := by
  refine ⟨fun p e c' t' hg => hs.serves ⟨c, c', t', hc, hg, rfl⟩ _, fun paths q e hq => ?_⟩
  rcases collect_get paths hc hq with hf | ⟨s₁, s₂, p, hp, hsame, hl, hg⟩
  · exact nomatch hf
  · obtain ⟨writer, rewrites⟩ := hl.frame hs
    exact ⟨s₁, s₂, p, hp, hsame, hl, hg, writer, rewrites.toWithin,
      (hs.looks hl).serves hg _⟩

end Session

/-! ## A session -/

/-- A site with the digests of BLAKE3. -/
def Site.hashed : Site := ⟨⟨"/c"⟩, ["c"], Digest.Blake3.hexHash, 1, plainNames_hexHash⟩

/-- The first cache of a site. -/
def Cache.first (site : Site) (settingsDigest : String) : Cache :=
  { directory := site.directory, settingsDigest, capacity := 1, fingerprint := site.fingerprint
    formatVersion := site.formatVersion }

namespace Tree

/-- A tree of a file, which holds its own path, beside an empty directory. -/
def beside : Tree :=
  { nodes := [(["f"], .file [47, 102] ⟨0, 0⟩), (["c"], .directory)], now := ⟨0, 0⟩ }

/-- The tree with the directory of the payloads. -/
def housed : Tree := beside.put ["c", "entries"] .directory

theorem houses_beside : beside.Houses ⟨"/c"⟩ ["c"] where
  leads t hc hs := by
    have hl : (⟨"/c"⟩ : Path).WithinLimits := ⟨by decide, by decide⟩
    have hpieces : (⟨"/c"⟩ : Path).pieces = ["", "c"] := by decide
    have hstart : t.start ⟨"/c"⟩ = [] := if_pos (by decide)
    have hf : t.find? ([] ++ ["c"]) = some .directory := hs ["c"] (by decide)
    refine locate_of_resolve ?_
    rw [resolve_eq hl (by decide), hstart, hpieces, walk_idle (by decide),
      walk_directory (.of_name (by decide) (by decide)) hf, walk]
    rfl
  entries := .inl rfl
  files q hq _ n hn := by
    have hbare : ∀ e ∈ beside.nodes, ¬ Below ["c"] e.1 := by decide
    rw [find?_of_bare hbare hq] at hn
    cases hn

theorem createDirectories_beside :
    beside.createDirectories ⟨"/c/entries"⟩ = (housed, .ok ()) := by
  have hl : (⟨"/c/entries"⟩ : Path).WithinLimits := ⟨by decide, by decide⟩
  have hpieces : (⟨"/c/entries"⟩ : Path).pieces = ["", "c", "entries"] := by decide
  have hstart : beside.start ⟨"/c/entries"⟩ = [] := if_pos (by decide)
  have hcreate : beside.createDirectory ⟨"/c/entries"⟩ = .ok housed := by
    unfold createDirectory
    rw [resolve_eq hl (by decide), hstart, hpieces, walk_idle (by decide),
      walk_directory (.of_name (by decide) (by decide)) rfl,
      walk_none (.of_name (by decide) (by decide)) rfl]
    rfl
  have hne : (⟨"/c/entries"⟩ : Path).text ≠ "" := by decide
  rcases beside.createDirectories_cases hne with ⟨t', hc, h⟩ | ⟨e, he, -⟩
  · rw [h, Except.ok.inj (hcreate.symm.trans hc)]
  · exact nomatch hcreate.symm.trans he

theorem houses_housed : housed.Houses ⟨"/c"⟩ ["c"] :=
  (houses_beside.createDirectories createDirectories_beside).1

theorem locate_housed : housed.locate ⟨"/f"⟩ = .ok (["f"], .file [47, 102] ⟨0, 0⟩) :=
  locate_top ⟨by decide, by decide⟩ (by decide) (by decide) (by decide)
    (.of_name (by decide) (by decide)) rfl

theorem key_housed : housed.key ⟨"/f"⟩ = ⟨"/f"⟩ := by
  rw [key_of_locate locate_housed]
  decide

end Tree

theorem Site.entries_hashed : Site.hashed.directory.join ⟨"entries"⟩ = ⟨"/c/entries"⟩ := by decide

theorem Cache.openIn_beside (settingsDigest : String) :
    Cache.openIn .beside Site.hashed.directory settingsDigest 1 Site.hashed.formatVersion
        Site.hashed.fingerprint = (.housed, .ok (.first .hashed settingsDigest)) := by
  have hindex := Cache.readIndex_of_missing Tree.houses_housed rfl Site.hashed.formatVersion
  unfold Cache.openIn Cache.entriesPath Cache.indexPath
  dsimp only
  rw [Site.entries_hashed, Tree.createDirectories_beside]
  dsimp only
  rw [show Site.hashed.directory = ⟨"/c"⟩ from rfl, hindex]
  rfl

theorem Path.nameable_hashed (bytes : List UInt8) {rest : String}
    (hn : IsName (Digest.Blake3.hexHash bytes ++ "." ++ rest)) (nul : '\x00' ∉ rest.toList)
    (short : rest.utf8ByteSize ≤ 100) :
    ((Site.hashed.directory.join ⟨"entries"⟩).join
      ⟨Digest.Blake3.hexHash bytes ++ "." ++ rest⟩).Nameable := by
  rw [Site.entries_hashed]
  have hsize : (Digest.Blake3.hexHash bytes ++ "." ++ rest).utf8ByteSize =
      65 + rest.utf8ByteSize := by
    rw [String.utf8ByteSize_append, String.utf8ByteSize_append,
      Digest.Blake3.utf8ByteSize_hexHash]
    rfl
  have hnul : '\x00' ∉ (Digest.Blake3.hexHash bytes).toList :=
    fun h => absurd (Digest.Blake3.mem_hexHash h) (by decide)
  have hpieces : (⟨"/c/entries"⟩ : Path).pieces = ["", "c", "entries"] := by decide
  have hdir : (⟨"/c/entries"⟩ : Path).Nameable := by
    refine ⟨⟨by decide, by decide⟩, ?_⟩
    rw [hpieces]
    decide
  have htext : (⟨"/c/entries"⟩ : Path).text.utf8ByteSize = 10 := by decide
  refine hdir.join hn ?_ ?_ ?_
  · simp [hnul, nul]
  · rw [hsize, Tree.nameLimit]
    omega
  · rw [hsize, htext, Tree.pathLimit]
    omega

namespace Session

/-- The first cache of a site stores a result of a file and serves it. -/
theorem Reachable.served_beside :
    ∃ s c c' t' e, Reachable .hashed s ∧ s.cache? = some c ∧
      c.get s.tree ⟨"/f"⟩ = (c', t', some e) ∧ e.module = ⟨⟨"/f"⟩, "f", [], [], [], [], 0, 1⟩ ∧
      s.Serves .hashed c.settingsDigest ⟨"/f"⟩ e := by
  have hbare : ∀ e ∈ Tree.beside.nodes, ¬ Below ["c"] e.1 := by decide
  have hstart : Reachable .hashed ⟨.beside, none, fun _ => none, []⟩ :=
    .standing Tree.houses_beside fun q hq _ => Tree.find?_of_bare hbare hq
  let c : Cache := .first .hashed "A"
  have hopened : Reachable .hashed ⟨.housed, some c, fun _ => none, []⟩ := by
    have hstep := Step.opening (s := ⟨.beside, none, fun _ => none, []⟩) rfl
      (Cache.openIn_beside "A")
    exact hstart.step hstep
  have hplain : PlainNames c.fingerprint := plainNames_hexHash
  obtain ⟨stamp, hstamp, hpath, hsize, htime, hdigest⟩ : ∃ stamp,
      c.stamp? .housed ⟨"/f"⟩ = some stamp ∧ stamp.path = ⟨"/f"⟩ ∧
        stamp.size = ([47, 102] : List UInt8).length ∧
        stamp.changed? = some ⟨0, 0⟩ ∧ stamp.digest = Digest.Blake3.hexHash [47, 102] := by
    unfold Cache.stamp?
    rw [Tree.key_housed, Tree.locate_housed]
    exact ⟨_, rfl, rfl, rfl, rfl, rfl⟩
  have hp : (c.payloadPath .housed ⟨"/f"⟩).Nameable := by
    rw [Cache.payloadPath_eq]
    exact Path.nameable_hashed _ (Cache.isName_fileName (hplain _).2) (by decide) (by decide)
  obtain ⟨t, hstore⟩ := c.store_ok Tree.houses_housed rfl hplain hp
    (Path.nameable_hashed _ (Cache.isName_draftName (hplain _).2 0) (by decide) (by decide))
    hstamp ⟨⟨"/f"⟩, "f", [], [], [], [], 0, 1⟩ [] 0
  have hs := hopened.step (.storing rfl hstore)
  -- The home alone was written, so the file still stands where it stood.
  have hsound := @Reachable.sound .hashed _ (fun _ => True) hopened fun _ _ => trivial
  have hblind : Cache.Blind c.fingerprint (fun _ => True) fun _ _ => True :=
    fun _ _ _ _ _ _ _ => trivial
  have rewrites : Rewrites ["c"] .housed t := by
    rcases (hsound.cache c rfl).1.store hplain hblind trivial (fun _ _ _ _ _ => trivial)
      (fun _ _ => trivial) hstore with ⟨-, follows⟩ | ⟨-, follows⟩
    · exact follows.rewrites
    · exact follows.rewrites
  have hlocate : t.locate ⟨"/f"⟩ = .ok (["f"], .file [47, 102] ⟨0, 0⟩) := by
    refine Tree.locate_mono Tree.locate_housed rewrites.current fun q n hq hk =>
      rewrites.keep Tree.houses_housed hq ?_
    rcases hk with hk | rfl
    · exact .inl hk
    · exact .inr (by decide)
  have hkey : t.key ⟨"/f"⟩ = ⟨"/f"⟩ := by
    rw [Tree.key_of_locate hlocate, ← Tree.key_of_locate Tree.locate_housed, Tree.key_housed]
  have hlocate' : t.locate (t.key ⟨"/f"⟩) = .ok (["f"], .file [47, 102] ⟨0, 0⟩) := by
    rw [hkey]
    exact hlocate
  have hroom : 0 < ({ c with drafts := c.drafts + 1 } : Cache).capacity := Nat.one_pos
  have hentry (m : Module) : (c.entryFor .housed stamp m [] 0).stamp.path = t.key ⟨"/f"⟩ :=
    hpath.trans hkey.symm
  obtain ⟨c', hget⟩ := Cache.get_hold hroom (hentry _) rfl hlocate' hsize htime hdigest
  exact ⟨_, _, c', t, _, hs, rfl, hget, rfl, (Reachable.served hs rfl).1 _ _ _ _ hget⟩

end Session
end SourceSurvey
