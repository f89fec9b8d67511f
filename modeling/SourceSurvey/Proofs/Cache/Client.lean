import SourceSurvey.Proofs.Cache.Acts

/-!
# A client of a cache directory

One client opens, uses, closes and loses caches at a site, and files beside the directory are edited
(`Request`). What it does is a function of its requests (`Client.serve`, `Client.after`), so two
sequences of requests can be compared, and so can what follows one of them.

* `Client.Mirrored.serve`: the memory of the open cache mirrors the payload files at every moment.
* `Cache.Beside`: a cache beside one file, where the runs of fixed requests take place.
-/

namespace SourceSurvey

open Cache (Acts Unambiguous fileName)

/-! ## Requests -/

/-- What may happen at a cache directory. A cache that is closed writes its index, and so does one
that is open when another one is opened; one that is lost does not. -/
inductive Request where
  | opening (settingsDigest : String) (capacity : Nat)
  | ordering (o : Order)
  | closing
  | losing
  | editing (t : Tree)

/-- A client: the tree, and the cache that it has open. -/
structure Client where
  tree : Tree
  cache? : Option Cache

namespace Client

variable {site : Site} {K W : Path → Prop} {s s' : Client} {c c' : Cache} {t t' : Tree}

/-- The client after the open cache, if there is one, was closed. -/
def shut (s : Client) : Client :=
  match s.cache? with
  | none => s
  | some c => { tree := (c.flush s.tree).2.1, cache? := none }

/-- What a request leads to. An order is nothing to a client that has no cache open. -/
def serve (site : Site) (s : Client) : Request → Client × Reply
  | .opening settingsDigest capacity =>
    let (t, r) := Cache.openIn s.shut.tree site.directory settingsDigest capacity
      site.formatVersion site.fingerprint
    ({ tree := t, cache? := r.toOption }, .done (r.map fun _ => ()))
  | .ordering o =>
    match s.cache? with
    | none => (s, .nothing)
    | some c =>
      let (c, t, reply) := c.perform s.tree o
      ({ tree := t, cache? := some c }, reply)
  | .closing => (s.shut, .nothing)
  | .losing => ({ s with cache? := none }, .nothing)
  | .editing t => ({ s with tree := t }, .nothing)

theorem serve_opening (site : Site) (s : Client) (settingsDigest : String) (capacity : Nat) :
    s.serve site (.opening settingsDigest capacity) =
      (⟨(Cache.openIn s.shut.tree site.directory settingsDigest capacity site.formatVersion
            site.fingerprint).1,
          (Cache.openIn s.shut.tree site.directory settingsDigest capacity site.formatVersion
            site.fingerprint).2.toOption⟩,
        .done ((Cache.openIn s.shut.tree site.directory settingsDigest capacity site.formatVersion
            site.fingerprint).2.map fun _ => ())) := by
  rw [serve]

theorem serve_opening_ok {settingsDigest : String} {capacity : Nat}
    (ho : Cache.openIn t site.directory settingsDigest capacity site.formatVersion site.fingerprint =
      (t', .ok c)) :
    (Client.mk t none).serve site (.opening settingsDigest capacity) =
      (⟨t', some c⟩, .done (.ok ())) := by
  rw [serve_opening, show (Client.mk t none).shut.tree = t from rfl, ho]
  rfl

theorem serve_ordering (site : Site) (c : Cache) (t : Tree) (o : Order) :
    (Client.mk t (some c)).serve site (.ordering o) =
      (⟨(c.perform t o).2.1, some (c.perform t o).1⟩, (c.perform t o).2.2) := by
  rw [serve]

theorem serve_storing {p : Path} {m : Module} {edges : List Edge} {micros : Nat}
    {r : Except Failure FileStamp} (hs : c.store t p m edges micros = (c', t', r)) :
    (Client.mk t (some c)).serve site (.ordering (.storing p m edges micros)) =
      (⟨t', some c'⟩, .stored r) := by
  rw [serve_ordering]
  unfold Cache.perform
  dsimp only
  rw [hs]

/-- The client after some requests. -/
def after (site : Site) (s : Client) : List Request → Client
  | [] => s
  | r :: rest => (s.serve site r).1.after site rest

/-- The keys of the payload files with which the open cache deals for a request. -/
def asks (s : Client) : Request → List Path
  | .ordering o => (s.cache?.map fun c => c.asked s.tree o).getD []
  | _ => []

theorem asks_storing (c : Cache) (t : Tree) (p : Path) (m : Module) (edges : List Edge)
    (micros : Nat) :
    (Client.mk t (some c)).asks (.ordering (.storing p m edges micros)) = [t.key p] := rfl

/-- The keys of the payload files with which caches deal for some requests. -/
def asked (site : Site) (s : Client) : List Request → List Path
  | [] => []
  | r :: rest => s.asks r ++ (s.serve site r).1.asked site rest

/-- What is stored fits the machine, and an edit touches nothing below the home and leaves the
directory where it is. -/
def Allows (site : Site) (s : Client) : Request → Prop
  | .ordering o => ∀ c, s.cache? = some c → c.Holdable s.tree o
  | .editing t =>
    t.Houses site.directory site.home ∧ ∀ q, Below site.home q → t.find? q = s.tree.find? q
  | _ => True

/-- A property of a client and its next request that holds at each of some requests. -/
def Throughout (site : Site) (P : Client → Request → Prop) (s : Client) : List Request → Prop
  | [] => True
  | r :: rest => P s r ∧ (s.serve site r).1.Throughout site P rest

/-- A client whose directory stands, and which has no cache open or has just opened one. -/
structure Begins (site : Site) (s : Client) : Prop where
  houses : s.tree.Houses site.directory site.home
  opened : ∀ c, s.cache? = some c → ∃ t settingsDigest capacity,
    Cache.openIn t site.directory settingsDigest capacity site.formatVersion site.fingerprint =
      (s.tree, .ok c)

theorem after_cons (site : Site) (s : Client) (r : Request) (rest : List Request) :
    s.after site (r :: rest) = (s.serve site r).1.after site rest := rfl

theorem asked_cons (site : Site) (s : Client) (r : Request) (rest : List Request) :
    s.asked site (r :: rest) = s.asks r ++ (s.serve site r).1.asked site rest := rfl

theorem throughout_cons {P : Client → Request → Prop} {r : Request} {rest : List Request} :
    s.Throughout site P (r :: rest) ↔ P s r ∧ (s.serve site r).1.Throughout site P rest := .rfl

theorem asked_append (site : Site) (s : Client) (rs rs' : List Request) :
    s.asked site (rs ++ rs') = s.asked site rs ++ (s.after site rs).asked site rs' := by
  induction rs generalizing s with
  | nil => rfl
  | cons r rest ih =>
    show s.asks r ++ _ = (s.asks r ++ _) ++ _
    rw [List.append_assoc]
    exact congrArg _ (ih _)

/-! ## Opening -/

/-- Opening a cache makes the directory of the payloads, whatever comes of it. -/
theorem openIn_fst {dir : Path} {settingsDigest : String} {capacity version : Nat}
    {fingerprint : List UInt8 → String} {r : Except Failure Cache}
    (h : Cache.openIn t dir settingsDigest capacity version fingerprint = (t', r)) :
    (t.createDirectories (dir.join ⟨"entries"⟩)).1 = t' := by
  unfold Cache.openIn at h
  dsimp only at h
  split at h
  · rename_i t₁ e hc
    exact (congrArg Prod.fst hc).trans (Prod.mk.inj h).1
  · rename_i t₁ hc
    exact (congrArg Prod.fst hc).trans (Prod.mk.inj h).1

/-- Opening a cache adds no file. -/
theorem sheds_openIn (houses : t.Houses site.directory site.home) {settingsDigest : String}
    {capacity : Nat} {r : Except Failure Cache}
    (h : Cache.openIn t site.directory settingsDigest capacity site.formatVersion
      site.fingerprint = (t', r)) : site.Sheds t t' := by
  obtain rfl := openIn_fst h
  exact .createEntries houses rfl

/-! ## What a request leads to -/

/-- What a request leads to: opening closes the open cache first, and an order makes the open cache
act. -/
inductive Serves (site : Site) (K W : Path → Prop) (s : Client) : Request → Client → Prop
  | opening {settingsDigest : String} {capacity : Nat} {t' : Tree} {r : Except Failure Cache}
      (h : Cache.openIn s.shut.tree site.directory settingsDigest capacity site.formatVersion
        site.fingerprint = (t', r)) :
      Serves site K W s (.opening settingsDigest capacity) ⟨t', r.toOption⟩
  | idle {o : Order} (h : s.cache? = none) : Serves site K W s (.ordering o) s
  | acting {o : Order} {c c' : Cache} {t' : Tree} (h : s.cache? = some c)
      (acts : Acts site K W c s.tree c' t') : Serves site K W s (.ordering o) ⟨t', some c'⟩
  | closing : Serves site K W s .closing s.shut
  | losing : Serves site K W s .losing ⟨s.tree, none⟩
  | editing (t : Tree) : Serves site K W s (.editing t) ⟨t, s.cache?⟩

/-- Every request leads to what `Serves` says. -/
theorem serve_serves {r : Request} (allowed : s.Allows site r) (keys : ∀ k ∈ s.asks r, K k)
    (replaced : ∀ c o k, s.cache? = some c → r = .ordering o → c.Replaces s.tree k o → W k) :
    s.Serves site K W r (s.serve site r).1 := by
  cases r with
  | opening settingsDigest capacity =>
    rw [serve_opening]
    exact .opening rfl
  | ordering o =>
    obtain ⟨t, _ | c⟩ := s
    · exact .idle rfl
    · rw [serve_ordering]
      exact .acting rfl (Cache.perform_acts keys (allowed c rfl)
        fun k hk => replaced c o k rfl rfl hk)
  | closing => exact .closing
  | losing => exact .losing
  | editing t => exact .editing t

theorem shut_cache? (s : Client) : s.shut.cache? = none := by
  obtain ⟨t, _ | c⟩ := s
  · rfl
  · rfl

/-- What every request keeps holds after all requests. -/
theorem after_induction {I : Client → Prop} {P : Client → Request → Prop} (h : I s)
    {rs : List Request} (served : s.Throughout site P rs) (keys : ∀ k ∈ s.asked site rs, K k)
    (step : ∀ s r, I s → P s r → (∀ k ∈ s.asks r, K k) → I (s.serve site r).1) :
    I (s.after site rs) := by
  induction rs generalizing s with
  | nil => exact h
  | cons r rest ih =>
    obtain ⟨keys, keys'⟩ := List.forall_mem_append.mp keys
    exact ih (step s r h served.1 keys) served.2 keys'

/-! ## The memory mirrors the payload files -/

/-- The memory of the open cache mirrors the payload files. -/
structure Mirrored (site : Site) (K : Path → Prop) (s : Client) : Prop where
  houses : s.tree.Houses site.directory site.home
  cache : ∀ c, s.cache? = some c → c.Mirrored site K s.tree

namespace Mirrored

theorem shut (h : s.Mirrored site K) : s.shut.tree.Houses site.directory site.home := by
  unfold Client.shut
  cases hc : s.cache? with
  | none => exact h.houses
  | some c =>
    have here := (h.cache c hc).here
    exact ((here.flush h.houses rfl).touches h.houses).houses

/-- No request lets the memory and the payload files get out of step. -/
theorem serves (h : s.Mirrored site K) (told : Unambiguous site.fingerprint K) {r : Request}
    (allowed : s.Allows site r) (hs : s.Serves site K W r s') : s'.Mirrored site K := by
  cases hs with
  | @opening _ _ t' r ho =>
    have houses := (sheds_openIn h.shut ho).houses
    refine ⟨houses, fun c hc => ?_⟩
    cases r with
    | error f => exact nomatch hc
    | ok c' =>
      obtain rfl := Option.some.inj hc
      obtain ⟨here, recent, -⟩ := Cache.At.opened ho
      exact .of_recent_nil here houses recent
  | idle => exact h
  | @acting _ c c' t' hc acts =>
    have mirrored := (h.cache c hc).acts told acts
    refine ⟨mirrored.houses, fun d hd => ?_⟩
    obtain rfl := Option.some.inj hd
    exact mirrored
  | closing => exact ⟨h.shut, fun c hc => nomatch s.shut_cache?.symm.trans hc⟩
  | losing => exact ⟨h.houses, nofun⟩
  | editing t => exact ⟨allowed.1, fun c hc => (h.cache c hc).spared allowed.1 allowed.2⟩

theorem serve (h : s.Mirrored site K) (told : Unambiguous site.fingerprint K) {r : Request}
    (allowed : s.Allows site r) (keys : ∀ k ∈ s.asks r, K k) :
    (s.serve site r).1.Mirrored site K :=
  h.serves told allowed
    (serve_serves (W := fun _ => True) allowed keys fun _ _ _ _ _ _ => trivial)

theorem begins (h : s.Begins site) : s.Mirrored site K := by
  refine ⟨h.houses, fun c hc => ?_⟩
  obtain ⟨t, settingsDigest, capacity, ho⟩ := h.opened c hc
  obtain ⟨here, recent, -⟩ := Cache.At.opened ho
  exact .of_recent_nil here h.houses recent

/-- After whatever requests the memory mirrors the payload files. -/
theorem after (h : s.Mirrored site K) (told : Unambiguous site.fingerprint K) {rs : List Request}
    (allowed : s.Throughout site (Allows site) rs) (keys : ∀ k ∈ s.asked site rs, K k) :
    (s.after site rs).Mirrored site K :=
  after_induction h allowed keys fun _ _ h allowed keys => h.serve told allowed keys

end Mirrored
end Client

/-! ## A file beside a cache -/

theorem Tree.key_of_beside {t : Tree} (h : t.locate ⟨"/f"⟩ = .ok (["f"], .file [47, 102] ⟨0, 0⟩)) :
    t.key ⟨"/f"⟩ = ⟨"/f"⟩ := by
  rw [key_of_locate h, ← key_of_locate locate_housed, key_housed]

namespace Cache

variable {n n' : Nat} {c c' : Cache} {t t' : Tree} {place : Place} {p : Path}

/-- A cache beside the file, which has written so many drafts. -/
structure Beside (n : Nat) (c : Cache) (t : Tree) : Prop where
  here : c.At .hashed
  houses : t.Houses Site.hashed.directory Site.hashed.home
  made : t.find? (Site.hashed.home ++ ["entries"]) = some .directory
  file : t.locate ⟨"/f"⟩ = .ok (["f"], .file [47, 102] ⟨0, 0⟩)
  drafts : c.drafts = n

theorem toString_small {n : Nat} (small : n < 10) :
    '\x00' ∉ (toString n).toList ∧ (toString n).utf8ByteSize = 1 := by
  revert n
  decide

theorem nameable_index_hashed {name : String} (hn : Path.IsName name) (nul : '\x00' ∉ name.toList)
    (short : name.utf8ByteSize ≤ 100) : (Site.hashed.directory.join ⟨name⟩).Nameable := by
  have hpieces : (⟨"/c"⟩ : Path).pieces = ["", "c"] := by decide
  have hdir : (⟨"/c"⟩ : Path).Nameable := by
    refine ⟨⟨by decide, by decide⟩, ?_⟩
    rw [hpieces]
    decide
  have htext : (⟨"/c"⟩ : Path).text.utf8ByteSize = 2 := by decide
  refine hdir.join hn nul ?_ ?_
  · rw [Tree.nameLimit]
    omega
  · rw [htext, Tree.pathLimit]
    omega

namespace Beside

theorem housed (here : c.At .hashed) (drafts : c.drafts = n) : Beside n c .housed :=
  ⟨here, Tree.houses_housed, rfl, Tree.locate_housed, drafts⟩

theorem touches (h : Beside n c t) (touched : Site.hashed.Touches place t t')
    (setup : SameSetup c c') (drafts : c'.drafts = n') : Beside n' c' t' where
  here := h.here.same setup
  houses := touched.houses
  made := touched.rewrites.entries.trans h.made
  file := touched.locate h.houses h.file (by decide)
  drafts := drafts

theorem clean (h : Beside n c t) : Beside n { c with dirty := false } t :=
  ⟨h.here.same ⟨rfl, rfl, rfl, rfl⟩, h.houses, h.made, h.file, h.drafts⟩

/-- A path that leads to the file. -/
theorem stamped (h : Beside n c t) (hp : t.key p = ⟨"/f"⟩) :
    ∃ stamp, c.stamp? t p = some stamp ∧ stamp.path = ⟨"/f"⟩ ∧
      stamp.size = ([47, 102] : List UInt8).length ∧ stamp.changed? = some ⟨0, 0⟩ ∧
      stamp.digest = Digest.Blake3.hexHash [47, 102] := by
  unfold stamp?
  rw [hp, h.file, h.here.fingerprint]
  exact ⟨_, rfl, rfl, rfl, rfl, rfl⟩

/-- A result is stored. -/
theorem store (h : Beside n c t) (small : n < 10) {stamp : FileStamp}
    (hs : c.stamp? t p = some stamp) (m : Module) :
    ∃ t', c.store t p m [] 0 =
        (({ c with drafts := c.drafts + 1 } : Cache).hold (c.entryFor t stamp m [] 0), t',
          .ok (c.entryFor t stamp m [] 0).stamp) ∧
      Beside (n + 1) (({ c with drafts := c.drafts + 1 } : Cache).hold (c.entryFor t stamp m [] 0))
        t' := by
  obtain ⟨hnul, hsize⟩ := toString_small small
  have houses : t.Houses c.directory Site.hashed.home := by
    rw [h.here.directory]
    exact h.houses
  have hplain : PlainNames c.fingerprint := by
    rw [h.here.fingerprint]
    exact plainNames_hexHash
  have hfile : (c.payloadPath t p).Nameable := by
    rw [h.here.payloadPath]
    exact Path.nameable_hashed _ (Site.hashed.isName_stem _) (by decide) (by decide)
  have hdraft : ((c.directory.join ⟨"entries"⟩).join
      ⟨draftName (stemOf c.fingerprint (t.key p)) c.drafts⟩).Nameable := by
    rw [h.here.directory, h.here.fingerprint, h.drafts]
    refine Path.nameable_hashed _ (isName_draftName (Site.hashed.plain_stem _).2 n) ?_ ?_
    · rw [String.toList_append, List.mem_append, not_or]
      exact ⟨by decide, hnul⟩
    · rw [String.utf8ByteSize_append, hsize]
      decide
  obtain ⟨t', hs'⟩ := c.store_ok houses h.made hplain hfile hdraft hs m [] 0
  obtain ⟨-, -, -, -, touched, -⟩ := h.here.store_ok h.houses hs'
  exact ⟨t', hs', h.touches touched ⟨rfl, rfl, rfl, rfl⟩ (congrArg (· + 1) h.drafts)⟩

theorem invalidate (h : Beside n c t) (p : Path) :
    Beside n (c.invalidate t p).1 (c.invalidate t p).2.1 :=
  h.touches (h.here.invalidate h.houses p) ⟨rfl, rfl, rfl, rfl⟩ h.drafts

/-- The index file is replaced. -/
theorem writeIndex (h : Beside n c t) (small : n < 10) (bytes : List UInt8) :
    ∃ t' changed, c.writeFile t c.indexPath bytes =
        ({ c with drafts := c.drafts + 1 }, t', .ok ()) ∧
      Beside (n + 1) { c with drafts := c.drafts + 1 } t' ∧
      t'.find? Site.hashed.indexPlace = some (.file bytes changed) := by
  obtain ⟨hnul, hsize⟩ := toString_small small
  have hfile : (Site.hashed.directory.join ⟨fileName "index"⟩).Nameable :=
    nameable_index_hashed (by decide) (by decide) (by decide)
  have hdraft : (Site.hashed.directory.join ⟨draftName "index" c.drafts⟩).Nameable := by
    rw [h.drafts]
    refine nameable_index_hashed (isName_draftName (by decide) n) ?_ ?_
    · unfold draftName
      simp only [String.toList_append, List.mem_append, not_or]
      exact ⟨⟨by decide, by decide⟩, by decide, hnul⟩
    · have hsizes : ("index" : String).utf8ByteSize = 5 ∧ (".": String).utf8ByteSize = 1 ∧
          ("tmp." : String).utf8ByteSize = 4 := by decide
      unfold draftName
      simp only [String.utf8ByteSize_append]
      omega
  have hok := c.writeFile_ok h.houses h.made .top (by decide) (by decide) hfile hdraft bytes
  rcases hw : c.writeFile t c.indexPath bytes with ⟨c', t', r⟩
  obtain ⟨rfl, writes⟩ := h.here.writeIndex h.houses hw
  rw [← h.here.indexPath, hw] at hok
  obtain rfl : r = .ok () := hok
  cases writes with
  | written touched _ file =>
    exact ⟨t', _, rfl, h.touches touched ⟨rfl, rfl, rfl, rfl⟩ (congrArg (· + 1) h.drafts), file⟩

end Beside

/-- A cache with whatever memory is opened beside the file. -/
theorem opened_beside (settingsDigest : String) (capacity : Nat) :
    ∃ c, openIn .beside Site.hashed.directory settingsDigest capacity Site.hashed.formatVersion
        Site.hashed.fingerprint = (.housed, .ok c) ∧ c.drafts = 0 := by
  unfold openIn entriesPath
  dsimp only
  rw [Site.entries_hashed, Tree.createDirectories_beside]
  exact ⟨_, rfl, rfl⟩

/-- The module of a file without statements. -/
def bareModule : Module := ⟨⟨"/f"⟩, "f", [], [], [], [], 0, 1⟩

theorem stamp?_housed (h : c.At .hashed) :
    c.stamp? .housed ⟨"/f"⟩ =
      some ⟨⟨"/f"⟩, Digest.Blake3.hexHash [47, 102], 2, some ⟨0, 0⟩, ⟨0, 0⟩, 0, 0⟩ := by
  unfold stamp?
  rw [Tree.key_housed, Tree.locate_housed, h.fingerprint]
  rfl

theorem store_housed (h : c.At .hashed) (drafts : c.drafts = 0) :
    ∃ c' t' stamp, c.store .housed ⟨"/f"⟩ bareModule [] 0 = (c', t', .ok stamp) ∧ c'.drafts = 1 := by
  obtain ⟨t', hs, h'⟩ :=
    (Beside.housed h drafts).store (by decide) (stamp?_housed h) bareModule
  exact ⟨_, t', _, hs, h'.drafts⟩

theorem holdable_housed (h : c.At .hashed) :
    c.Holdable .housed (.storing ⟨"/f"⟩ bareModule [] 0) := by
  intro stamp hs
  obtain rfl := Option.some.inj ((stamp?_housed h).symm.trans hs)
  have dated : (⟨0, 0⟩ : Instant).Dated := ⟨by decide, by decide⟩
  have fits : 2 < Json.wordLimit := by decide
  have none : 0 < Json.wordLimit := by decide
  refine ⟨⟨fits, ?_, dated, none, none⟩, ⟨nofun, nofun, nofun, nofun, none, Nat.one_lt_two.trans fits⟩,
    nofun, ⟨dated, ?_⟩⟩
  · rintro t ⟨⟩
    exact dated
  · show c.formatVersion < 2 ^ 32
    rw [h.formatVersion]
    decide

theorem outside_housed {place : Place} {node : Node}
    (hl : Tree.housed.locate (Tree.housed.key ⟨"/f"⟩) = .ok (place, node)) :
    ¬ Below Site.hashed.home place := by
  rw [Tree.key_housed, Tree.locate_housed] at hl
  obtain ⟨rfl, -⟩ := Prod.mk.inj (Except.ok.inj hl)
  decide

/-- Storing a result leaves the file where it stands. -/
theorem locate_store (h : c.At .hashed) {r : Except Failure FileStamp}
    (hs : c.store .housed ⟨"/f"⟩ bareModule [] 0 = (c', t', r)) :
    t'.locate ⟨"/f"⟩ = .ok (["f"], .file [47, 102] ⟨0, 0⟩) := by
  have touched : Site.hashed.Touches (Site.hashed.payloadPlace (Tree.housed.key ⟨"/f"⟩)) .housed t' := by
    cases r with
    | ok stamp =>
      obtain ⟨-, -, -, -, touched, -⟩ := h.store_ok Tree.houses_housed hs
      exact touched
    | error f => exact (h.store_error Tree.houses_housed hs).1 _
  exact touched.locate Tree.houses_housed Tree.locate_housed (by decide)

end Cache
end SourceSurvey
