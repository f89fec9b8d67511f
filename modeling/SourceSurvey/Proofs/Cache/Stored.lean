import SourceSurvey.Proofs.Cache.Coherent
import SourceSurvey.Proofs.Cache.Home
import SourceSurvey.Proofs.Digest

/-!
# What a cache keeps

A cache keeps a predicate of keys and entries if it holds of every payload in memory and of what the
payload files hold (`Cache.Keeps`). Every operation keeps it, so it holds of everything that is
served. The keys are those of a set, and the predicate must not tell keys apart that the cache does
not tell apart (`Cache.Blind`).

* `Cache.Keeps.store`: storing a result of which the predicate holds.
* `Cache.Keeps.load`, `Cache.Keeps.get`: looking a file up serves an entry of which it holds.
* `Cache.Keeps.opened`: a cache that has just been opened keeps what the payload files hold.
-/

namespace SourceSurvey

open SourceSurvey.Tree (Houses Rewrites Within)
open SourceSurvey.Tree.Houses (Area)

/-- The digests of a fingerprint can stand in the name of a file. -/
def PlainNames (fingerprint : List UInt8 → String) : Prop :=
  ∀ bytes, fingerprint bytes ≠ "" ∧ '/' ∉ (fingerprint bytes).toList

theorem plainNames_hexHash : PlainNames Digest.Blake3.hexHash := by
  intro bytes
  constructor
  · intro h
    have hlength := Digest.Blake3.length_hexHash bytes
    rw [h] at hlength
    exact nomatch hlength
  · intro h
    exact absurd (Digest.Blake3.mem_hexHash h) (by decide)

namespace Cache

variable {fingerprint : List UInt8 → String} {home : Place} {K : Path → Prop}
  {P P' : Path → CacheEntry → Prop} {c c' : Cache} {t t' : Tree} {p : Path}

/-! ## Payload files -/

/-- The stem of the payload file of a key. -/
def stemOf (fingerprint : List UInt8 → String) (key : Path) : String :=
  fingerprint key.text.toUTF8.toList

/-- Where the payload file of a key stands. -/
def payloadPlace (fingerprint : List UInt8 → String) (home : Place) (key : Path) : Place :=
  home ++ ["entries"] ++ [fileName (stemOf fingerprint key)]

/-- Keys that a cache does not tell apart: they have the same components, or their payload files
have the same name. -/
def Twins (fingerprint : List UInt8 → String) (k k' : Path) : Prop :=
  k.same k' = true ∨ stemOf fingerprint k = stemOf fingerprint k'

/-- A cache tells the keys of a set apart. -/
def Unambiguous (fingerprint : List UInt8 → String) (K : Path → Prop) : Prop :=
  ∀ k k', K k → K k' → Twins fingerprint k k' → k = k'

/-- A predicate tells no keys of a set apart that a cache does not tell apart. -/
def Blind (fingerprint : List UInt8 → String) (K : Path → Prop) (P : Path → CacheEntry → Prop) :
    Prop :=
  ∀ k k' e, K k → K k' → Twins fingerprint k k' → P k e → P k' e

theorem Unambiguous.blind (h : Unambiguous fingerprint K) (P : Path → CacheEntry → Prop) :
    Blind fingerprint K P := by
  intro k k' e hk hk' ht hp
  rwa [← h k k' hk hk' ht]

/-- A predicate holds of what the payload files hold. -/
def Stored (fingerprint : List UInt8 → String) (K : Path → Prop)
    (P : Path → CacheEntry → Prop) (home : Place) (t : Tree) : Prop :=
  ∀ k, K k → ∀ bytes changed,
    t.find? (payloadPlace fingerprint home k) = some (.file bytes changed) →
      ∃ e : CacheEntry, bytes = e.bytes ∧ P k e

/-- A predicate that tells entries apart by their module, content and settings only. -/
def Respects (P : Path → CacheEntry → Prop) : Prop :=
  ∀ k e e', P k e → CacheEntry.Alike e e' → P k e'

/-- A cache at its home, of whose payloads in memory and in files a predicate holds. -/
structure Keeps (K : Path → Prop) (P : Path → CacheEntry → Prop) (home : Place) (c : Cache)
    (t : Tree) : Prop where
  houses : t.Houses c.directory home
  stored : Stored c.fingerprint K P home t
  recent : ∀ r ∈ c.recent, K r.1 ∧ P r.1 r.2

/-- A step of a cache that keeps its home and its setup, after which a predicate is kept. -/
structure Follows (K : Path → Prop) (P : Path → CacheEntry → Prop) (home : Place) (c : Cache)
    (t : Tree) (c' : Cache) (t' : Tree) : Prop where
  keeps : Keeps K P home c' t'
  rewrites : Rewrites home t t'
  setup : SameSetup c c'

theorem Follows.refl (h : Keeps K P home c t) : Follows K P home c t c t :=
  ⟨h, .refl t, .refl c⟩

theorem Follows.trans {c'' : Cache} {t'' : Tree} (h : Follows K P home c t c' t')
    (h' : Follows K P' home c' t' c'' t'') : Follows K P' home c t c'' t'' :=
  ⟨h'.keeps, h.rewrites.trans h'.rewrites, h.setup.trans h'.setup⟩

/-- Payload files that are among those of another tree. -/
theorem Stored.mono (h : Stored fingerprint K P home t)
    (hf : ∀ k, K k → ∀ n, t'.find? (payloadPlace fingerprint home k) = some n →
      t.find? (payloadPlace fingerprint home k) = some n) : Stored fingerprint K P home t' :=
  fun k hk bytes changed hb => h k hk bytes changed (hf k hk _ hb)

theorem payloadPath_eq (c : Cache) (t : Tree) (p : Path) :
    c.payloadPath t p =
      (c.directory.join ⟨"entries"⟩).join ⟨fileName (stemOf c.fingerprint (t.key p))⟩ := by
  have hname : fileName (stemOf c.fingerprint (t.key p)) =
      c.fingerprint (t.key p).text.toUTF8.toList ++ ".json" := by
    unfold fileName stemOf
    rw [String.append_assoc]
    rfl
  unfold payloadPath entriesPath
  rw [hname]

theorem payloadPlace_inj {k k' : Path}
    (h : payloadPlace fingerprint home k = payloadPlace fingerprint home k') :
    stemOf fingerprint k = stemOf fingerprint k' :=
  fileName_inj (List.singleton_inj.mp (List.append_cancel_left h))

theorem payloadPlace_ne_draft (k : Path) (stem : String) (n : Nat) :
    payloadPlace fingerprint home k ≠ home ++ ["entries"] ++ [draftName stem n] :=
  fun h => draftName_ne_fileName _ _ _ (List.singleton_inj.mp (List.append_cancel_left h)).symm

theorem payloadPlace_ne_top (k : Path) (name : String) :
    payloadPlace fingerprint home k ≠ home ++ [name] := by
  intro h
  have := congrArg List.length h
  simp [payloadPlace] at this

theorem payloadPlace_ne_entries (k : Path) :
    payloadPlace fingerprint home k ≠ home ++ ["entries"] :=
  payloadPlace_ne_top k _

theorem below_payloadPlace (k : Path) : Below home (payloadPlace fingerprint home k) :=
  (@Area.entries ⟨""⟩ home).below _

/-! ## Storing -/

/-- Storing a result of which the predicate holds. If the payload cannot be written, the
predicate still holds of what is stored. -/
theorem Keeps.store (h : Keeps K P home c t) (hfp : PlainNames c.fingerprint)
    (hK : Blind c.fingerprint K P') (hk : K (t.key p)) {m : Module} {edges : List Edge}
    {micros : Nat} {r : Except Failure FileStamp}
    (old : ∀ k, K k → k ≠ t.key p → ∀ e, P k e → P' k e)
    (new : ∀ stamp, c.stamp? t p = some stamp →
      P' (t.key p) (c.entryFor t stamp m edges micros))
    (hs : c.store t p m edges micros = (c', t', r)) :
    (∃ e, r = .error e) ∧ Follows K P home c t c' t' ∨
      (∃ stamp, r = .ok stamp) ∧ Follows K P' home c t c' t' := by
  rcases c.store_cases t p m edges micros with
    ⟨e, hs'⟩ | ⟨stamp, t₁, hstamp, hcases⟩
  · obtain ⟨rfl, rfl, rfl⟩ := triple_inj hs' hs
    exact .inl ⟨⟨e, rfl⟩, .refl h⟩
  · obtain ⟨t₂, r₂, hw, houses, rewrites, frame, post⟩ := writeFile_spec c h.houses .entries
      (hfp (t.key p).text.toUTF8.toList).1 (hfp (t.key p).text.toUTF8.toList).2
      (c.entryFor t stamp m edges micros).bytes
    rw [c.payloadPath_eq t p] at hcases
    rcases hcases with ⟨e, hw', hs'⟩ | ⟨hw', hs'⟩
    · obtain ⟨-, rfl, rfl⟩ := triple_inj hw hw'
      obtain ⟨rfl, rfl, rfl⟩ := triple_inj hs' hs
      refine .inl ⟨⟨e, rfl⟩, ⟨houses, h.stored.mono fun k hk n hn => ?_, h.recent⟩, rewrites,
        ⟨rfl, rfl, rfl, rfl⟩⟩
      by_cases hkey : payloadPlace c.fingerprint home k = payloadPlace c.fingerprint home (t.key p)
      · rw [hkey] at hn ⊢
        exact post.symm.trans hn
      · exact (frame _ hkey (payloadPlace_ne_draft _ _ _)).symm.trans hn
    · obtain ⟨-, rfl, rfl⟩ := triple_inj hw hw'
      obtain ⟨rfl, rfl, rfl⟩ := triple_inj hs' hs
      refine .inr ⟨⟨_, rfl⟩, ⟨houses, ?_, ?_⟩, rewrites, ⟨rfl, rfl, rfl, rfl⟩⟩
      · intro k hkk bytes changed hb
        replace hb : t₂.find? (payloadPlace c.fingerprint home k) = some (.file bytes changed) := hb
        by_cases hplace : payloadPlace c.fingerprint home k =
            payloadPlace c.fingerprint home (t.key p)
        · obtain ⟨changed', hc⟩ := post
          rw [hplace] at hb
          obtain ⟨rfl, -⟩ := Node.file.inj (Option.some.inj (hc.symm.trans hb))
          exact ⟨_, rfl, hK _ _ _ hk hkk (.inr (payloadPlace_inj hplace).symm) (new stamp hstamp)⟩
        · obtain ⟨e, he, hpe⟩ := h.stored k hkk bytes changed
            ((frame _ hplace (payloadPlace_ne_draft _ _ _)).symm.trans hb)
          exact ⟨e, he, old k hkk (fun hkey => hplace (by rw [hkey])) e hpe⟩
      · intro r hr
        have hpath : (c.entryFor t stamp m edges micros).stamp.path = t.key p :=
          (stamp?_some hstamp).1
        rcases mem_use hr with rfl | ⟨hr, hne⟩
        · rw [hpath]
          exact ⟨hk, new stamp hstamp⟩
        · obtain ⟨hkr, hpr⟩ := h.recent r hr
          refine ⟨hkr, old _ hkr ?_ _ hpr⟩
          rintro he
          rw [hpath, he, Path.same_refl] at hne
          exact nomatch hne

/-- Storing a result of a file succeeds if the system takes the path of the payload file and that of
the draft. -/
theorem store_ok (c : Cache) (houses : t.Houses c.directory home)
    (made : t.find? (home ++ ["entries"]) = some .directory) (hfp : PlainNames c.fingerprint)
    (hp : (c.payloadPath t p).Nameable)
    (hp' : ((c.directory.join ⟨"entries"⟩).join
      ⟨draftName (stemOf c.fingerprint (t.key p)) c.drafts⟩).Nameable)
    {stamp : FileStamp} (hs : c.stamp? t p = some stamp) (m : Module) (edges : List Edge)
    (micros : Nat) :
    ∃ t', c.store t p m edges micros =
      (({ c with drafts := c.drafts + 1 } : Cache).hold (c.entryFor t stamp m edges micros), t',
        .ok (c.entryFor t stamp m edges micros).stamp) := by
  obtain ⟨hstem, hslash⟩ : stemOf c.fingerprint (t.key p) ≠ "" ∧
      '/' ∉ (stemOf c.fingerprint (t.key p)).toList := hfp _
  have hok : (c.writeFile t (c.payloadPath t p)
      (c.entryFor t stamp m edges micros).bytes).2.2 = .ok () := by
    rw [c.payloadPath_eq t p] at hp ⊢
    exact c.writeFile_ok houses made .entries hstem hslash hp hp' _
  obtain ⟨t', r, hw⟩ := c.writeFile_cases t (c.payloadPath t p)
    (c.entryFor t stamp m edges micros).bytes
  rw [hw] at hok
  obtain rfl : r = .ok () := hok
  unfold CacheEntry.bytes at hw
  refine ⟨t', ?_⟩
  unfold Cache.store
  rw [hs]
  dsimp only
  rw [hw]

/-- Writing the index succeeds if the system takes its path and that of the draft. -/
theorem flush_ok (c : Cache) (h : t.Houses c.directory home)
    (made : t.find? (home ++ ["entries"]) = some .directory) (hp : c.indexPath.Nameable)
    (hp' : (c.directory.join ⟨draftName "index" c.drafts⟩).Nameable) :
    (c.flush t).2.2 = .ok () := by
  have hstem : "index" ≠ "" := by decide
  have hpath : c.indexPath = c.directory.join ⟨fileName "index"⟩ := rfl
  have hok (bytes : List UInt8) : (c.writeFile t c.indexPath bytes).2.2 = .ok () := by
    rw [hpath] at hp ⊢
    exact c.writeFile_ok h made .top hstem (by decide) hp hp' bytes
  rcases c.flush_cases t with ⟨-, hf⟩ | ⟨t', e | u, -, hw, hf⟩
  · rw [hf]
  · exact nomatch (congrArg (·.2.2) hw).symm.trans (hok _)
  · rw [hf]

/-- Writing the index keeps what is stored. -/
theorem Keeps.flush (h : Keeps K P home c t) {r : Except Failure Unit}
    (hf : c.flush t = (c', t', r)) : Follows K P home c t c' t' := by
  rcases c.flush_cases t with ⟨-, hf'⟩ | ⟨t₁, r₁, -, hw, hf'⟩
  · obtain ⟨rfl, rfl, rfl⟩ := triple_inj hf' hf
    exact .refl h
  · have hstem : "index" ≠ "" := by decide
    obtain ⟨t₂, r₂, hw', houses, rewrites, frame, -⟩ := writeFile_spec c h.houses .top
      hstem (by decide) _
    obtain ⟨-, rfl, -⟩ := triple_inj hw' hw
    have hstored : Stored c.fingerprint K P home t₂ := by
      refine h.stored.mono fun k _ n hn => ?_
      rw [← frame _ (payloadPlace_ne_top _ _) (payloadPlace_ne_top _ _)]
      exact hn
    cases r₁ with
    | error e =>
      obtain ⟨rfl, rfl, rfl⟩ := triple_inj hf' hf
      exact ⟨⟨houses, hstored, h.recent⟩, rewrites, ⟨rfl, rfl, rfl, rfl⟩⟩
    | ok u =>
      obtain ⟨rfl, rfl, rfl⟩ := triple_inj hf' hf
      exact ⟨⟨houses, hstored, h.recent⟩, rewrites, ⟨rfl, rfl, rfl, rfl⟩⟩

/-! ## Removing -/

/-- Removing a record removes its payload file or leaves the tree as it is. -/
theorem invalidate_tree (c : Cache) (houses : t.Houses c.directory home)
    (hfp : PlainNames c.fingerprint) (p : Path) :
    (c.invalidate t p).2.1 = t ∨
      (c.invalidate t p).2.1 = t.remove (payloadPlace c.fingerprint home (t.key p)) := by
  have hslot := houses.slotAt .entries (isName_fileName (hfp (t.key p).text.toUTF8.toList).2)
    (@payloadPlace_ne_entries c.fingerprint home (t.key p))
  unfold Cache.invalidate
  dsimp only
  split
  · cases hr : t.removeFile (c.payloadPath t p) with
    | error e => exact .inl rfl
    | ok t₁ =>
      rw [payloadPath_eq] at hr
      exact .inr (hslot.removeFile hr)
  · exact .inl rfl

/-- Removing a record removes its payload file, if anything. -/
theorem Keeps.invalidate (h : Keeps K P home c t) (hfp : PlainNames c.fingerprint) (p : Path) :
    Follows K P home c t (c.invalidate t p).1 (c.invalidate t p).2.1 := by
  have hbelow : Below home (payloadPlace c.fingerprint home (t.key p)) := below_payloadPlace _
  have hrecent : ∀ r ∈ (c.invalidate t p).1.recent, K r.1 ∧ P r.1 r.2 :=
    fun r hr => h.recent r (List.mem_of_mem_filter hr)
  rcases c.invalidate_tree h.houses hfp p with ht | ht
  · rw [ht]
    exact ⟨⟨h.houses, h.stored, hrecent⟩, .refl t, ⟨rfl, rfl, rfl, rfl⟩⟩
  · rw [ht]
    refine ⟨⟨h.houses.remove hbelow, h.stored.mono fun k _ n hn => ?_, hrecent⟩,
      .remove hbelow (payloadPlace_ne_entries _), ⟨rfl, rfl, rfl, rfl⟩⟩
    rw [Tree.find?_remove t hbelow.ne_nil] at hn
    split at hn
    · exact nomatch hn
    · exact hn

theorem Keeps.invalidateAll (h : Keeps K P home c t) (hfp : PlainNames c.fingerprint)
    (paths : List Path) :
    Follows K P home c t (c.invalidateAll t paths).1 (c.invalidateAll t paths).2 := by
  induction paths generalizing c t with
  | nil => exact .refl h
  | cons p rest ih =>
    have hp := h.invalidate hfp p
    exact hp.trans (ih hp.keeps hfp)

theorem Keeps.cleanup (h : Keeps K P home c t) (hfp : PlainNames c.fingerprint) {days : Nat}
    {r : Except Failure Nat} (hc : c.cleanup t days = some (c', t', r)) :
    Follows K P home c t c' t' := by
  unfold Cache.cleanup at hc
  split at hc
  · exact nomatch hc
  · have hall := h.invalidateAll hfp (c.staleKeys t.now (signedDays days))
    dsimp only at hc
    split at hc
    · obtain ⟨rfl, rfl, rfl⟩ := triple_inj rfl (Option.some.inj hc)
      exact hall
    · obtain ⟨rfl, rfl, rfl⟩ := triple_inj rfl (Option.some.inj hc)
      exact hall.trans (hall.keeps.flush rfl)

theorem Keeps.clearMemory (h : Keeps K P home c t) : Keeps K P home c.clearMemory t :=
  ⟨h.houses, h.stored, nofun⟩

/-! ## Looking up -/

/-- Looking several files up adds entries for some of them. -/
theorem collect_keys {lookup : Cache → Tree → Path → Cache × Tree × Option CacheEntry}
    {paths : List Path} {found loaded : PathMap CacheEntry} (sorted : found.Sorted)
    (hl : collect lookup c t found paths = (c', t', loaded)) :
    loaded.Sorted ∧ ∀ q ∈ loaded.keys, q ∈ found.keys ∨ q ∈ paths := by
  induction paths generalizing c t found with
  | nil =>
    obtain ⟨-, -, rfl⟩ := triple_inj rfl hl
    exact ⟨sorted, fun _ => .inl⟩
  | cons p rest ih =>
    unfold collect at hl
    rcases hlookup : lookup c t p with ⟨c₁, t₁, e?⟩
    rw [hlookup] at hl
    cases e? with
    | none =>
      obtain ⟨sorted', among⟩ := ih sorted hl
      exact ⟨sorted', fun q hq => (among q hq).imp_right (List.mem_cons_of_mem _)⟩
    | some e =>
      obtain ⟨sorted', among⟩ := ih (sorted.insert p e) hl
      refine ⟨sorted', fun q hq => ?_⟩
      rcases among q hq with hq | hq
      · rcases PathMap.mem_keys_insert hq with rfl | hq
        · exact .inr List.mem_cons_self
        · exact .inl hq
      · exact .inr (List.mem_cons_of_mem _ hq)

/-- What is read from a payload file is alike an entry that is stored there. -/
theorem Keeps.readPayload (h : Keeps K P home c t) (hfp : PlainNames c.fingerprint)
    (hP : Respects P) (hk : K (t.key p)) {record : IndexRecord} {e : CacheEntry}
    (hr : c.readPayload? t p record = some e) : P (t.key p) e := by
  obtain ⟨text, htext, hread, -⟩ := readPayload?_eq_some hr
  have hslot := h.houses.slotAt .entries
    (isName_fileName (hfp (t.key p).text.toUTF8.toList).2) (payloadPlace_ne_entries _)
  rw [payloadPath_eq] at htext
  obtain ⟨bytes, changed, hf, hd⟩ := hslot.readText htext
  obtain ⟨e₀, rfl, hp₀⟩ := h.stored _ hk bytes changed hf
  exact hP _ _ _ hp₀ (e₀.read_bytes hd hread)

/-- Looking a file up serves an entry of which the predicate holds. -/
theorem Keeps.load (h : Keeps K P home c t) (hfp : PlainNames c.fingerprint)
    (hK : Blind c.fingerprint K P) (hP : Respects P) (hk : K (t.key p))
    {e? : Option CacheEntry} (hl : c.load t p = (c', t', e?)) :
    Follows K P home c t c' t' ∧ ∀ e, e? = some e → P (t.key p) e := by
  rcases c.load_cases t p with hl' | hl' | ⟨record, e, -, hl', hserved⟩
  · obtain ⟨rfl, rfl, rfl⟩ := triple_inj hl' hl
    exact ⟨⟨⟨h.houses, h.stored, h.recent⟩, .refl t, ⟨rfl, rfl, rfl, rfl⟩⟩, nofun⟩
  · obtain ⟨rfl, rfl, rfl⟩ := triple_inj hl' hl
    obtain ⟨⟨houses, stored, recent⟩, rewrites, -⟩ := h.invalidate hfp p
    exact ⟨⟨⟨houses, stored, recent⟩, rewrites, ⟨rfl, rfl, rfl, rfl⟩⟩, nofun⟩
  · have hpe : P (t.key p) e := by
      rcases hserved with ⟨k, hmem, hsame⟩ | hr
      · obtain ⟨hkk, hpe⟩ := h.recent _ hmem
        exact hK _ _ _ hkk hk (.inl (Path.same_symm hsame)) hpe
      · exact h.readPayload hfp hP hk hr
    obtain ⟨rfl, rfl, rfl⟩ := triple_inj hl' hl
    refine ⟨⟨⟨h.houses, h.stored, fun r hr => ?_⟩, .refl t, ⟨rfl, rfl, rfl, rfl⟩⟩, ?_⟩
    · rcases mem_use hr with rfl | ⟨hr, -⟩
      · exact ⟨hk, hpe⟩
      · exact h.recent r hr
    · intro e' he
      rwa [← Option.some.inj he]

theorem Keeps.get (h : Keeps K P home c t) (hfp : PlainNames c.fingerprint)
    (hK : Blind c.fingerprint K P) (hP : Respects P) (hk : K (t.key p))
    {e? : Option CacheEntry} (hg : c.get t p = (c', t', e?)) :
    Follows K P home c t c' t' ∧ ∀ e, e? = some e → P (t.key p) e := by
  unfold Cache.get at hg
  split at hg
  · obtain ⟨rfl, rfl, rfl⟩ := triple_inj rfl hg
    exact ⟨⟨⟨h.houses, h.stored, h.recent⟩, .refl t, ⟨rfl, rfl, rfl, rfl⟩⟩, nofun⟩
  · exact h.load hfp hK hP hk hg

/-! ## Opening and clearing -/

/-- Opening a cache leaves what the payload files hold. -/
theorem Stored.openIn {directory : Path} (houses : t.Houses directory home)
    (stored : Stored fingerprint K P home t) {settingsDigest : String} {capacity version : Nat}
    {r : Except Failure Cache}
    (ho : Cache.openIn t directory settingsDigest capacity version fingerprint = (t', r)) :
    t'.Houses directory home ∧ Stored fingerprint K P home t' ∧ Within home t t' := by
  have htree : (t.createDirectories (directory.join ⟨"entries"⟩)).1 = t' := by
    unfold Cache.openIn at ho
    dsimp only at ho
    split at ho
    · rename_i t₁ e hc
      exact (congrArg Prod.fst hc).trans (Prod.mk.inj ho).1
    · rename_i t₁ hc
      exact (congrArg Prod.fst hc).trans (Prod.mk.inj ho).1
  cases hc : t.createDirectories (directory.join ⟨"entries"⟩) with
  | mk t₁ made =>
    rw [hc] at htree
    obtain rfl : t₁ = t' := htree
    obtain ⟨houses₁, within, frame⟩ := houses.createDirectories hc
    refine ⟨houses₁, stored.mono fun k _ n hn => ?_, within⟩
    rw [← frame _ (payloadPlace_ne_entries _)]
    exact hn

/-- A cache that has just been opened keeps what the payload files hold. -/
theorem Keeps.opened {directory : Path} (houses : t.Houses directory home)
    (stored : Stored fingerprint K P home t) (hd : c.directory = directory)
    (hf : c.fingerprint = fingerprint) (hr : c.recent = []) : Keeps K P home c t := by
  subst hd hf
  refine ⟨houses, stored, ?_⟩
  rw [hr]
  exact nofun

/-- A tree in which a home still stands, with some of the payload files that another tree has
there. -/
structure Kept (fingerprint : List UInt8 → String) (K : Path → Prop)
    (P : Path → CacheEntry → Prop) (directory : Path) (home : Place) (t t' : Tree) : Prop where
  houses : t'.Houses directory home
  stored : Stored fingerprint K P home t'
  within : Within home t t'

theorem Kept.removeEntries {directory : Path} {t₀ : Tree}
    (h : Kept fingerprint K P directory home t₀ t)
    (hr : t.removeDirectory (directory.join ⟨"entries"⟩) = .ok t') :
    Kept fingerprint K P directory home t₀ t' := by
  have hbelow : Below home (home ++ ["entries"]) := below_append nofun
  obtain rfl := h.houses.slotAt_entries.removeDirectory hr
  refine ⟨h.houses.removeBelow, h.stored.mono fun k _ n hn => ?_,
    h.within.trans (.removeBelow hbelow)⟩
  rw [Tree.find?_removeBelow t hbelow.ne_nil] at hn
  split at hn
  · exact nomatch hn
  · exact hn

theorem Kept.createEntries {directory : Path} {t₀ : Tree}
    (h : Kept fingerprint K P directory home t₀ t) {r : Except IoFailure Unit}
    (hc : t.createDirectories (directory.join ⟨"entries"⟩) = (t', r)) :
    Kept fingerprint K P directory home t₀ t' := by
  obtain ⟨houses, within, frame⟩ := h.houses.createDirectories hc
  refine ⟨houses, h.stored.mono fun k _ n hn => ?_, h.within.trans within⟩
  rw [← frame _ (payloadPlace_ne_entries _)]
  exact hn

theorem Kept.removeIndex {directory : Path} {t₀ : Tree}
    (h : Kept fingerprint K P directory home t₀ t)
    (hr : t.removeFile (directory.join ⟨"index.json"⟩) = .ok t') :
    Kept fingerprint K P directory home t₀ t' := by
  have hname : Path.IsName "index.json" := by decide
  have hbelow : Below home (home ++ ["index.json"]) := below_append nofun
  have hne : home ++ ["index.json"] ≠ home ++ ["entries"] :=
    area_ne_entries (@Area.top directory home) (by decide)
  obtain rfl := (h.houses.slotAt .top hname hne).removeFile hr
  refine ⟨h.houses.remove hbelow, h.stored.mono fun k _ n hn => ?_,
    h.within.trans (.remove hbelow)⟩
  rw [Tree.find?_remove t hbelow.ne_nil] at hn
  split at hn
  · exact nomatch hn
  · exact hn

/-- Removing everything that is stored keeps the home. -/
theorem Keeps.clear (h : Keeps K P home c t) {r : Except Failure Unit}
    (hc : c.clear t = (c', t', r)) :
    Keeps K P home c' t' ∧ Within home t t' ∧ SameSetup c c' := by
  have start : Kept c.fingerprint K P c.directory home t t := ⟨h.houses, h.stored, .refl t⟩
  have finish {c₁ : Cache} (kept : Kept c.fingerprint K P c.directory home t t')
      (setup : SameSetup c c₁) (hrecent : c₁.recent = []) :
      Keeps K P home c₁ t' ∧ Within home t t' ∧ SameSetup c c₁ := by
    refine ⟨⟨?_, ?_, ?_⟩, kept.within, setup⟩
    · rw [setup.directory]
      exact kept.houses
    · rw [setup.fingerprint]
      exact kept.stored
    · rw [hrecent]
      exact nofun
  unfold Cache.clear at hc
  dsimp only at hc
  split at hc
  · obtain ⟨rfl, rfl, rfl⟩ := triple_inj rfl hc
    exact finish start ⟨rfl, rfl, rfl, rfl⟩ rfl
  · rename_i t₁ h₁
    have kept₁ : Kept c.fingerprint K P c.directory home t t₁ := by
      split at h₁
      · exact start.removeEntries h₁
      · obtain rfl := Except.ok.inj h₁
        exact start
    split at hc
    · rename_i t₂ e h₂
      obtain ⟨rfl, rfl, rfl⟩ := triple_inj rfl hc
      exact finish (kept₁.createEntries h₂) ⟨rfl, rfl, rfl, rfl⟩ rfl
    · rename_i t₂ h₂
      have kept₂ := kept₁.createEntries h₂
      split at hc
      · obtain ⟨rfl, rfl, rfl⟩ := triple_inj rfl hc
        exact finish kept₂ ⟨rfl, rfl, rfl, rfl⟩ rfl
      · rename_i t₃ h₃
        have kept₃ : Kept c.fingerprint K P c.directory home t t₃ := by
          split at h₃
          · exact kept₂.removeIndex h₃
          · obtain rfl := Except.ok.inj h₃
            exact kept₂
        obtain ⟨rfl, rfl, rfl⟩ := triple_inj rfl hc
        exact finish kept₃ ⟨rfl, rfl, rfl, rfl⟩ rfl

end Cache
end SourceSurvey
