import SourceSurvey.Proofs.Cache.Codec
import SourceSurvey.Proofs.PathMap
import SourceSurvey.Cache.Basic

/-!
# The index and the payloads in memory

A cache holds its index and a few payloads in memory. Every payload in memory has a record in the
index that was made for the same content (`Cache.Coherent`), and every operation keeps it so. What
is served therefore fits its record (`Cache.load_digest`), and what is served for an unchanged file
was stored for the content that the file has now (`Cache.get_digest`).
-/

namespace SourceSurvey
namespace Cache

variable {c c' : Cache} {t t' : Tree} {p : Path}

theorem triple_inj {α β γ : Type} {x : α × β × γ} {a a' : α} {b b' : β} {d d' : γ}
    (h : x = (a, b, d)) (h' : x = (a', b', d')) : a = a' ∧ b = b' ∧ d = d' := by
  subst h
  obtain ⟨ha, h'⟩ := Prod.mk.inj h'
  exact ⟨ha, Prod.mk.inj h'⟩

/-- Every payload in memory has a record in the index, for the same content. -/
def Coherent (c : Cache) : Prop :=
  ∀ r ∈ c.recent, ∃ record, c.index.get? r.1 = some record ∧
    record.stamp.digest = r.2.stamp.digest

/-- Caches that were opened in the same way. -/
structure SameSetup (c c' : Cache) : Prop where
  directory : c'.directory = c.directory
  settingsDigest : c'.settingsDigest = c.settingsDigest
  fingerprint : c'.fingerprint = c.fingerprint
  formatVersion : c'.formatVersion = c.formatVersion

namespace SameSetup

theorem refl (c : Cache) : SameSetup c c := ⟨rfl, rfl, rfl, rfl⟩

theorem trans {c'' : Cache} (h : SameSetup c c') (h' : SameSetup c' c'') : SameSetup c c'' where
  directory := h'.directory.trans h.directory
  settingsDigest := h'.settingsDigest.trans h.settingsDigest
  fingerprint := h'.fingerprint.trans h.fingerprint
  formatVersion := h'.formatVersion.trans h.formatVersion

end SameSetup

/-! ## Payloads in memory -/

theorem mem_use {capacity : Nat} {key : Path} {e : CacheEntry} {recent : List (Path × CacheEntry)}
    {r : Path × CacheEntry} (h : r ∈ use capacity key e recent) :
    r = (key, e) ∨ r ∈ recent ∧ key.same r.1 = false := by
  rcases List.mem_cons.mp (List.mem_of_mem_take h) with rfl | h
  · exact .inl rfl
  · obtain ⟨hr, hs⟩ := List.mem_filter.mp h
    exact .inr ⟨hr, by simpa using hs⟩

theorem coherent_of_recent_nil (h : c.recent = []) : c.Coherent := by
  intro r hr
  rw [h] at hr
  exact nomatch hr

/-- Using a payload that fits its record leaves the payloads in memory fit theirs. -/
theorem Coherent.use (h : c.Coherent) {key : Path} {e : CacheEntry} {record : IndexRecord}
    (hi : c.index.get? key = some record) (hd : record.stamp.digest = e.stamp.digest) :
    ({ c with recent := use c.capacity key e c.recent } : Cache).Coherent := by
  intro r hr
  rcases mem_use hr with rfl | ⟨hr, -⟩
  · exact ⟨record, hi, hd⟩
  · exact h r hr

/-! ## Operations -/

/-- A cache that has been opened holds no payload in memory. -/
theorem openIn_ok {directory : Path} {settingsDigest : String} {capacity version : Nat}
    {fingerprint : List UInt8 → String}
    (h : Cache.openIn t directory settingsDigest capacity version fingerprint = (t', .ok c)) :
    c.recent = [] ∧ c.directory = directory ∧ c.settingsDigest = settingsDigest ∧
      c.fingerprint = fingerprint ∧ c.formatVersion = version := by
  unfold Cache.openIn at h
  dsimp only at h
  split at h
  · exact nomatch h
  · obtain rfl := Except.ok.inj (Prod.mk.inj h).2
    exact ⟨rfl, rfl, rfl, rfl, rfl⟩

theorem writeFile_fst (c : Cache) (t : Tree) (p : Path) (bytes : List UInt8) :
    (c.writeFile t p bytes).1 = { c with drafts := c.drafts + 1 } := by
  unfold writeFile
  dsimp only
  split
  · rfl
  · split
    · rfl
    · rfl

theorem stamp?_some {stamp : FileStamp} (h : c.stamp? t p = some stamp) :
    stamp.path = t.key p ∧ ∃ place bytes changed,
      t.locate (t.key p) = .ok (place, .file bytes changed) ∧
        stamp.digest = c.fingerprint bytes ∧ stamp.size = bytes.length ∧
          stamp.changed? = some changed := by
  unfold stamp? at h
  split at h
  · rename_i place bytes changed hl
    obtain rfl := Option.some.inj h
    exact ⟨rfl, place, bytes, changed, hl, rfl, rfl, rfl⟩
  · exact nomatch h

theorem stamp?_of_locate (c : Cache) {place : Place} {bytes : List UInt8} {changed : Instant}
    (hl : t.locate (t.key p) = .ok (place, .file bytes changed)) : ∃ s, c.stamp? t p = some s := by
  unfold stamp?
  rw [hl]
  exact ⟨_, rfl⟩

theorem writeFile_cases (c : Cache) (t : Tree) (p : Path) (bytes : List UInt8) :
    ∃ t' r, c.writeFile t p bytes = ({ c with drafts := c.drafts + 1 }, t', r) := by
  refine ⟨(c.writeFile t p bytes).2.1, (c.writeFile t p bytes).2.2, ?_⟩
  rw [← writeFile_fst c t p bytes]

/-- Storing a result fails because the file is not there or its payload cannot be written, or it
writes the payload and holds the entry. -/
theorem store_cases (c : Cache) (t : Tree) (p : Path) (m : Module) (edges : List Edge)
    (micros : Nat) :
    (∃ e, c.store t p m edges micros = (c, t, .error e)) ∨
      ∃ stamp t', c.stamp? t p = some stamp ∧
        ((∃ e, c.writeFile t (c.payloadPath t p) (c.entryFor t stamp m edges micros).bytes =
              ({ c with drafts := c.drafts + 1 }, t', .error e) ∧
            c.store t p m edges micros = ({ c with drafts := c.drafts + 1 }, t', .error e)) ∨
          c.writeFile t (c.payloadPath t p) (c.entryFor t stamp m edges micros).bytes =
              ({ c with drafts := c.drafts + 1 }, t', .ok ()) ∧
            c.store t p m edges micros =
              (({ c with drafts := c.drafts + 1 } : Cache).hold (c.entryFor t stamp m edges micros),
                t', .ok (c.entryFor t stamp m edges micros).stamp)) := by
  unfold store
  cases hs : c.stamp? t p with
  | none => exact .inl ⟨_, rfl⟩
  | some stamp =>
    dsimp only
    obtain ⟨t', r, hw⟩ := c.writeFile_cases t (c.payloadPath t p)
      (c.entryFor t stamp m edges micros).bytes
    refine .inr ⟨stamp, t', rfl, ?_⟩
    unfold CacheEntry.bytes at hw ⊢
    rw [hw]
    cases r with
    | error e => exact .inl ⟨e, rfl, rfl⟩
    | ok u => exact .inr ⟨rfl, rfl⟩

theorem Coherent.hold (h : c.Coherent) (e : CacheEntry) : (c.hold e).Coherent := by
  intro r hr
  rcases mem_use hr with rfl | ⟨hr, hne⟩
  · exact ⟨_, (PathMap.get?_insert ..).trans (if_pos (Path.same_refl _)), rfl⟩
  · obtain ⟨record, hi, hd⟩ := h r hr
    refine ⟨record, (PathMap.get?_insert ..).trans ?_, hd⟩
    rw [if_neg, hi]
    rw [Path.not_same_symm hne]
    exact Bool.false_ne_true

theorem Coherent.store (h : c.Coherent) {m : Module} {edges : List Edge} {micros : Nat}
    {r : Except Failure FileStamp} (hs : c.store t p m edges micros = (c', t', r)) :
    c'.Coherent := by
  rcases c.store_cases t p m edges micros with
    ⟨e, hs'⟩ | ⟨stamp, t₁, -, ⟨e, -, hs'⟩ | ⟨-, hs'⟩⟩
  · obtain ⟨rfl, -⟩ := triple_inj hs' hs
    exact h
  · obtain ⟨rfl, -⟩ := triple_inj hs' hs
    exact h
  · obtain ⟨rfl, -⟩ := triple_inj hs' hs
    exact Coherent.hold h _

/-- Writing the index changes nothing if the index has not changed. Else it writes the index file
and takes the mark of a change away, unless that fails. -/
theorem flush_cases (c : Cache) (t : Tree) :
    c.dirty = false ∧ c.flush t = (c, t, .ok ()) ∨
      ∃ t' r, c.dirty = true ∧ c.writeFile t c.indexPath
          (IndexFile.toJson { version := c.formatVersion, records := c.index.values }
            ).pretty.toUTF8.toList = ({ c with drafts := c.drafts + 1 }, t', r) ∧
        match r with
        | .error e => c.flush t = ({ c with drafts := c.drafts + 1 }, t', .error e)
        | .ok () => c.flush t = ({ c with drafts := c.drafts + 1, dirty := false }, t', .ok ()) := by
  unfold flush
  by_cases dirty : c.dirty = true
  · obtain ⟨t', r, hw⟩ := c.writeFile_cases t c.indexPath
      (IndexFile.toJson { version := c.formatVersion, records := c.index.values }
        ).pretty.toUTF8.toList
    refine .inr ⟨t', r, dirty, hw, ?_⟩
    rw [if_neg (by simp [dirty])]
    dsimp only
    rw [hw]
    cases r with
    | error e => rfl
    | ok u => rfl
  · exact .inl ⟨by simpa using dirty, if_pos (by simpa using dirty)⟩

theorem Coherent.flush (h : c.Coherent) {r : Except Failure Unit} (hf : c.flush t = (c', t', r)) :
    c'.Coherent := by
  rcases c.flush_cases t with ⟨-, hf'⟩ | ⟨t₁, e | u, -, -, hf'⟩
  · obtain ⟨rfl, -⟩ := triple_inj hf' hf
    exact h
  · obtain ⟨rfl, -⟩ := triple_inj hf' hf
    exact h
  · obtain ⟨rfl, -⟩ := triple_inj hf' hf
    exact h

theorem flush_drafts (c : Cache) (t : Tree) : (c.flush t).1.drafts ≤ c.drafts + 1 := by
  rcases c.flush_cases t with ⟨-, hf⟩ | ⟨t', e | u, -, -, hf⟩
  · rw [hf]
    exact Nat.le_succ _
  · rw [hf]
  · rw [hf]

theorem Coherent.invalidate (h : c.Coherent) (t : Tree) (p : Path) :
    (c.invalidate t p).1.Coherent := by
  intro r hr
  obtain ⟨hr, hne⟩ := List.mem_filter.mp hr
  obtain ⟨record, hi, hd⟩ := h r hr
  refine ⟨record, ?_, hd⟩
  refine (PathMap.get?_erase ..).trans ?_
  rw [if_neg (by simpa using hne), hi]

theorem Coherent.invalidateAll (h : c.Coherent) (t : Tree) (paths : List Path) :
    (c.invalidateAll t paths).1.Coherent := by
  induction paths generalizing c t with
  | nil => exact h
  | cons p rest ih => exact ih (h.invalidate t p) _

theorem Coherent.cleanup (h : c.Coherent) {days : Nat} {r : Except Failure Nat}
    (hc : c.cleanup t days = some (c', t', r)) : c'.Coherent := by
  unfold Cache.cleanup at hc
  split at hc
  · exact nomatch hc
  · have hall := h.invalidateAll t (c.staleKeys t.now (signedDays days))
    dsimp only at hc
    split at hc
    · obtain rfl := congrArg Prod.fst (Option.some.inj hc)
      exact hall
    · obtain rfl := congrArg Prod.fst (Option.some.inj hc)
      rcases hf : (c.invalidateAll t (c.staleKeys t.now (signedDays days))).1.flush
        (c.invalidateAll t (c.staleKeys t.now (signedDays days))).2 with ⟨c₁, t₁, r₁⟩
      exact hall.flush hf

theorem Coherent.clear {r : Except Failure Unit} (hc : c.clear t = (c', t', r)) :
    c'.Coherent := by
  refine coherent_of_recent_nil ?_
  obtain rfl : (c.clear t).1 = c' := congrArg Prod.fst hc
  unfold Cache.clear
  dsimp only
  split
  · rfl
  · split
    · rfl
    · split
      · rfl
      · rfl

theorem Coherent.clearMemory (c : Cache) : c.clearMemory.Coherent := coherent_of_recent_nil rfl

/-- A cache that has served a payload. -/
def serving (c : Cache) (key : Path) (e : CacheEntry) (record : IndexRecord) : Cache :=
  { c with recent := Cache.use c.capacity key e c.recent }.countHit record

/-- A payload that is found in memory stands there under a key with the components of the one that
was asked for. -/
theorem recent_of_find? {k k' : Path} {e : CacheEntry}
    (h : (c.recent.find? fun x => k.same x.1) = some (k', e)) :
    (k', e) ∈ c.recent ∧ k.same k' = true :=
  ⟨List.mem_of_find?_eq_some h, @List.find?_some _ _ (k', e) _ h⟩

/-- Looking a file up serves the payload in memory or the one that is stored; it answers nothing if
there is no record, and removes a record whose payload cannot be read. -/
theorem load_cases (c : Cache) (t : Tree) (p : Path) :
    c.load t p = (c.countMiss, t, none) ∨
      c.load t p = ((c.invalidate t p).1.countMiss, (c.invalidate t p).2.1, none) ∨
      ∃ record e, c.index.get? (t.key p) = some record ∧
        c.load t p = (c.serving (t.key p) e record, t, some e) ∧
        ((∃ k, (k, e) ∈ c.recent ∧ (t.key p).same k = true) ∨
          c.readPayload? t p record = some e) := by
  unfold load
  dsimp only
  cases hi : c.index.get? (t.key p) with
  | none => exact .inl rfl
  | some record =>
    refine .inr ?_
    dsimp only
    cases hf : c.recent.find? fun e => (t.key p).same e.1 with
    | some r =>
      exact .inr ⟨record, r.2, rfl, rfl, .inl ⟨r.1, recent_of_find? hf⟩⟩
    | none =>
      dsimp only
      cases hr : c.readPayload? t p record with
      | some e => exact .inr ⟨record, e, rfl, rfl, .inr hr⟩
      | none => exact .inl rfl

/-- A record of which the payload is neither in memory nor readable is removed when it is looked
up. -/
theorem load_of_unreadable {r : IndexRecord} (hi : c.index.get? (t.key p) = some r)
    (cold : ∀ x ∈ c.recent, (t.key p).same x.1 = false) (hr : c.readPayload? t p r = none) :
    c.load t p = ((c.invalidate t p).1.countMiss, (c.invalidate t p).2.1, none) := by
  have hfind : c.recent.find? (fun x => (t.key p).same x.1) = none := by
    rw [List.find?_eq_none]
    intro x hx
    rw [cold x hx]
    exact Bool.false_ne_true
  unfold Cache.load
  dsimp only
  rw [hi]
  dsimp only
  rw [hfind]
  dsimp only
  rw [hr]

/-- Looking a file up adds no record. -/
theorem load_index {k : Path} {record : IndexRecord}
    (h : (c.load t p).1.index.get? k = some record) : c.index.get? k = some record := by
  rcases c.load_cases t p with hl | hl | ⟨record', e, -, hl, -⟩
  · rw [hl] at h
    exact h
  · rw [hl] at h
    replace h : (c.index.erase (t.key p)).get? k = some record := h
    rw [PathMap.get?_erase] at h
    split at h
    · exact nomatch h
    · exact h
  · rw [hl] at h
    exact h

theorem load_drafts (c : Cache) (t : Tree) (p : Path) : (c.load t p).1.drafts = c.drafts := by
  rcases c.load_cases t p with hl | hl | ⟨record, e, -, hl, -⟩
  · rw [hl]
    rfl
  · rw [hl]
    rfl
  · rw [hl]
    rfl

/-- What is read from a payload file has the version of the cache and the digest of the record. -/
theorem readPayload?_eq_some {record : IndexRecord} {e : CacheEntry}
    (h : c.readPayload? t p record = some e) :
    ∃ text, t.readText (c.payloadPath t p) = .ok text ∧
      (Json.parse text).bind CacheEntry.ofJson? = some e ∧
      e.metadata.formatVersion = c.formatVersion ∧ e.stamp.digest = record.stamp.digest := by
  unfold readPayload? at h
  obtain ⟨text, htext, h⟩ := Option.bind_eq_some_iff.mp h
  obtain ⟨e', hread, h⟩ := Option.bind_eq_some_iff.mp h
  split at h
  · rename_i hfits
    obtain rfl := Option.some.inj h
    rw [Bool.and_eq_true, decide_eq_true_eq, decide_eq_true_eq] at hfits
    cases ht : t.readText (c.payloadPath t p) with
    | error e =>
      rw [ht] at htext
      exact nomatch htext
    | ok text' =>
      rw [ht] at htext
      obtain rfl := Option.some.inj htext
      exact ⟨text', rfl, hread, hfits⟩
  · exact nomatch h

theorem readPayload?_digest {record : IndexRecord} {e : CacheEntry}
    (h : c.readPayload? t p record = some e) : record.stamp.digest = e.stamp.digest := by
  obtain ⟨-, -, -, -, digest⟩ := readPayload?_eq_some h
  exact digest.symm

/-- A payload in memory or in its file fits the record of its file. -/
theorem Coherent.digest (h : c.Coherent) {record : IndexRecord} {e : CacheEntry}
    (hi : c.index.get? (t.key p) = some record)
    (he : (∃ k, (k, e) ∈ c.recent ∧ (t.key p).same k = true) ∨
      c.readPayload? t p record = some e) : record.stamp.digest = e.stamp.digest := by
  rcases he with ⟨k, hk, hs⟩ | hr
  · obtain ⟨record', hi', hd⟩ := h _ hk
    rw [← PathMap.get?_congr _ hs, hi] at hi'
    rw [Option.some.inj hi', hd]
  · exact readPayload?_digest hr

/-- What is served fits its record. -/
theorem load_digest (h : c.Coherent) {e : CacheEntry} (hl : c.load t p = (c', t', some e)) :
    ∃ record, c.index.get? (t.key p) = some record ∧ record.stamp.digest = e.stamp.digest := by
  rcases c.load_cases t p with hn | hn | ⟨record, e', hi, he, hk⟩
  · exact nomatch hn.symm.trans hl
  · exact nomatch hn.symm.trans hl
  · obtain ⟨-, hl⟩ := Prod.mk.inj (he.symm.trans hl)
    obtain rfl := Option.some.inj (Prod.mk.inj hl).2
    exact ⟨record, hi, h.digest hi hk⟩

theorem Coherent.load (h : c.Coherent) {e? : Option CacheEntry}
    (hl : c.load t p = (c', t', e?)) : c'.Coherent := by
  rcases c.load_cases t p with hl' | hl' | ⟨record, e, hi, hl', hk⟩
  · obtain ⟨rfl, -⟩ := triple_inj hl' hl
    exact h
  · obtain ⟨rfl, -⟩ := triple_inj hl' hl
    exact h.invalidate t p
  · obtain ⟨rfl, -⟩ := triple_inj hl' hl
    exact h.use hi (h.digest hi hk)

theorem Coherent.get (h : c.Coherent) {e? : Option CacheEntry}
    (hg : c.get t p = (c', t', e?)) : c'.Coherent := by
  unfold Cache.get at hg
  split at hg
  · obtain ⟨rfl, -⟩ := triple_inj rfl hg
    exact h
  · exact h.load hg

/-- A file without a record has to be parsed. -/
theorem hasChanged_of_unknown (h : c.index.get? (t.key p) = none) : c.hasChanged t p = true := by
  unfold hasChanged
  rw [h]

/-- A file that has not changed has the content for which its record was made. -/
theorem digest_of_hasChanged {record : IndexRecord} (hc : ¬ c.hasChanged t p = true)
    (hi : c.index.get? (t.key p) = some record) :
    ∃ place bytes changed, t.locate (t.key p) = .ok (place, .file bytes changed) ∧
      record.stamp.digest = c.fingerprint bytes := by
  unfold hasChanged at hc
  rw [hi] at hc
  dsimp only at hc
  unfold isCurrent at hc
  cases hl : t.locate (t.key p) with
  | error e => rw [hl] at hc; simp at hc
  | ok x =>
    obtain ⟨place, node⟩ := x
    rw [hl] at hc
    cases node with
    | directory => simp at hc
    | link target => simp at hc
    | file bytes changed =>
      refine ⟨place, bytes, changed, rfl, ?_⟩
      simp only [Bool.not_eq_true', Bool.not_eq_false, Bool.and_eq_true,
        decide_eq_true_eq] at hc
      exact hc.2.2.symm

/-- What is served for an unchanged file was stored for the content that it has now. -/
theorem get_digest (h : c.Coherent) {e : CacheEntry} (hg : c.get t p = (c', t', some e)) :
    ∃ place bytes changed, t.locate (t.key p) = .ok (place, .file bytes changed) ∧
      e.stamp.digest = c.fingerprint bytes := by
  unfold Cache.get at hg
  split at hg
  · exact nomatch hg
  · rename_i hc
    obtain ⟨record, hi, hd⟩ := load_digest h hg
    obtain ⟨place, bytes, changed, hl, hb⟩ := digest_of_hasChanged hc hi
    exact ⟨place, bytes, changed, hl, hd.symm.trans hb⟩

theorem get?_hold {e : CacheEntry} (path : e.stamp.path = t.key p) :
    (c.hold e).index.get? (t.key p) =
      some ⟨e.stamp, e.metadata.storedAt, e.metadata.settingsDigest⟩ := by
  refine (PathMap.get?_insert ..).trans (if_pos ?_)
  rw [path]
  exact Path.same_refl _

/-- A file has not changed if an entry for it has just been stored. -/
theorem hasChanged_hold {e : CacheEntry} (path : e.stamp.path = t.key p)
    (settings : e.metadata.settingsDigest = c.settingsDigest) {place : Place}
    {bytes : List UInt8} {changed : Instant}
    (hl : t.locate (t.key p) = .ok (place, .file bytes changed))
    (size : e.stamp.size = bytes.length) (time : e.stamp.changed? = some changed)
    (digest : e.stamp.digest = c.fingerprint bytes) : (c.hold e).hasChanged t p = false := by
  unfold hasChanged isCurrent
  rw [get?_hold path, hl]
  simp [hold, settings, size, time, digest]

/-- An entry that has just been stored is served while its file does not change. -/
theorem get_hold {e : CacheEntry} (room : 0 < c.capacity) (path : e.stamp.path = t.key p)
    (settings : e.metadata.settingsDigest = c.settingsDigest) {place : Place}
    {bytes : List UInt8} {changed : Instant}
    (hl : t.locate (t.key p) = .ok (place, .file bytes changed))
    (size : e.stamp.size = bytes.length) (time : e.stamp.changed? = some changed)
    (digest : e.stamp.digest = c.fingerprint bytes) :
    ∃ c', (c.hold e).get t p = (c', t, some e) := by
  have hrecent : (c.hold e).recent.find? (fun r => (t.key p).same r.1) =
      some (e.stamp.path, e) := by
    obtain ⟨n, hn⟩ := Nat.exists_eq_succ_of_ne_zero room.ne'
    unfold hold use
    dsimp only
    rw [hn, List.take_succ_cons, List.find?_cons_of_pos]
    rw [path]
    exact Path.same_refl _
  unfold Cache.get
  rw [hasChanged_hold path settings hl size time digest, if_neg Bool.false_ne_true]
  unfold load
  dsimp only
  rw [get?_hold path]
  dsimp only
  rw [hrecent]
  exact ⟨_, rfl⟩

end Cache
end SourceSurvey
