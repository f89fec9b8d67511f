import SourceSurvey.Proofs.Cache.Removal
import SourceSurvey.Proofs.Cache.Spelling

/-!
# Removing the result of a path

A result is stored under the key of its path, and removed under the key that the path has when the
removal is asked for. Both are the canonical path of the file while the file is there. When the file
has been deleted the key of the path is its absolute spelling, with every step up and every link that
it goes through, and the result stays unless the path was spelled without them.

* `Cache.Reaches`: what removing the record of a path does to the result of a key.
* `Cache.invalidate_stored`: what it does to the result that was stored for the path.
-/

namespace SourceSurvey
namespace Cache

variable {site : Site} {c c' : Cache} {t t' : Tree} {p k : Path} {m : Module} {edges : List Edge}
  {micros : Nat} {stamp : FileStamp}

/-- What removing the record of a path does to the result that was stored for a key, when the path
may have another key by now: the record and the payload in memory go iff both keys have the same
components, the payload file goes iff it is that of both keys. -/
structure Reaches (site : Site) (c : Cache) (t : Tree) (p k : Path) : Prop where
  removed : (t.key p).same k = true → (c.invalidate t p).2.2 = true
  unknown : ¬ (c.invalidate t p).1.Knows k ↔ (t.key p).same k = true
  payload : (c.invalidate t p).2.1.find? (site.payloadPlace k) =
    if site.payloadPlace (t.key p) = site.payloadPlace k then none else t.find? (site.payloadPlace k)

theorem At.reaches (h : c.At site) (houses : t.Houses site.directory site.home)
    (made : t.find? (site.home ++ ["entries"]) = some .directory)
    (nameable : (site.payloadPath k).Nameable) (known : c.index.contains k = true) (p : Path) :
    c.Reaches site t p k where
  removed hs := by
    show c.index.contains (t.key p) = true
    rw [PathMap.contains_eq_isSome, PathMap.get?_congr _ hs, ← PathMap.contains_eq_isSome, known]
  unknown := by
    constructor
    · intro hu
      by_contra hne
      exact hu (knows_invalidate (.inl known) t (Bool.eq_false_iff.mpr hne))
    · exact not_knows_invalidate c t
  payload := by
    split
    · rename_i hplace
      have hstem := payloadPlace_inj hplace
      rw [← hplace]
      refine h.payload_invalidate houses made ?_
      unfold Site.payloadPath at nameable ⊢
      rw [hstem]
      exact nameable
    · rename_i hplace
      exact h.payload_invalidate_of_ne houses (Ne.symm hplace)

theorem At.hold (h : c.At site) (drafts : Nat) (e : CacheEntry) :
    (({ c with drafts } : Cache).hold e).At site :=
  ⟨h.directory, h.fingerprint, h.formatVersion⟩

/-- A cache that holds a result has a record of its key. -/
theorem contains_hold {s : FileStamp} (h : c.stamp? t p = some s) :
    (({ c with drafts := c.drafts + 1 } : Cache).hold
      (c.entryFor t s m edges micros)).index.contains (t.key p) = true := by
  refine PathMap.contains_insert.mpr (.inl ?_)
  show (t.key p).same s.path = true
  rw [(stamp?_some h).1]
  exact Path.same_refl _

/-- A path under which a result can be stored is not empty. -/
theorem text_ne_empty_of_stamp? {s : FileStamp} (h : c.stamp? t p = some s) : p.text ≠ "" := by
  intro he
  have hkey : t.key p = p := by
    unfold Tree.key Tree.canonical
    cases hl : t.locate p with
    | ok x => exact absurd he (Tree.text_ne_empty_of_locate hl)
    | error e => exact if_pos he
  obtain ⟨-, place, bytes, changed, hl, -⟩ := stamp?_some h
  rw [hkey] at hl
  exact Tree.text_ne_empty_of_locate hl he

section stored

variable (here : c.At site) (houses : t.Houses site.directory site.home)
  (apart : site.Apart (site.payloadPlace (t.key p)) t p)
  (stored : c.store t p m edges micros = (c', t', .ok stamp))
include here houses apart stored

/-- A result that was stored for a path is removed with the record of the path. -/
theorem forgotten_of_stored :
    (c'.invalidate t' p).2.2 = true ∧
      (c'.invalidate t' p).1.Forgotten site (c'.invalidate t' p).2.1 (t.key p) := by
  obtain ⟨s, hstamp, -, rfl, touched, nameable, made, -⟩ := here.store_writes houses stored
  have hkey := apart.key touched houses
  refine ⟨?_, (here.hold _ _).forgotten_invalidate touched.houses made nameable hkey⟩
  show PathMap.contains _ (t'.key p) = true
  rw [hkey]
  exact contains_hold hstamp

/-- A path for which a result was stored leads nowhere once its file is gone. -/
theorem missing_of_stored {t'' : Tree} (ways : t'.SameWays t'') {x : Place} {bytes : List UInt8}
    {changed : Instant} (hl : t.locate p = .ok (x, .file bytes changed))
    (lost : t''.find? x = none) : t''.exists? p = false := by
  obtain ⟨-, -, -, -, touched, -⟩ := here.store_writes houses stored
  exact ways.exists?_of_lost ((apart.locate_iff touched houses).mpr hl) lost

omit apart in
/-- The key of a path that leads nowhere is its spelling, whatever was stored for it. -/
theorem reaches_of_stored {t'' : Tree} (ways : t'.SameWays t'') (missing : t''.exists? p = false) :
    t''.key p = t.spell p ∧ c'.Reaches site t'' p (t.key p) := by
  obtain ⟨s, hstamp, -, rfl, touched, nameable, made, -⟩ := here.store_writes houses stored
  have hspell : t''.spell p = t.spell p := by
    unfold Tree.spell
    rw [ways.current, touched.rewrites.current]
  constructor
  · rw [Tree.key_of_missing (text_ne_empty_of_stamp? hstamp) missing, hspell]
  · exact (here.hold _ _).reaches (touched.houses.sameWays made ways) (ways.made made) nameable
      (contains_hold hstamp) p

end stored

/-- Removing the record of a path for which a result was stored removes this result. Once the path
leads nowhere, as when its file was deleted, its key is its absolute spelling: then the record of the
result is removed if and only if the path was spelled like the canonical path of the file. -/
theorem invalidate_stored (site : Site) (c c' : Cache) (t t' : Tree) (p : Path) (m : Module)
    (edges : List Edge) (micros : Nat) (stamp : FileStamp) (here : c.At site)
    (houses : t.Houses site.directory site.home)
    (apart : site.Apart (site.payloadPlace (t.key p)) t p)
    (stored : c.store t p m edges micros = (c', t', .ok stamp)) :
    ((c'.invalidate t' p).2.2 = true ∧
        (c'.invalidate t' p).1.Forgotten site (c'.invalidate t' p).2.1 (t.key p)) ∧
      ∀ t'', t'.SameWays t'' →
        (∀ x bytes changed, t.locate p = .ok (x, .file bytes changed) → t''.find? x = none →
          t''.exists? p = false) ∧
        (t''.exists? p = false → t''.key p = t.spell p ∧ c'.Reaches site t'' p (t.key p)) :=
  ⟨forgotten_of_stored here houses apart stored, fun _ ways =>
    ⟨fun _ _ _ hl lost => missing_of_stored here houses apart stored ways hl lost,
      fun missing => reaches_of_stored here houses stored ways missing⟩⟩

theorem apart_up :
    Site.hashed.Apart (Site.hashed.payloadPlace (Tree.housed.key ⟨"/c/../f"⟩)) .housed
      ⟨"/c/../f"⟩ :=
  Site.apart_of_outside Tree.houses_housed (below_payloadPlace _) Tree.locate_housed_up (by decide)

/-- The result is stored under a path that leads through the directory of the cache, removed at once
in one course of events, and removed after the file was deleted in another one. -/
theorem invalidate_stored_up :
    ∃ (c c' : Cache) (t' : Tree) (stamp : FileStamp), c.At .hashed ∧
      c.store .housed ⟨"/c/../f"⟩ bareModule [] 0 = (c', t', .ok stamp) ∧
      (c'.invalidate t' ⟨"/c/../f"⟩).2.2 = true ∧
      (c'.invalidate t' ⟨"/c/../f"⟩).1.Forgotten .hashed (c'.invalidate t' ⟨"/c/../f"⟩).2.1 ⟨"/f"⟩ ∧
      (t'.remove ["f"]).key ⟨"/c/../f"⟩ = ⟨"/c/../f"⟩ ∧
      c'.Reaches .hashed (t'.remove ["f"]) ⟨"/c/../f"⟩ ⟨"/f"⟩ := by
  have h : (first .hashed "A").Beside 0 .housed := .housed ⟨rfl, rfl, rfl⟩ rfl
  obtain ⟨stamp, hstamp, -⟩ := h.stamped Tree.key_housed_up
  obtain ⟨t', stored, h'⟩ := h.store (by decide) hstamp bareModule
  have hresult := invalidate_stored .hashed _ _ .housed t' ⟨"/c/../f"⟩ bareModule [] 0 _ h.here h.houses
    apart_up stored
  rw [Tree.key_housed_up] at hresult
  obtain ⟨⟨removed, forgotten⟩, later⟩ := hresult
  obtain ⟨gone, reaches⟩ := later (t'.remove ["f"]) (.remove_file (Tree.find?_of_locate h'.file))
  have missing := gone ["f"] [47, 102] ⟨0, 0⟩ Tree.locate_housed_up
    ((Tree.find?_remove t' (by decide) _).trans (if_pos rfl))
  obtain ⟨hkey, hreaches⟩ := reaches missing
  exact ⟨_, _, t', _, h.here, stored, removed, forgotten, hkey.trans (by decide), hreaches⟩

/-- A result that was stored under a path with a step up stays when its file is deleted before the
record of the path is removed. -/
theorem invalidate_stored_misses :
    ∃ (c c' : Cache) (t' : Tree) (stamp : FileStamp), c.At .hashed ∧
      c.store .housed ⟨"/c/../f"⟩ bareModule [] 0 = (c', t', .ok stamp) ∧
      (c'.invalidate (t'.remove ["f"]) ⟨"/c/../f"⟩).2.2 = false ∧
      (c'.invalidate (t'.remove ["f"]) ⟨"/c/../f"⟩).1.Knows ⟨"/f"⟩ := by
  have h : (first .hashed "A").Beside 0 .housed := .housed ⟨rfl, rfl, rfl⟩ rfl
  obtain ⟨stamp, hstamp, hpath, -⟩ := h.stamped Tree.key_housed_up
  obtain ⟨t', stored, h'⟩ := h.store (by decide) hstamp bareModule
  have ways : t'.SameWays (t'.remove ["f"]) := .remove_file (Tree.find?_of_locate h'.file)
  have missing := missing_of_stored h.here h.houses apart_up stored ways Tree.locate_housed_up
    ((Tree.find?_remove t' (by decide) _).trans (if_pos rfl))
  obtain ⟨hkey, hreaches⟩ := reaches_of_stored h.here h.houses stored ways missing
  rw [show Tree.housed.spell ⟨"/c/../f"⟩ = ⟨"/c/../f"⟩ by decide] at hkey
  rw [Tree.key_housed_up] at hreaches
  have hother : ¬ (⟨"/c/../f"⟩ : Path).same ⟨"/f"⟩ = true := by decide
  refine ⟨_, _, t', _, h.here, stored, ?_, ?_⟩
  · show PathMap.contains _ ((t'.remove ["f"]).key ⟨"/c/../f"⟩) = false
    rw [hkey, Bool.eq_false_iff]
    intro hc
    rcases PathMap.contains_insert.mp hc with hc | hc
    · refine hother ?_
      rw [← hpath]
      exact hc
    · exact nomatch hc
  · have hunknown := hreaches.unknown
    rw [hkey] at hunknown
    exact not_not.mp fun hu => hother (hunknown.mp hu)

end Cache
end SourceSurvey
