import SourceSurvey.Proofs.Cache.Client
import SourceSurvey.Proofs.Cache.Removal

/-!
# Removing stale records

A cleanup removes the records that were stored some days ago or earlier, with their payloads, and
nothing else. The number of days is read as a signed number of 64 bits: up to `longestSpan` it counts
what it says, beyond that it is no span of time, and from the other end of its range it counts days
to come, so that fresh records are removed too.

* `Cache.Sweeps`: what a cleanup by a span of time does (`Cache.At.sweeps`).
* `Cache.cleanup_stale`: the span that every number of days stands for.
-/

namespace SourceSurvey

open SourceSurvey.Tree (Houses)

namespace Cache

variable {site : Site} {c c' : Cache} {t t' : Tree} {days : Nat} {span : Int}

/-! ## Days -/

theorem signedDays_eq (h : days < UInt64.size) :
    signedDays days = if 2 * days < UInt64.size then (days : Int) else days - UInt64.size := by
  have hsize : UInt64.size = 2 ^ 64 := rfl
  unfold signedDays
  rw [hsize] at h ⊢
  rw [Int.bmod_def]
  split
  · rw [if_pos (by omega)]
    omega
  · rw [if_neg (by omega)]
    omega

theorem signedDays_small (h : (days : Int) ≤ longestSpan) : signedDays days = days := by
  have hsize : UInt64.size = 2 ^ 64 := rfl
  unfold longestSpan at h
  rw [signedDays_eq (by omega), if_pos (by omega)]

theorem signedDays_large (h : days < UInt64.size) (hd : (UInt64.size : Int) - longestSpan ≤ days) :
    signedDays days = days - UInt64.size := by
  have hsize : UInt64.size = 2 ^ 64 := rfl
  unfold longestSpan at hd
  rw [signedDays_eq h, if_neg (by omega)]

/-- A number of days that is neither small enough nor close enough to the end of its range is no span
of time. -/
theorem cleanup_eq_none (c : Cache) (t : Tree) (h : longestSpan < days)
    (h' : (days : Int) < UInt64.size - longestSpan) : c.cleanup t days = none := by
  have hsize : UInt64.size = 2 ^ 64 := rfl
  unfold longestSpan at h h'
  rw [hsize] at h'
  refine if_pos ?_
  rw [signedDays_eq (by omega)]
  unfold longestSpan
  split
  · omega
  · omega

/-- A greater number of days leaves every record that a smaller one leaves. -/
theorem isStale_anti {now : Instant} {r : IndexRecord} {span' : Int} (h : span ≤ span')
    (hs : isStale now span' r = true) : isStale now span r = true := by
  have hday : 0 ≤ Instant.nanosPerDay := by decide
  exact decide_eq_true ((Int.mul_le_mul_of_nonneg_right h hday).trans (of_decide_eq_true hs))

theorem staleKeys_anti (c : Cache) (now : Instant) {span' : Int} (h : span ≤ span') :
    (c.staleKeys now span').Sublist (c.staleKeys now span) :=
  (List.monotone_filter_right _ fun _ hs => isStale_anti h hs).map _

/-! ## What a cleanup removes -/

theorem mem_staleKeys {now : Instant} {k : Path} :
    k ∈ c.staleKeys now span ↔ ∃ r, (k, r) ∈ c.index.entries ∧ isStale now span r = true := by
  unfold staleKeys
  simp

/-- A record is removed with those whose keys are stale iff it is stale. -/
theorem any_staleKeys (sorted : c.index.Sorted) {now : Instant} {e : Path × IndexRecord}
    (he : e ∈ c.index.entries) :
    ((c.staleKeys now span).any fun k => k.same e.1) = isStale now span e.2 := by
  rw [Bool.eq_iff_iff, List.any_eq_true]
  constructor
  · rintro ⟨k, hk, hs⟩
    obtain ⟨r, hr, hstale⟩ := mem_staleKeys.mp hk
    have hrecord := sorted.get?_of_mem hr
    rw [PathMap.get?_congr c.index hs, sorted.get?_of_mem he] at hrecord
    rw [Option.some.inj hrecord]
    exact hstale
  · exact fun hstale => ⟨e.1, mem_staleKeys.mpr ⟨e.2, he, hstale⟩, Path.same_refl _⟩

/-- What is left when the records that were stored some days ago or earlier are removed: the other
records, with their payload files if the cache tells its keys apart, and all files but the payload
files of the stale records, the index file and drafts. -/
structure Swept (site : Site) (c : Cache) (t : Tree) (span : Int) (c' : Cache) (t' : Tree) : Prop where
  index : c'.index.entries = c.index.entries.filter fun e => !isStale t.now span e.2
  recent : c'.recent = c.recent.filter fun r => !(c.staleKeys t.now span).any (·.same r.1)
  files : ∀ q, (∀ k ∈ c.staleKeys t.now span, q ≠ site.payloadPlace k) → q ≠ site.indexPlace →
    ¬ site.IsDraft q → t'.find? q = t.find? q
  gone : ∀ k ∈ c.staleKeys t.now span, (site.payloadPath k).Nameable →
    t'.find? (site.payloadPlace k) = none
  kept : Unambiguous site.fingerprint (· ∈ c.index.keys) →
    ∀ e ∈ c.index.entries, isStale t.now span e.2 = false →
      t'.find? (site.payloadPlace e.1) = t.find? (site.payloadPlace e.1)

/-- The payload file of a record that is not stale is that of no stale key, if the cache tells its
keys apart. -/
theorem payloadPlace_ne_stale (sorted : c.index.Sorted)
    (told : Unambiguous site.fingerprint (· ∈ c.index.keys)) {now : Instant}
    {e : Path × IndexRecord} (he : e ∈ c.index.entries) (fresh : isStale now span e.2 = false) :
    ∀ k ∈ c.staleKeys now span, site.payloadPlace e.1 ≠ site.payloadPlace k := by
  intro k hk hplace
  obtain ⟨r, hr, hstale⟩ := mem_staleKeys.mp hk
  have hkey := Site.eq_of_payloadPlace told (List.mem_map_of_mem he) (List.mem_map_of_mem hr) hplace
  have hrecord : some e.2 = some r := by
    rw [← sorted.get?_of_mem he, hkey]
    exact sorted.get?_of_mem hr
  rw [Option.some.inj hrecord, hstale] at fresh
  exact nomatch fresh

/-- A cleanup by a span of time ends and leaves what it should. Its answer is the number of the
records that it removed, and there is one if the system takes the paths of the index file and its
draft. -/
def Sweeps (site : Site) (c : Cache) (t : Tree) (days : Nat) (span : Int) : Prop :=
  ∃ c' t' r, c.cleanup t days = some (c', t', r) ∧ Swept site c t span c' t' ∧
    (∀ n, r = .ok n → n = (c.staleKeys t.now span).length) ∧
    (c.indexPath.Nameable → (c.directory.join ⟨draftName "index" c.drafts⟩).Nameable →
      ∃ n, r = .ok n)

section sweeps

variable (here : c.At site) (houses : t.Houses site.directory site.home)
  (made : t.find? (site.home ++ ["entries"]) = some .directory) (sorted : c.index.Sorted)
  (canonical : ∀ k ∈ c.index.keys, t.IsCanonical k)
include here houses made sorted canonical

omit made sorted in
/-- The stale records are removed one after the other. Each key stays its own key, whatever was
removed before it. -/
theorem At.invalidateAll_staleKeys (span : Int) :
    (∃ dirty, (c.invalidateAll t (c.staleKeys t.now span)).1 =
        { c.without (c.staleKeys t.now span) with dirty }) ∧
      site.Drops (c.staleKeys t.now span) t (c.invalidateAll t (c.staleKeys t.now span)).2 := by
  refine here.invalidateAll houses fun k hk t' fewer => ?_
  obtain ⟨r, hr, -⟩ := mem_staleKeys.mp hk
  exact (canonical k (List.mem_map_of_mem hr)).key_of_fewer fewer

omit here houses canonical in
/-- Dropping the stale keys and writing the index sweeps. -/
theorem swept_of_drops {t₁ : Tree} (index : c'.index = (c.without (c.staleKeys t.now span)).index)
    (recent : c'.recent = (c.without (c.staleKeys t.now span)).recent)
    (drops : site.Drops (c.staleKeys t.now span) t t₁) (touched : site.Touches site.indexPlace t₁ t') :
    Swept site c t span c' t' := by
  have files : ∀ q, (∀ k ∈ c.staleKeys t.now span, q ≠ site.payloadPlace k) →
      q ≠ site.indexPlace → ¬ site.IsDraft q → t'.find? q = t.find? q := by
    intro q hq hindex hdraft
    rw [touched.same q hindex hdraft, drops.same q hq]
  refine ⟨?_, recent, files, fun k hk nameable => ?_, fun told e he fresh => ?_⟩
  · rw [index]
    refine List.filter_congr fun e he => ?_
    rw [any_staleKeys sorted he]
  · rw [touched.same _ (site.payloadPlace_ne_index k) (site.payloadPlace_not_draft k)]
    exact drops.gone made k hk nameable
  · exact files _ (payloadPlace_ne_stale sorted told he fresh) (site.payloadPlace_ne_index _)
      (site.payloadPlace_not_draft _)

/-- Every cleanup by a span of time sweeps. -/
theorem At.sweeps (small : ¬ longestSpan < (signedDays days).natAbs) :
    c.Sweeps site t days (signedDays days) := by
  obtain ⟨⟨dirty, hcache⟩, drops⟩ := here.invalidateAll_staleKeys houses canonical (signedDays days)
  rcases hall : c.invalidateAll t (c.staleKeys t.now (signedDays days)) with ⟨c₁, t₁⟩
  rw [hall] at hcache drops
  dsimp only at hcache drops
  have index₁ := congrArg Cache.index hcache
  have recent₁ := congrArg Cache.recent hcache
  have setup : SameSetup c c₁ := by
    rw [hcache]
    exact ⟨rfl, rfl, rfl, rfl⟩
  have drafts : c₁.drafts = c.drafts := by
    rw [hcache]
    rfl
  unfold Sweeps cleanup
  rw [if_neg small]
  dsimp only
  rw [hall]
  dsimp only
  split
  · rename_i hempty
    refine ⟨c₁, t₁, _, rfl, swept_of_drops made sorted index₁ recent₁ drops (.refl drops.houses _), ?_,
      fun _ _ => ⟨0, rfl⟩⟩
    rintro n ⟨⟩
    rw [List.isEmpty_iff.mp hempty]
    rfl
  · rcases hflush : c₁.flush t₁ with ⟨c₂, t₂, r⟩
    have flushed := (here.same setup).flush drops.houses hflush
    obtain ⟨index₂, recent₂⟩ := flushed.records
    refine ⟨c₂, t₂, _, rfl, swept_of_drops made sorted (index₂.trans index₁) (recent₂.trans recent₁)
      drops (flushed.touches drops.houses), fun n hn => ?_, fun nameable draft => ?_⟩
    · cases r with
      | ok => exact (Except.ok.inj hn).symm
      | error => exact nomatch hn
    · rw [← drafts, ← setup.directory] at draft
      have nameable₁ : c₁.indexPath.Nameable := by
        unfold Cache.indexPath
        rw [setup.directory]
        exact nameable
      have houses₁ : t₁.Houses c₁.directory site.home := by
        rw [(here.same setup).directory]
        exact drops.houses
      have hok := c₁.flush_ok houses₁ (drops.made.trans made) nameable₁ draft
      rw [hflush] at hok
      obtain rfl : r = .ok () := hok
      exact ⟨_, rfl⟩

end sweeps

/-- A cleanup by up to `longestSpan` days removes the records that were stored so many days ago or
earlier, so that more days remove no more. Numbers of days at the other end of their range count days
to come, and what was stored before then is removed; those between are refused. -/
theorem cleanup_stale (site : Site) (c : Cache) (t : Tree) (days : Nat) (word : days < UInt64.size)
    (here : c.At site) (houses : t.Houses site.directory site.home)
    (made : t.find? (site.home ++ ["entries"]) = some .directory) (sorted : c.index.Sorted)
    (canonical : ∀ k ∈ c.index.keys, t.IsCanonical k) :
    ((days : Int) ≤ longestSpan → c.Sweeps site t days days ∧
        ∀ fewer ≤ days, (c.staleKeys t.now days).Sublist (c.staleKeys t.now fewer)) ∧
      (longestSpan < days → (days : Int) < UInt64.size - longestSpan → c.cleanup t days = none) ∧
      ((UInt64.size : Int) - longestSpan ≤ days → c.Sweeps site t days (days - UInt64.size)) := by
  have sweeps : ¬ longestSpan < (signedDays days).natAbs → c.Sweeps site t days (signedDays days) :=
    here.sweeps houses made sorted canonical
  refine ⟨fun small => ⟨?_, fun fewer hf => ?_⟩, c.cleanup_eq_none t, fun large => ?_⟩
  · rw [signedDays_small small] at sweeps
    exact sweeps (by omega)
  · exact c.staleKeys_anti t.now (Int.ofNat_le.mpr hf)
  · rw [signedDays_large word large] at sweeps
    refine sweeps ?_
    have hsize : UInt64.size = 2 ^ 64 := rfl
    unfold longestSpan at large ⊢
    omega

end Cache

/-! ## Ten days later -/

/-- Two files beside a cache, ten days later. -/
def Tree.aged : Tree :=
  { Tree.housed.put ["g"] (.file [103] ⟨0, 0⟩) with now := ⟨864000, 0⟩ }

namespace Tree

theorem find?_aged (q : Place) :
    aged.find? q = if q = ["g"] then some (.file [103] ⟨0, 0⟩) else housed.find? q :=
  find?_put housed (by decide) _ q

theorem sameWays_aged : housed.SameWays aged := by
  refine ⟨rfl, fun q n hn => ?_⟩
  rw [find?_aged]
  split
  · rename_i hq
    rw [hq]
    refine ⟨fun hf => absurd ?_ hn, fun hf => nomatch hf⟩
    rw [← Option.some.inj hf]
    exact .intro ..
  · exact .rfl

theorem houses_aged : aged.Houses ⟨"/c"⟩ ["c"] := houses_housed.sameWays rfl sameWays_aged

theorem canonical_aged {p : Path} (hp : p = ⟨"/f"⟩ ∨ p = ⟨"/g"⟩) : aged.IsCanonical p := by
  rcases hp with rfl | rfl
  · refine ⟨["f"], [47, 102], ⟨0, 0⟩, ?_, by decide⟩
    exact locate_top ⟨by decide, by decide⟩ (by decide) (by decide) (by decide)
      (.of_name (by decide) (by decide)) rfl
  · refine ⟨["g"], [103], ⟨0, 0⟩, ?_, by decide⟩
    exact locate_top ⟨by decide, by decide⟩ (by decide) (by decide) (by decide)
      (.of_name (by decide) (by decide)) rfl

end Tree

namespace Cache

/-- A record of a file without content that was stored at an instant. -/
def recordAt (p : Path) (storedAt : Instant) : IndexRecord :=
  ⟨⟨p, "", 0, none, storedAt, 0, 0⟩, storedAt, "A"⟩

/-- A cache with a record that was stored ten days ago and one that was stored just now. -/
def aged : Cache :=
  { Cache.first .hashed "A" with
    index := ⟨[(⟨"/f"⟩, recordAt ⟨"/f"⟩ ⟨0, 0⟩), (⟨"/g"⟩, recordAt ⟨"/g"⟩ ⟨864000, 0⟩)]⟩ }

theorem sorted_aged : aged.index.Sorted := by
  unfold PathMap.Sorted aged
  decide

theorem canonical_keys_aged : ∀ k ∈ aged.index.keys, Tree.aged.IsCanonical k := by
  intro k hk
  refine Tree.canonical_aged ?_
  simpa [aged, PathMap.keys] using hk

/-- A cleanup by a week removes the record that was stored ten days ago. -/
theorem cleanup_stale_week :
    ∃ c' t', aged.cleanup .aged 7 = some (c', t', .ok 1) ∧
      c'.index.entries = [(⟨"/g"⟩, recordAt ⟨"/g"⟩ ⟨864000, 0⟩)] ∧
      Swept .hashed aged .aged 7 c' t' := by
  obtain ⟨c', t', r, hc, swept, count, answers⟩ :=
    ((cleanup_stale .hashed aged .aged 7 (by decide) ⟨rfl, rfl, rfl⟩ Tree.houses_aged rfl sorted_aged
      canonical_keys_aged).1 (by decide)).1
  obtain ⟨n, rfl⟩ := answers (nameable_index_hashed (by decide) (by decide) (by decide))
    (nameable_index_hashed (by decide) (by decide) (by decide))
  obtain rfl := count n rfl
  exact ⟨c', t', hc, swept.index, swept⟩

/-- The greatest number of days removes the record that was stored just now, and a number in the
middle of its range is refused. -/
theorem cleanup_stale_fresh :
    isStale Tree.aged.now (18446744073709551615 : Nat) (recordAt ⟨"/g"⟩ ⟨864000, 0⟩) = false ∧
      (∃ c' t', aged.cleanup .aged 18446744073709551615 = some (c', t', .ok 2) ∧
        c'.index.entries = []) ∧
      aged.cleanup .aged 106751991168 = none := by
  refine ⟨by decide, ?_, cleanup_eq_none _ _ (by decide) (by decide)⟩
  have hdays : signedDays 18446744073709551615 = -1 := by decide
  have here : aged.At .hashed := ⟨rfl, rfl, rfl⟩
  have sweeps : aged.Sweeps .hashed .aged 18446744073709551615 (signedDays 18446744073709551615) :=
    here.sweeps Tree.houses_aged rfl sorted_aged canonical_keys_aged (by rw [hdays]; decide)
  obtain ⟨c', t', r, hc, swept, count, answers⟩ := sweeps
  rw [hdays] at swept count
  obtain ⟨n, rfl⟩ := answers (nameable_index_hashed (by decide) (by decide) (by decide))
    (nameable_index_hashed (by decide) (by decide) (by decide))
  obtain rfl := count n rfl
  exact ⟨c', t', hc, swept.index⟩

end Cache
end SourceSurvey
