import SourceSurvey.Settings.Codec
import SourceSurvey.Proofs.Cache.Lasting
import SourceSurvey.Proofs.Text

/-!
# The digest of settings

A result is current for a cache only under the settings under which it was stored, and of these the
digest knows the text of those that matter for parsing (`Settings.parseSettings`).

* `Json.compact_inj`: values that are printed alike are equal.
* `Settings.parseSettings_eq_iff`: the text says what the chunking is and nothing else.
* `Client.Lasts.opens_under`, `Site.Keeps.hasChanged_iff`: a cache that is opened with whatever
  settings knows of a result that lasts, which is current if these are the settings of the result.
* `Settings.digest_separates`: digests, and caches, separate settings by their chunking.
-/

namespace SourceSurvey

open Cache (Unambiguous)
open Session (Vacant)

/-! ## The text -/

/-- Values without decimals that are printed alike are equal. -/
theorem Json.compact_inj {j j' : Json} (h : j.Plain) (h' : j'.Plain) (heq : j.compact = j'.compact) :
    j = j' := by
  have hprint : j.print = j'.print := String.ofList_injective heq
  have hparse := parse_print h
  rw [hprint, parse_print h', Option.some.injEq] at hparse
  exact hparse.symm

theorem ChunkSettings.plain_toJson (s : ChunkSettings) : s.toJson.Plain :=
  ⟨trivial, trivial, trivial, trivial, trivial, trivial⟩

/-- The section that is written says what each of its fields is. -/
theorem ChunkSettings.toJson_inj {s s' : ChunkSettings} (h : s.toJson = s'.toJson) : s = s' := by
  obtain ⟨threshold, lines, bytes, overlap, detect⟩ := s
  obtain ⟨threshold', lines', bytes', overlap', detect'⟩ := s'
  simpa [toJson] using h

namespace Settings

/-- The text of the settings on which a parse result depends says what the chunking is and nothing
else. -/
theorem parseSettings_eq_iff {a b : Settings} :
    a.parseSettings = b.parseSettings ↔ a.chunking = b.chunking := by
  constructor
  · intro h
    have hplain (s : Settings) : (Json.object [("format_version", .natural formatVersion),
        ("chunking", s.chunking.toJson)]).Plain := ⟨trivial, s.chunking.plain_toJson, trivial⟩
    have hjson := Json.compact_inj (hplain a) (hplain b) h
    refine ChunkSettings.toJson_inj ?_
    simpa using hjson
  · intro h
    unfold parseSettings
    rw [h]

/-- The bytes of which the digest is taken. -/
def parseBytes (s : Settings) : List UInt8 := s.parseSettings.toUTF8.toList

/-- The digest tells the settings apart unless it collides at them. -/
theorem digest_eq_iff {a b : Settings}
    (distinct : Digest.Blake3.hexHash a.parseBytes = Digest.Blake3.hexHash b.parseBytes →
      a.parseBytes = b.parseBytes) : a.digest = b.digest ↔ a.chunking = b.chunking := by
  rw [← parseSettings_eq_iff]
  constructor
  · exact fun h => Text.toUTF8_inj (distinct h)
  · intro h
    unfold digest
    rw [h]

end Settings

/-! ## The cache -/

variable {site : Site} {K : Path → Prop} {k : Path} {e : CacheEntry}

/-- A file that is what it was when a result was stored for its key is unchanged, for a cache with the
record of the result, if and only if the cache has the settings of the result. -/
theorem Site.Keeps.hasChanged_iff {c : Cache} {t t' : Tree} {q : Path} (kept : site.Keeps t k e)
    (record : c.index.get? k = some (Cache.recordOf e)) (fingerprint : c.fingerprint = site.fingerprint)
    (leads : t'.key q = k) (same : t'.locate k = t.locate k) :
    c.hasChanged t' q = false ↔ e.metadata.settingsDigest = c.settingsDigest := by
  obtain ⟨place, bytes, changed, hl, -, size, date, digest⟩ := kept.stands
  rw [hl] at same
  unfold Cache.hasChanged Cache.isCurrent
  rw [leads, record, same]
  simp only [Cache.recordOf, size, date, digest, fingerprint, decide_true, Bool.and_true,
    Bool.not_eq_false']
  exact decide_eq_true_iff

/-- A cache can be opened with whatever settings where a result lasts, and has the record of it. -/
theorem Client.Lasts.opens_under {s : Client} (h : s.Lasts site K k e)
    (told : Unambiguous site.fingerprint K) (key : K k) (long : site.LongNames)
    (version : site.formatVersion < 2 ^ 32)
    (drafts : ∀ c, s.cache? = some c → c.drafts < Json.wordLimit) (settingsDigest : String)
    (capacity : Nat) :
    ∃ c t, (s.serve site (.opening settingsDigest capacity)).1 = ⟨t, some c⟩ ∧
      c.settingsDigest = settingsDigest ∧ c.fingerprint = site.fingerprint ∧
      c.index.get? k = some (Cache.recordOf e) := by
  obtain ⟨c, hc⟩ := h.reopens told key long drafts settingsDigest capacity
  refine ⟨c, _, hc, ?_⟩
  have closed := h.shut told key long drafts
  have saves := closed.closed s.shut_cache?
  rcases ho : Cache.openIn s.shut.tree site.directory settingsDigest capacity site.formatVersion
    site.fingerprint with ⟨t, r⟩
  rw [serve_opening, ho] at hc
  obtain ⟨rfl, hr⟩ := Client.mk.inj hc
  cases r with
  | error f => exact nomatch hr
  | ok c' =>
    obtain rfl : c' = c := Option.some.inj hr
    obtain ⟨here, -, settings, -, index⟩ := Cache.At.opened ho
    refine ⟨settings, here.fingerprint, ?_⟩
    rw [index]
    exact saves.readIndex closed.mirrored.houses closed.kept.held.made version

namespace Settings

/-- Digests separate settings by their chunking, whatever else they say, unless they collide at the
two. So do caches. A result is stored under the settings `a` for a file outside of the home of the
cache, and whatever requests that spare it follow. Then a cache can be opened under the settings `b`,
and a file at the same key that is what it was is unchanged for this cache if and only if the settings
have the same chunking. -/
theorem digest_separates (a b : Settings)
    (distinct : Digest.Blake3.hexHash a.parseBytes = Digest.Blake3.hexHash b.parseBytes →
      a.parseBytes = b.parseBytes) :
    (a.digest = b.digest ↔ a.chunking = b.chunking) ∧
    ∀ (site : Site) (s : Client) (rs rs' : List Request) (c₀ c₁ : Cache) (t₀ t₁ : Tree) (p : Path)
      (m : Module) (edges : List Edge) (micros : Nat) (stamp : FileStamp),
      site.LongNames → s.Begins site → Vacant site.home s.tree →
      s.Throughout site (Client.Allows site) rs → s.after site rs = ⟨t₀, some c₀⟩ →
      c₀.settingsDigest = a.digest → c₀.Holdable t₀ (.storing p m edges micros) →
      (∀ place node, t₀.locate (t₀.key p) = .ok (place, node) → ¬ Below site.home place) →
      c₀.store t₀ p m edges micros = (c₁, t₁, .ok stamp) →
      (Client.mk t₁ (some c₁)).Throughout site
        (Client.Spares site (t₀.key p) a.digest) rs' →
      (∀ c, ((Client.mk t₁ (some c₁)).after site rs').cache? = some c → c.drafts < Json.wordLimit) →
      (Unambiguous site.fingerprint fun k =>
        k ∈ s.asked site (rs ++ .ordering (.storing p m edges micros) :: rs')) →
      ∃ c t, (((Client.mk t₁ (some c₁)).after site rs').serve site
          (.opening b.digest b.cache.payloadEntries)).1 = ⟨t, some c⟩ ∧
        ∀ (t : Tree) (q : Path), t.key q = t₀.key p →
          t.locate (t₀.key p) = t₁.locate (t₀.key p) →
          (c.hasChanged t q = false ↔ a.chunking = b.chunking) := by
  refine ⟨digest_eq_iff distinct, ?_⟩
  intro site s rs rs' c₀ c₁ t₀ t₁ p m edges micros stamp long begins vacant allowed running under
    holdable outside stored spared drafts told
  rw [← under] at spared
  obtain ⟨e, key, version, start, stays, -, -, -, settings⟩ := Client.lasts_after long begins vacant
    allowed running holdable outside stored spared told fun _ => id
  obtain ⟨c, t, hc, opened, fingerprint, record⟩ :=
    stays.opens_under told key long version drafts b.digest b.cache.payloadEntries
  refine ⟨c, t, hc, fun t q leads same => ?_⟩
  rw [start.kept.hasChanged_iff record fingerprint leads same, settings, under, opened,
    digest_eq_iff distinct]

/-- A result of the file beside the directory is stored. It is unchanged for a cache with other settings
of the scheduler, and has changed for one under settings with another digest. -/
theorem digest_separates_beside :
    ∃ (a b : Settings) (s : Client), a.chunking = b.chunking ∧ a.scheduler ≠ b.scheduler ∧
      (∃ c t, (s.serve .hashed (.opening b.digest b.cache.payloadEntries)).1 = ⟨t, some c⟩ ∧
        c.hasChanged s.tree ⟨"/f"⟩ = false) ∧
      ∀ d : Settings, a.digest ≠ d.digest →
        ∃ c t, (s.serve .hashed (.opening d.digest d.cache.payloadEntries)).1 = ⟨t, some c⟩ ∧
          c.hasChanged s.tree ⟨"/f"⟩ = true := by
  let a : Settings := { cache := { directory := ⟨"/c"⟩ } }
  let b : Settings := { a with scheduler := { parallel := false } }
  obtain ⟨c₀, ho, drafts₀⟩ := Cache.opened_beside a.digest 1
  obtain ⟨here, -, settings, -⟩ := Cache.At.opened ho
  obtain ⟨c₁, t₁, stamp, stored, drafts₁⟩ := Cache.store_housed here drafts₀
  have hopening : (Client.mk .beside none).after .hashed [.opening a.digest 1] =
      ⟨.housed, some c₀⟩ := by
    show ((Client.mk .beside none).serve .hashed (.opening a.digest 1)).1 = _
    rw [Client.serve_opening_ok ho]
  have told : Unambiguous Site.hashed.fingerprint fun k =>
      k ∈ (Client.mk .beside none).asked .hashed ([.opening a.digest 1] ++
        [.ordering (.storing ⟨"/f"⟩ Cache.bareModule [] 0)]) := by
    have hfirst : (Client.mk .beside none).asked .hashed [.opening a.digest 1] = [] := rfl
    rw [Client.asked_append, hfirst, hopening, Client.asked_cons, Client.asks_storing,
      Tree.key_housed, Client.asked]
    simp only [List.nil_append, List.append_nil, List.mem_singleton]
    exact fun k k' hk hk' _ => hk.trans hk'.symm
  have hkey : t₁.key ⟨"/f"⟩ = Tree.housed.key ⟨"/f"⟩ := by
    rw [Tree.key_housed]
    exact Tree.key_of_beside (Cache.locate_store here stored)
  have under (d : Settings) (distinct : Digest.Blake3.hexHash a.parseBytes =
      Digest.Blake3.hexHash d.parseBytes → a.parseBytes = d.parseBytes) :
      ∃ c t, ((Client.mk t₁ (some c₁)).serve .hashed
          (.opening d.digest d.cache.payloadEntries)).1 = ⟨t, some c⟩ ∧
        (c.hasChanged t₁ ⟨"/f"⟩ = false ↔ a.chunking = d.chunking) := by
    obtain ⟨c, t, hc, hcurrent⟩ := (digest_separates a d distinct).2 .hashed ⟨.beside, none⟩
      [.opening a.digest 1] [] c₀ c₁ .housed t₁ ⟨"/f"⟩ Cache.bareModule [] 0 stamp
      Digest.Blake3.utf8ByteSize_hexHash ⟨Tree.houses_beside, nofun⟩
      (fun q hq _ => Tree.find?_of_bare (by decide) hq) ⟨trivial, trivial⟩ hopening settings
      (Cache.holdable_housed here) (fun _ _ => Cache.outside_housed) stored trivial
      (by rintro c ⟨⟩; rw [drafts₁]; decide) told
    exact ⟨c, t, hc, hcurrent t₁ ⟨"/f"⟩ hkey rfl⟩
  refine ⟨a, b, ⟨t₁, some c₁⟩, rfl, by decide, ?_, fun d hd => ?_⟩
  · obtain ⟨c, t, hc, same⟩ := under b fun _ => rfl
    exact ⟨c, t, hc, same.mpr rfl⟩
  · obtain ⟨c, t, hc, same⟩ := under d fun heq => absurd heq hd
    refine ⟨c, t, hc, ?_⟩
    rw [← Bool.not_eq_false, same, ← digest_eq_iff fun heq => absurd heq hd]
    exact hd

end Settings
end SourceSurvey
