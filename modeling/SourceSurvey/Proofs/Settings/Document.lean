import SourceSurvey.Settings.Store
import SourceSurvey.Proofs.Cache.Sized
import SourceSurvey.Proofs.Toml.Documents

/-!
# Settings read back from a document

Settings whose numbers fit the machine (`Settings.Sized`) are read back from their document
(`Settings.ofToml?_toToml`), whatever the settings are from which absent fields would be taken: every
section is written with all its fields, and each is read as itself (`read?_toJson`).
-/

namespace SourceSurvey

open Json

/-- The fields of an object. -/
def Json.objectFields : Json → List (String × Json)
  | object fields => fields
  | _ => []

theorem Toml.simple_natural {n : Nat} (h : n < wordLimit) : Toml.Simple (.natural n) :=
  .natural (Nat.lt_trans h (by decide))

theorem Toml.simple_strings (xs : List String) : Toml.Simple (.strings xs) := by
  refine .array fun j hj => ?_
  obtain ⟨s, -, rfl⟩ := List.mem_map.mp hj
  exact .string s

open Toml (Tidy Keyed Simple simple_natural simple_strings)

variable {d : Dialect}

/-! ## Sections -/

namespace GeneralSettings

theorem tidy (s : GeneralSettings) : Tidy s.toJson.objectFields where
  keyed := by
    show Keyed ["version", "log_level"]
    decide
  simple := by
    simp only [toJson, objectFields, List.forall_mem_cons]
    exact ⟨.string _, .string _, nofun⟩

theorem read?_toJson (s s' : GeneralSettings) : s'.read? d s.toJson = some s := by
  have hr : d.record? ["version", "log_level"] s.toJson =
    some [some (.string s.version), some (.string s.logLevel)] := rfl
  unfold read?
  simp only [hr, Option.bind_eq_bind, Option.bind_some, defaulted]
  rfl

end GeneralSettings

/-- Settings of the cache with numbers of 64 bits. -/
structure CacheSettings.Sized (s : CacheSettings) : Prop where
  staleMaxAgeDays : s.staleMaxAgeDays < wordLimit
  payloadEntries : s.payloadEntries < wordLimit

namespace CacheSettings

theorem tidy {s : CacheSettings} (h : s.Sized) : Tidy s.toJson.objectFields where
  keyed := by
    show Keyed ["enabled", "directory", "stale_max_age_days", "payload_cache_entries"]
    decide
  simple := by
    simp only [toJson, objectFields, List.forall_mem_cons]
    exact ⟨.bool _, .string _, simple_natural h.staleMaxAgeDays, simple_natural h.payloadEntries,
      nofun⟩

theorem read?_toJson {s : CacheSettings} (h : s.Sized) (s' : CacheSettings) :
    s'.read? d s.toJson = some s := by
  have hr : d.record? ["enabled", "directory", "stale_max_age_days", "payload_cache_entries"]
      s.toJson = some [some (.bool s.enabled), some s.directory.toJson,
        some (.natural s.staleMaxAgeDays), some (.natural s.payloadEntries)] := rfl
  unfold read?
  simp only [hr, Option.bind_eq_bind, Option.bind_some, defaulted, Path.ofJson?_toJson,
    natural?_natural h.staleMaxAgeDays, natural?_natural h.payloadEntries]
  rfl

end CacheSettings

/-- Settings of the scheduler with a number of 64 bits and one of 32 bits. -/
structure SchedulerSettings.Sized (s : SchedulerSettings) : Prop where
  maxWorkers : s.maxWorkers < wordLimit
  maxRetries : s.maxRetries < 2 ^ 32

namespace SchedulerSettings

theorem tidy {s : SchedulerSettings} (h : s.Sized) : Tidy s.toJson.objectFields where
  keyed := by
    show Keyed ["parallel_enabled", "max_workers", "strategy", "max_retries"]
    decide
  simple := by
    have hretries : s.maxRetries < Nat.pow 2 128 := Nat.lt_trans h.maxRetries (by decide)
    simp only [toJson, objectFields, List.forall_mem_cons]
    exact ⟨.bool _, simple_natural h.maxWorkers, .string _, .natural hretries, nofun⟩

theorem choice?_name (strategy : Strategy) :
    d.choice? Strategy.names (.string strategy.name) = some strategy := by
  cases strategy <;> rfl

theorem read?_toJson {s : SchedulerSettings} (h : s.Sized) (s' : SchedulerSettings) :
    s'.read? d s.toJson = some s := by
  have hr : d.record? ["parallel_enabled", "max_workers", "strategy", "max_retries"] s.toJson =
    some [some (.bool s.parallel), some (.natural s.maxWorkers), some (.string s.strategy.name),
      some (.natural s.maxRetries)] := rfl
  unfold read?
  simp only [hr, Option.bind_eq_bind, Option.bind_some, defaulted, choice?_name,
    natural?_natural h.maxWorkers, word?_natural h.maxRetries]
  rfl

end SchedulerSettings

/-- Settings of the memory with numbers of 64 bits. -/
structure MemorySettings.Sized (s : MemorySettings) : Prop where
  maxMegabytes : s.maxMegabytes < wordLimit
  cleanupThreshold : s.cleanupThreshold < wordLimit

namespace MemorySettings

theorem tidy {s : MemorySettings} (h : s.Sized) : Tidy s.toJson.objectFields where
  keyed := by
    show Keyed ["max_memory_mb", "cleanup_threshold_mb"]
    decide
  simple := by
    simp only [toJson, objectFields, List.forall_mem_cons]
    exact ⟨simple_natural h.maxMegabytes, simple_natural h.cleanupThreshold, nofun⟩

theorem read?_toJson {s : MemorySettings} (h : s.Sized) (s' : MemorySettings) :
    s'.read? d s.toJson = some s := by
  have hr : d.record? ["max_memory_mb", "cleanup_threshold_mb"] s.toJson =
    some [some (.natural s.maxMegabytes), some (.natural s.cleanupThreshold)] := rfl
  unfold read?
  simp only [hr, Option.bind_eq_bind, Option.bind_some, defaulted, natural?_natural h.maxMegabytes,
    natural?_natural h.cleanupThreshold]
  rfl

end MemorySettings

/-- Settings of the chunks with numbers of 64 bits. -/
structure ChunkSettings.Sized (s : ChunkSettings) : Prop where
  largeFileThreshold : s.largeFileThreshold < wordLimit
  maxLines : s.maxLines < wordLimit
  maxBytes : s.maxBytes < wordLimit
  overlap : s.overlap < wordLimit

namespace ChunkSettings

theorem tidy {s : ChunkSettings} (h : s.Sized) : Tidy s.toJson.objectFields where
  keyed := by
    show Keyed ["large_file_threshold_bytes", "chunk_max_lines", "chunk_max_bytes",
      "chunk_overlap_lines", "detect_boundaries"]
    decide
  simple := by
    simp only [toJson, objectFields, List.forall_mem_cons]
    exact ⟨simple_natural h.largeFileThreshold, simple_natural h.maxLines, simple_natural h.maxBytes,
      simple_natural h.overlap, .bool _, nofun⟩

theorem read?_toJson {s : ChunkSettings} (h : s.Sized) (s' : ChunkSettings) :
    s'.read? d s.toJson = some s := by
  have hr : d.record? ["large_file_threshold_bytes", "chunk_max_lines", "chunk_max_bytes",
      "chunk_overlap_lines", "detect_boundaries"] s.toJson =
    some [some (.natural s.largeFileThreshold), some (.natural s.maxLines),
      some (.natural s.maxBytes), some (.natural s.overlap), some (.bool s.detectBoundaries)] := rfl
  unfold read?
  simp only [hr, Option.bind_eq_bind, Option.bind_some, defaulted,
    natural?_natural h.largeFileThreshold, natural?_natural h.maxLines, natural?_natural h.maxBytes,
    natural?_natural h.overlap]
  rfl

end ChunkSettings

namespace DiscoverySettings

theorem tidy (s : DiscoverySettings) : Tidy s.toJson.objectFields where
  keyed := by
    show Keyed ["include", "exclude", "skip_hidden"]
    decide
  simple := by
    simp only [toJson, objectFields, List.forall_mem_cons]
    exact ⟨simple_strings _, simple_strings _, .bool _, nofun⟩

theorem read?_toJson (s s' : DiscoverySettings) : s'.read? d s.toJson = some s := by
  have hr : d.record? ["include", "exclude", "skip_hidden"] s.toJson =
    some [some (.strings s.included), some (.strings s.excluded), some (.bool s.skipHidden)] := rfl
  unfold read?
  simp only [hr, Option.bind_eq_bind, Option.bind_some, defaulted, list?_strings]
  rfl

end DiscoverySettings

/-! ## All settings -/

/-- Settings whose numbers fit the machine. -/
structure Settings.Sized (s : Settings) : Prop where
  cache : s.cache.Sized
  scheduler : s.scheduler.Sized
  memory : s.memory.Sized
  chunking : s.chunking.Sized

namespace Settings

variable {s : Settings}

theorem read?_toJson (h : s.Sized) (s' : Settings) : s'.read? d s.toJson = some s := by
  have hr : d.record? ["general", "cache", "scheduler", "memory", "chunking", "discovery"] s.toJson =
    some [some s.general.toJson, some s.cache.toJson, some s.scheduler.toJson, some s.memory.toJson,
      some s.chunking.toJson, some s.discovery.toJson] := rfl
  unfold read?
  simp only [hr, Option.bind_eq_bind, Option.bind_some, defaulted, GeneralSettings.read?_toJson,
    CacheSettings.read?_toJson h.cache, SchedulerSettings.read?_toJson h.scheduler,
    MemorySettings.read?_toJson h.memory, ChunkSettings.read?_toJson h.chunking,
    DiscoverySettings.read?_toJson]
  rfl

/-- A document of settings is read as their data. -/
theorem parse_toToml (h : s.Sized) : Toml.parse s.toToml.toList = some s.toJson := by
  have keyed : Keyed ["general", "cache", "scheduler", "memory", "chunking", "discovery"] := by decide
  have htidy : ∀ x ∈ s.sections.map fun x => (x.1, x.2.objectFields), Tidy x.2 := by
    simp only [sections, List.map_cons, List.map_nil, List.forall_mem_cons]
    exact ⟨s.general.tidy, CacheSettings.tidy h.cache, SchedulerSettings.tidy h.scheduler,
      MemorySettings.tidy h.memory, ChunkSettings.tidy h.chunking, s.discovery.tidy, nofun⟩
  exact Toml.parse_document keyed htidy

/-- Settings are read back from their document, wherever absent fields would be taken from. -/
theorem ofToml?_toToml (h : s.Sized) (e : Environment) : ofToml? e s.toToml.toList = some s := by
  unfold ofToml?
  rw [parse_toToml h, Option.bind_some, read?_toJson h]

end Settings
end SourceSurvey
