import SourceSurvey.Settings.Basic
import SourceSurvey.Module.Codec
import SourceSurvey.Json.Printer
import SourceSurvey.Digest.Blake3

/-!
# Settings as data

Settings are written as six sections with all their fields. Reading takes the value of every absent
section or field from other settings, so it also merges sections over given settings.
`Settings.digest` identifies the settings on which the result of parsing a file depends.
-/

namespace SourceSurvey

open Json (defaulted string? natural? bool? list? Dialect)

namespace GeneralSettings

def toJson (s : GeneralSettings) : Json :=
  .object [("version", .string s.version), ("log_level", .string s.logLevel)]

def read? (d : Dialect) (s : GeneralSettings) (j : Json) : Option GeneralSettings := do
  let [version, logLevel] ← d.record? ["version", "log_level"] j | none
  return {
    version := ← defaulted string? s.version version
    logLevel := ← defaulted string? s.logLevel logLevel }

end GeneralSettings

namespace CacheSettings

def toJson (s : CacheSettings) : Json :=
  .object [("enabled", .bool s.enabled), ("directory", s.directory.toJson),
    ("stale_max_age_days", .natural s.staleMaxAgeDays),
    ("payload_cache_entries", .natural s.payloadEntries)]

def read? (d : Dialect) (s : CacheSettings) (j : Json) : Option CacheSettings := do
  let [enabled, directory, days, entries] ←
    d.record? ["enabled", "directory", "stale_max_age_days", "payload_cache_entries"] j | none
  return {
    enabled := ← defaulted bool? s.enabled enabled
    directory := ← defaulted Path.ofJson? s.directory directory
    staleMaxAgeDays := ← defaulted natural? s.staleMaxAgeDays days
    payloadEntries := ← defaulted natural? s.payloadEntries entries }

end CacheSettings

namespace SchedulerSettings

def toJson (s : SchedulerSettings) : Json :=
  .object [("parallel_enabled", .bool s.parallel), ("max_workers", .natural s.maxWorkers),
    ("strategy", .string s.strategy.name), ("max_retries", .natural s.maxRetries)]

def read? (d : Dialect) (s : SchedulerSettings) (j : Json) : Option SchedulerSettings := do
  let [parallel, workers, strategy, retries] ←
    d.record? ["parallel_enabled", "max_workers", "strategy", "max_retries"] j | none
  return {
    parallel := ← defaulted bool? s.parallel parallel
    maxWorkers := ← defaulted natural? s.maxWorkers workers
    strategy := ← defaulted (d.choice? Strategy.names) s.strategy strategy
    maxRetries := ← defaulted (Json.word? 32) s.maxRetries retries }

end SchedulerSettings

namespace MemorySettings

def toJson (s : MemorySettings) : Json :=
  .object [("max_memory_mb", .natural s.maxMegabytes),
    ("cleanup_threshold_mb", .natural s.cleanupThreshold)]

def read? (d : Dialect) (s : MemorySettings) (j : Json) : Option MemorySettings := do
  let [most, threshold] ← d.record? ["max_memory_mb", "cleanup_threshold_mb"] j | none
  return {
    maxMegabytes := ← defaulted natural? s.maxMegabytes most
    cleanupThreshold := ← defaulted natural? s.cleanupThreshold threshold }

end MemorySettings

namespace ChunkSettings

def toJson (s : ChunkSettings) : Json :=
  .object [("large_file_threshold_bytes", .natural s.largeFileThreshold),
    ("chunk_max_lines", .natural s.maxLines), ("chunk_max_bytes", .natural s.maxBytes),
    ("chunk_overlap_lines", .natural s.overlap), ("detect_boundaries", .bool s.detectBoundaries)]

def read? (d : Dialect) (s : ChunkSettings) (j : Json) : Option ChunkSettings := do
  let [threshold, lines, bytes, overlap, detect] ←
    d.record? ["large_file_threshold_bytes", "chunk_max_lines", "chunk_max_bytes",
      "chunk_overlap_lines", "detect_boundaries"] j | none
  return {
    largeFileThreshold := ← defaulted natural? s.largeFileThreshold threshold
    maxLines := ← defaulted natural? s.maxLines lines
    maxBytes := ← defaulted natural? s.maxBytes bytes
    overlap := ← defaulted natural? s.overlap overlap
    detectBoundaries := ← defaulted bool? s.detectBoundaries detect }

end ChunkSettings

namespace DiscoverySettings

def toJson (s : DiscoverySettings) : Json :=
  .object [("include", .strings s.included), ("exclude", .strings s.excluded),
    ("skip_hidden", .bool s.skipHidden)]

def read? (d : Dialect) (s : DiscoverySettings) (j : Json) : Option DiscoverySettings := do
  let [included, excluded, skipHidden] ← d.record? ["include", "exclude", "skip_hidden"] j | none
  return {
    included := ← defaulted (list? string?) s.included included
    excluded := ← defaulted (list? string?) s.excluded excluded
    skipHidden := ← defaulted bool? s.skipHidden skipHidden }

end DiscoverySettings

namespace Settings

/-- The sections in the order in which they are written. -/
def sections (s : Settings) : List (String × Json) :=
  [("general", s.general.toJson), ("cache", s.cache.toJson), ("scheduler", s.scheduler.toJson),
    ("memory", s.memory.toJson), ("chunking", s.chunking.toJson),
    ("discovery", s.discovery.toJson)]

def toJson (s : Settings) : Json := .object s.sections

/-- Reads settings; what is absent is taken from `s`. -/
def read? (d : Dialect) (s : Settings) (j : Json) : Option Settings := do
  let [general, cache, scheduler, memory, chunking, discovery] ←
    d.record? ["general", "cache", "scheduler", "memory", "chunking", "discovery"] j | none
  return {
    general := ← defaulted (s.general.read? d) s.general general
    cache := ← defaulted (s.cache.read? d) s.cache cache
    scheduler := ← defaulted (s.scheduler.read? d) s.scheduler scheduler
    memory := ← defaulted (s.memory.read? d) s.memory memory
    chunking := ← defaulted (s.chunking.read? d) s.chunking chunking
    discovery := ← defaulted (s.discovery.read? d) s.discovery discovery }

/-- The version of the stored parse results. -/
def formatVersion : Nat := 1

/-- The settings on which a parse result depends, as text. -/
def parseSettings (s : Settings) : String :=
  (Json.object [("format_version", .natural formatVersion), ("chunking", s.chunking.toJson)]).compact

/-- A fingerprint of the settings on which a parse result depends. -/
def digest (s : Settings) : String := Digest.Blake3.hexHash s.parseSettings.toUTF8.toList

end Settings
end SourceSurvey
