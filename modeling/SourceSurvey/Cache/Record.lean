import SourceSurvey.Failure.Record
import SourceSurvey.Module.Codec

/-!
# Records of the cache

A `FileStamp` identifies the content of a file at the time of its parsing. The index holds a stamp
for every stored file; the payload of a file holds the stamp and what the parsing found.
-/

namespace SourceSurvey

open Json (required defaulted nullable string? natural? list?)

/-- The content of a file when it was parsed, and how the parsing went. -/
structure FileStamp where
  path : Path
  digest : String
  size : Nat
  changed? : Option Instant
  parsedAt : Instant
  parseMicros : Nat := 0
  edgeCount : Nat := 0
  deriving DecidableEq, Repr

namespace FileStamp

def toJson (s : FileStamp) : Json :=
  .object [("path", s.path.toJson), ("digest", .string s.digest), ("size", .natural s.size),
    ("mtime", .optional Instant.toJson s.changed?), ("parsed_at", s.parsedAt.toJson),
    ("parse_duration_micros", .natural s.parseMicros), ("relationship_count", .natural s.edgeCount)]

def ofJson? (j : Json) : Option FileStamp := do
  let [path, digest, size, changed, parsedAt, micros, count] ← Json.record? ["path", "digest", "size",
    "mtime", "parsed_at", "parse_duration_micros", "relationship_count"] j | none
  return {
    path := ← required Path.ofJson? path
    digest := ← required string? digest
    size := ← required natural? size
    changed? := ← defaulted (nullable Instant.ofJson?) none changed
    parsedAt := ← required Instant.ofJson? parsedAt
    parseMicros := ← required natural? micros
    edgeCount := ← required natural? count }

end FileStamp

/-- When and under which settings a result was stored. -/
structure CacheMetadata where
  storedAt : Instant
  formatVersion : Nat
  settingsDigest : String
  deriving DecidableEq, Repr

namespace CacheMetadata

def toJson (m : CacheMetadata) : Json :=
  .object [("cached_at", m.storedAt.toJson), ("format_version", .natural m.formatVersion),
    ("config_digest", .string m.settingsDigest)]

def ofJson? (j : Json) : Option CacheMetadata := do
  let [storedAt, version, digest] ←
    Json.record? ["cached_at", "format_version", "config_digest"] j | none
  return {
    storedAt := ← required Instant.ofJson? storedAt
    formatVersion := ← required (Json.word? 32) version
    settingsDigest := ← required string? digest }

end CacheMetadata

/-- A stored result. -/
structure CacheEntry where
  stamp : FileStamp
  module : Module
  edges : List Edge := []
  metadata : CacheMetadata
  deriving DecidableEq, Repr

namespace CacheEntry

def toJson (e : CacheEntry) : Json :=
  .object [("hash", e.stamp.toJson), ("module", e.module.toJson),
    ("relationships", .array (e.edges.map Edge.toJson)), ("metadata", e.metadata.toJson)]

def ofJson? (j : Json) : Option CacheEntry := do
  let [stamp, module, edges, metadata] ←
    Json.record? ["hash", "module", "relationships", "metadata"] j | none
  return {
    stamp := ← required FileStamp.ofJson? stamp
    module := ← required Module.ofJson? module
    edges := ← defaulted (list? Edge.ofJson?) [] edges
    metadata := ← required CacheMetadata.ofJson? metadata }

end CacheEntry

/-- What the index says about a stored result. -/
structure IndexRecord where
  stamp : FileStamp
  storedAt : Instant
  settingsDigest : String
  deriving DecidableEq, Repr

namespace IndexRecord

def toJson (r : IndexRecord) : Json :=
  .object [("hash", r.stamp.toJson), ("cached_at", r.storedAt.toJson),
    ("config_digest", .string r.settingsDigest)]

def ofJson? (j : Json) : Option IndexRecord := do
  let [stamp, storedAt, digest] ← Json.record? ["hash", "cached_at", "config_digest"] j | none
  return {
    stamp := ← required FileStamp.ofJson? stamp
    storedAt := ← required Instant.ofJson? storedAt
    settingsDigest := ← required string? digest }

end IndexRecord

/-- The index as it is kept in its file. -/
structure IndexFile where
  version : Nat
  records : List IndexRecord
  deriving DecidableEq, Repr

namespace IndexFile

def toJson (f : IndexFile) : Json :=
  .object [("version", .natural f.version), ("entries", .array (f.records.map IndexRecord.toJson))]

def ofJson? (j : Json) : Option IndexFile := do
  let [version, records] ← Json.record? ["version", "entries"] j | none
  return {
    version := ← required (Json.word? 32) version
    records := ← required (list? IndexRecord.ofJson?) records }

end IndexFile
end SourceSurvey
