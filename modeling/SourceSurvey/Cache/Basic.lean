import SourceSurvey.Cache.Record
import SourceSurvey.Json.Parser
import SourceSurvey.Json.Printer
import SourceSurvey.PathMap
import SourceSurvey.Tree.Absolute
import SourceSurvey.Tree.File

/-!
# The result cache

A cache keeps the results of parsing in a directory: an index file and a payload file for every
result. A result is served while the content of its file, the time of its last change and the
settings are what they were. The index is held in memory and written by `Cache.flush`; a few
payloads are held in memory too.
-/

namespace SourceSurvey

/-- An open cache. `fingerprint` is the digest that stands for content; `recent` holds payloads,
the last used one first, up to `capacity` of them. -/
structure Cache where
  directory : Path
  settingsDigest : String
  capacity : Nat
  fingerprint : List UInt8 → String
  formatVersion : Nat
  index : PathMap IndexRecord := .empty
  recent : List (Path × CacheEntry) := []
  hits : Nat := 0
  misses : Nat := 0
  savedMicros : Nat := 0
  drafts : Nat := 0
  dirty : Bool := false

/-- The share of hits among all answers, in percent; none of nothing. -/
def hitRate (hits misses : Nat) : Float :=
  let total := (hits + misses) % UInt64.size
  if total = 0 then 0 else Float.ofNat hits / Float.ofNat total * 100

namespace Cache

/-! ## Places -/

/-- The index file. -/
def indexPath (c : Cache) : Path := c.directory.join ⟨"index.json"⟩

/-- The directory of the payload files. -/
def entriesPath (c : Cache) : Path := c.directory.join ⟨"entries"⟩

/-- The payload file of a source file, named for the path under which the file is remembered. -/
def payloadPath (c : Cache) (t : Tree) (p : Path) : Path :=
  c.entriesPath.join ⟨c.fingerprint (t.key p).text.toUTF8.toList ++ ".json"⟩

/-! ## Opening -/

/-- The records of an index file; one of another version, or one that cannot be read, has none. -/
def readIndex (version : Nat) (t : Tree) (p : Path) : PathMap IndexRecord :=
  match (t.readText p).toOption.bind fun text => (Json.parse text).bind IndexFile.ofJson? with
  | some file =>
    if file.version = version then .ofList (file.records.map fun r => (r.stamp.path, r))
    else .empty
  | none => .empty

/-- The number of payloads in memory for a setting of none. -/
def defaultCapacity : Nat := 256

/-- Opens the cache in a directory, which is made if it is missing. -/
def openIn (t : Tree) (directory : Path) (settingsDigest : String) (capacity : Nat)
    (formatVersion : Nat) (fingerprint : List UInt8 → String) :
    Tree × Except Failure Cache :=
  let c : Cache :=
    { directory, settingsDigest, fingerprint, formatVersion
      capacity := if capacity = 0 then defaultCapacity else capacity }
  match t.createDirectories c.entriesPath with
  | (t, .error e) => (t, .error (.io e))
  | (t, .ok ()) => (t, .ok { c with index := readIndex formatVersion t c.indexPath })

/-! ## Stamps and changes -/

/-- The stamp of a file with the content that it has now. -/
def stamp? (c : Cache) (t : Tree) (p : Path) : Option FileStamp :=
  match t.locate (t.key p) with
  | .ok (_, .file bytes changed) =>
    some
      { path := t.key p, digest := c.fingerprint bytes, size := bytes.length
        changed? := some changed, parsedAt := t.now }
  | _ => none

/-- Whether a record was made under the current settings and its stamp is that of the file now. -/
def isCurrent (c : Cache) (t : Tree) (key : Path) (r : IndexRecord) : Bool :=
  r.settingsDigest = c.settingsDigest &&
    (match t.locate key with
      | .ok (_, .file bytes changed) =>
        bytes.length = r.stamp.size && some changed = r.stamp.changed? &&
          c.fingerprint bytes = r.stamp.digest
      | _ => false)

/-- Whether a file has to be parsed again. -/
def hasChanged (c : Cache) (t : Tree) (p : Path) : Bool :=
  match c.index.get? (t.key p) with
  | none => true
  | some r => !c.isCurrent t (t.key p) r

/-- The paths of files that have to be parsed again and those of the others; the first ones count
as misses. -/
def changedFiles (c : Cache) (t : Tree) (paths : List Path) : Cache × List Path × List Path :=
  let (changed, same) := paths.partition (c.hasChanged t)
  ({ c with misses := c.misses + changed.length }, changed, same)

/-! ## Payloads in memory -/

/-- The payloads with one used last; the one used longest ago falls out. -/
def use (capacity : Nat) (key : Path) (e : CacheEntry) (recent : List (Path × CacheEntry)) :
    List (Path × CacheEntry) :=
  ((key, e) :: recent.filter fun r => !key.same r.1).take capacity

/-- Forgets the payloads in memory. -/
def clearMemory (c : Cache) : Cache := { c with recent := [] }

/-! ## Writing -/

/-- Writes a file beside its place first and then moves it there. -/
def writeFile (c : Cache) (t : Tree) (p : Path) (bytes : List UInt8) :
    Cache × Tree × Except Failure Unit :=
  let draft := p.withExtension ("tmp." ++ toString c.drafts)
  let c := { c with drafts := c.drafts + 1 }
  match t.write draft bytes with
  | .error e => (c, t, .error (.io e))
  | .ok t =>
    match t.rename draft p with
    | .error e => (c, t, .error (.io e))
    | .ok t => (c, t, .ok ())

/-- The entry for the result of parsing a file. -/
def entryFor (c : Cache) (t : Tree) (stamp : FileStamp) (module : Module) (edges : List Edge)
    (micros : Nat) : CacheEntry :=
  { stamp := { stamp with parseMicros := micros, edgeCount := edges.length }, module, edges
    metadata :=
      { storedAt := t.now, formatVersion := c.formatVersion
        settingsDigest := c.settingsDigest } }

/-- Holds an entry in memory, with its record in the index. -/
def hold (c : Cache) (e : CacheEntry) : Cache :=
  { c with
    index := c.index.insert e.stamp.path
      { stamp := e.stamp, storedAt := e.metadata.storedAt
        settingsDigest := e.metadata.settingsDigest }
    recent := use c.capacity e.stamp.path e c.recent
    dirty := true }

/-- Stores the result of parsing a file. -/
def store (c : Cache) (t : Tree) (p : Path) (module : Module) (edges : List Edge) (micros : Nat) :
    Cache × Tree × Except Failure FileStamp :=
  match c.stamp? t p with
  | none => (c, t, .error (.notFound "source file" p))
  | some stamp =>
    let entry := c.entryFor t stamp module edges micros
    match c.writeFile t (c.payloadPath t p) entry.toJson.compact.toUTF8.toList with
    | (c, t, .error e) => (c, t, .error e)
    | (c, t, .ok ()) => (c.hold entry, t, .ok entry.stamp)

/-- Writes the index, if it has changed since the last time. -/
def flush (c : Cache) (t : Tree) : Cache × Tree × Except Failure Unit :=
  if !c.dirty then (c, t, .ok ())
  else
    let file : IndexFile := { version := c.formatVersion, records := c.index.values }
    match c.writeFile t c.indexPath file.toJson.pretty.toUTF8.toList with
    | (c, t, .error e) => (c, t, .error e)
    | (c, t, .ok ()) => ({ c with dirty := false }, t, .ok ())

/-! ## Removing -/

/-- Removes the record and the payload of a file and tells whether there was a record. -/
def invalidate (c : Cache) (t : Tree) (p : Path) : Cache × Tree × Bool :=
  let key := t.key p
  let removed := c.index.contains key
  let payload := c.payloadPath t p
  ({ c with
      index := c.index.erase key
      recent := c.recent.filter fun r => !key.same r.1
      dirty := c.dirty || removed },
    if t.exists? payload then (t.removeFile payload).toOption.getD t else t,
    removed)

/-- Removes several records with their payloads. -/
def invalidateAll (c : Cache) (t : Tree) : List Path → Cache × Tree
  | [] => (c, t)
  | p :: rest =>
    let (c, t, _) := c.invalidate t p
    c.invalidateAll t rest

/-- The days that a signed number of 64 bits holds. -/
def signedDays (days : Nat) : Int := Int.bmod (days : Int) UInt64.size

/-- The greatest number of days that is a span of time. -/
def longestSpan : Int := 106751991167

/-- Whether a record was stored a number of days ago or earlier. -/
def isStale (now : Instant) (days : Int) (r : IndexRecord) : Bool :=
  days * Instant.nanosPerDay ≤ now.since r.storedAt

/-- The keys of the records that were stored a number of days ago or earlier. -/
def staleKeys (c : Cache) (now : Instant) (days : Int) : List Path :=
  (c.index.entries.filter fun (_, r) => isStale now days r).map Prod.fst

/-- Removes the records that were stored a number of days ago or earlier and answers how many they
were. A number of days that is no span of time is refused by `none`. -/
def cleanup (c : Cache) (t : Tree) (days : Nat) : Option (Cache × Tree × Except Failure Nat) :=
  if longestSpan < (signedDays days).natAbs then none
  else
    let stale := c.staleKeys t.now (signedDays days)
    let (c, t) := c.invalidateAll t stale
    if stale.isEmpty then some (c, t, .ok 0)
    else
      let (c, t, result) := c.flush t
      some (c, t, result.map fun _ => stale.length)

/-- Removes everything that is stored. -/
def clear (c : Cache) (t : Tree) : Cache × Tree × Except Failure Unit :=
  let c := { c with index := .empty, recent := [] }
  match if t.exists? c.entriesPath then t.removeDirectory c.entriesPath else .ok t with
  | .error e => (c, t, .error (.io e))
  | .ok t =>
    match t.createDirectories c.entriesPath with
    | (t, .error e) => (c, t, .error (.io e))
    | (t, .ok ()) =>
      match if t.exists? c.indexPath then t.removeFile c.indexPath else .ok t with
      | .error e => (c, t, .error (.io e))
      | .ok t => ({ c with dirty := false }, t, .ok ())

/-! ## Looking up -/

/-- The payload of a file as it is stored, if it fits its record. -/
def readPayload? (c : Cache) (t : Tree) (p : Path) (r : IndexRecord) : Option CacheEntry := do
  let text ← (t.readText (c.payloadPath t p)).toOption
  let e ← (Json.parse text).bind CacheEntry.ofJson?
  if e.metadata.formatVersion = c.formatVersion && e.stamp.digest = r.stamp.digest then some e
  else none

/-- Counts a result that was served and the time that it saved, in microseconds modulo 2^64. -/
def countHit (c : Cache) (r : IndexRecord) : Cache :=
  { c with
    hits := c.hits + 1
    savedMicros := (c.savedMicros + r.stamp.parseMicros) % UInt64.size }

/-- Counts a result that was not served. -/
def countMiss (c : Cache) : Cache := { c with misses := c.misses + 1 }

/-- The stored result of a file, whether or not the file has changed. A record whose payload cannot
be read is removed. -/
def load (c : Cache) (t : Tree) (p : Path) : Cache × Tree × Option CacheEntry :=
  let key := t.key p
  match c.index.get? key with
  | none => (c.countMiss, t, none)
  | some r =>
    match c.recent.find? fun e => key.same e.1 with
    | some (_, e) =>
      ({ c with recent := use c.capacity key e c.recent }.countHit r, t, some e)
    | none =>
      match c.readPayload? t p r with
      | some e => ({ c with recent := use c.capacity key e c.recent }.countHit r, t, some e)
      | none =>
        let (c, t, _) := c.invalidate t p
        (c.countMiss, t, none)

/-- The stored result of a file that has not changed. -/
def get (c : Cache) (t : Tree) (p : Path) : Cache × Tree × Option CacheEntry :=
  if c.hasChanged t p then (c.countMiss, t, none) else c.load t p

/-- The stored results of several files. -/
def collect (lookup : Cache → Tree → Path → Cache × Tree × Option CacheEntry) (c : Cache)
    (t : Tree) (found : PathMap CacheEntry) : List Path → Cache × Tree × PathMap CacheEntry
  | [] => (c, t, found)
  | p :: rest =>
    let (c, t, e?) := lookup c t p
    collect lookup c t
      (match e? with
        | some e => found.insert p e
        | none => found)
      rest

/-- The stored results of those files that have not changed. -/
def bulkLoad (c : Cache) (t : Tree) (paths : List Path) : Cache × Tree × PathMap CacheEntry :=
  collect get c t .empty paths

/-- The stored results of files that are known not to have changed. -/
def bulkLoadUnchanged (c : Cache) (t : Tree) (paths : List Path) :
    Cache × Tree × PathMap CacheEntry :=
  collect load c t .empty paths

/-! ## Statistics -/

/-- The number of stored files. -/
def size (c : Cache) : Nat := c.index.size

/-- The bytes of the index file and of the payload files. -/
def diskBytes (c : Cache) (t : Tree) : Nat :=
  let index := ((t.metadata c.indexPath).map Prod.fst).toOption.getD 0
  match t.locate c.entriesPath with
  | .ok (place, .directory) =>
    t.nodes.foldl (fun total (p, node) =>
      match node with
      | .file bytes _ =>
        if p.length = place.length + 1 && place.isPrefixOf p then total + bytes.length else total
      | _ => total) index
  | _ => index

end Cache
end SourceSurvey
