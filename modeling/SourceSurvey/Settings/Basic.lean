import SourceSurvey.Settings.Strategy
import SourceSurvey.Chunk.Plan
import SourceSurvey.Memory.Ledger

/-!
# Settings

The settings of a run in six sections, with their built-in values and the rules that a usable
configuration obeys (`Settings.validate`). The directory of the cache has a default that depends on
the environment.
-/

namespace SourceSurvey

/-- The variables of a process and the home directory that the list of accounts names. -/
structure Environment where
  bindings : List (String × String)
  accountHome? : Option String := none

/-- The value of a variable. -/
def Environment.get? (e : Environment) (name : String) : Option String := e.bindings.lookup name

structure GeneralSettings where
  version : String := "0.1.0"
  logLevel : String := "info"
  deriving DecidableEq, Repr

structure CacheSettings where
  enabled : Bool := true
  directory : Path
  staleMaxAgeDays : Nat := 30
  payloadEntries : Nat := 256
  deriving DecidableEq, Repr

structure SchedulerSettings where
  parallel : Bool := true
  maxWorkers : Nat := 8
  strategy : Strategy := .adaptive
  maxRetries : Nat := 3
  deriving DecidableEq, Repr

structure MemorySettings where
  maxMegabytes : Nat := 2048
  cleanupThreshold : Nat := 1536
  deriving DecidableEq, Repr

structure ChunkSettings where
  largeFileThreshold : Nat := 1024 * 1024
  maxLines : Nat := 1000
  maxBytes : Nat := 512 * 1024
  overlap : Nat := 10
  detectBoundaries : Bool := true
  deriving DecidableEq, Repr

structure DiscoverySettings where
  included : List String := ["**/*.py"]
  excluded : List String := ["**/__pycache__/**", "**/node_modules/**", "**/.venv/**"]
  skipHidden : Bool := true
  deriving DecidableEq, Repr

/-- All settings. -/
structure Settings where
  general : GeneralSettings := {}
  cache : CacheSettings
  scheduler : SchedulerSettings := {}
  memory : MemorySettings := {}
  chunking : ChunkSettings := {}
  discovery : DiscoverySettings := {}
  deriving DecidableEq, Repr

/-- The plan for reading files in chunks. -/
def ChunkSettings.plan (s : ChunkSettings) : ChunkPlan :=
  { maxBytes := s.maxBytes, maxLines := s.maxLines, overlap := s.overlap
    detectBoundaries := s.detectBoundaries }

/-! ## Default places -/

namespace Environment

/-- The directory of a person's files: a base variable that holds an absolute path, else a
directory under the home directory. -/
def baseDirectory? (e : Environment) (base fallback : String) : Option Path :=
  match (e.get? base).map Path.mk with
  | some p =>
    if p.isAbsolute then some p else home?
  | none => home?
where
  home? : Option Path :=
    match e.get? "HOME" with
    | some "" | none => e.accountHome?.map fun home => Path.join ⟨home⟩ ⟨fallback⟩
    | some home => some (Path.join ⟨home⟩ ⟨fallback⟩)

/-- Where caches are kept unless the settings say otherwise. -/
def cacheDirectory (e : Environment) : Path :=
  match e.baseDirectory? "XDG_CACHE_HOME" ".cache" with
  | some base => base.join ⟨"strata"⟩
  | none => ⟨".strata/cache"⟩

/-- Where the settings are looked for unless a path is given. -/
def settingsPath? (e : Environment) : Option Path :=
  (e.baseDirectory? "XDG_CONFIG_HOME" ".config").map fun base =>
    (base.join ⟨"strata"⟩).join ⟨"config.toml"⟩

end Environment

namespace Settings

/-- The built-in settings. -/
def default (e : Environment) : Settings := { cache := { directory := e.cacheDirectory } }

/-! ## Rules -/

/-- The levels of the log. -/
def logLevels : List String := ["trace", "debug", "info", "warn", "error"]

/-- The first rule that the settings break, in the order in which the rules are checked. -/
def violation? (s : Settings) : Option String :=
  if !logLevels.contains s.general.logLevel then
    some ("Invalid log level '" ++ s.general.logLevel ++ "'. Must be one of: " ++
      ", ".intercalate logLevels)
  else if s.scheduler.maxWorkers = 0 then some "max_workers must be greater than 0"
  else if s.memory.maxMegabytes = 0 then some "max_memory_mb must be greater than 0"
  else if s.chunking.maxLines = 0 then some "chunk_max_lines must be greater than 0"
  else if s.chunking.maxBytes = 0 then some "chunk_max_bytes must be greater than 0"
  else if s.chunking.maxLines ≤ s.chunking.overlap then
    some ("chunk_overlap_lines (" ++ toString s.chunking.overlap ++
      ") must be smaller than chunk_max_lines (" ++ toString s.chunking.maxLines ++ ")")
  else if s.cache.enabled && s.cache.directory.text = "" then
    some "cache directory must be set when the cache is enabled"
  else none

/-- Accepts settings that break no rule. -/
def validate (s : Settings) : Except Failure Unit :=
  match s.violation? with
  | some rule => .error (.configuration rule)
  | none => .ok ()

end Settings
end SourceSurvey
