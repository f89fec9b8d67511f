import SourceSurvey.Cache.Basic
import SourceSurvey.Discovery
import SourceSurvey.Export
import SourceSurvey.Relationship
import SourceSurvey.Schedule.Coordinator
import SourceSurvey.Settings.Codec

/-!
# The pipeline

A survey goes through seven stages: discover the files, tell the changed ones from those whose
results are stored, parse the changed ones, merge, extract the edges, store the new results and
export. A stage that fails ends the survey.
-/

namespace SourceSurvey

/-- The stages of a survey. -/
inductive Stage where
  | discover
  | diff
  | parse
  | merge
  | extract
  | persist
  | export
  deriving DecidableEq, Repr

namespace Stage

/-- The written name. -/
def name : Stage → String
  | discover => "discover"
  | diff => "diff"
  | parse => "parse"
  | merge => "merge"
  | extract => "extract"
  | persist => "persist"
  | «export» => "export"

/-- All stages in their order. -/
def all : List Stage := [discover, diff, parse, merge, extract, persist, «export»]

/-- The stages by their written names. -/
def names : List (String × Stage) := all.map fun s => (s.name, s)

end Stage

/-- The counters of a cache at some time. -/
structure CacheStatistics where
  hits : Nat
  misses : Nat
  files : Nat
  savedMicros : Nat
  diskBytes : Nat

namespace Cache

/-- The counters of a cache. -/
def statistics (c : Cache) (t : Tree) : CacheStatistics :=
  { hits := c.hits, misses := c.misses, files := c.size, savedMicros := c.savedMicros
    diskBytes := c.diskBytes t }

end Cache

/-- What the stages before the export found. `parsed` lists the files that were parsed and not
served, `asked` those that the parser was asked for. -/
structure Findings where
  modules : PathMap Module
  edges : List Edge
  failures : List FailureRecord
  metrics : Metrics Float
  execution : Execution
  parsed : List Path
  asked : List Path

/-- What a survey found and exported. -/
structure Survey extends Findings where
  cache? : Option CacheStatistics
  stages : List Stage
  summary : ExportSummary

/-- A pipeline: an optional cache, the discovery, the processor and the export. The hooks of the
monitor stand for emptying the memory of the cache. -/
structure Pipeline where
  cache? : Option Cache
  discovery : Discovery
  processor : Processor Float Unit
  exporter : Exporter := .none

namespace Pipeline

/-- The number of processors of the machine. -/
def cpus : Nat := 16

/-- The processor that settings describe. -/
def processorOf (s : Settings) (monitor : Monitor Unit) (reading : Float) : Processor Float Unit :=
  { settings := s.scheduler
    largeFiles := { plan := s.chunking.plan, threshold := s.chunking.largeFileThreshold }
    estimate := fun task => estimateMegabytes task.size
    cpus, reading, monitor
    ledger := .ofLimit (Float.ofNat s.memory.maxMegabytes)
    tracker := .ofTotal 0 }

/-- Opens the cache that settings describe. -/
def openCache (s : Settings) (t : Tree) : Tree × Except Failure Cache :=
  Cache.openIn t s.cache.directory s.digest s.cache.payloadEntries Settings.formatVersion
    Digest.Blake3.hexHash

/-- Makes a pipeline. The cache is opened before the patterns are read. -/
def create (s : Settings) (t : Tree) (monitor : Monitor Unit) (reading : Float) :
    Tree × Except Failure Pipeline :=
  match s.validate with
  | .error e => (t, .error e)
  | .ok () =>
    let opened : Tree × Except Failure (Option Cache) :=
      if s.cache.enabled then
        match openCache s t with
        | (t, .error e) => (t, .error e)
        | (t, .ok c) => (t, .ok (some c))
      else (t, .ok none)
    match opened with
    | (t, .error e) => (t, .error e)
    | (t, .ok cache?) =>
      let monitor := if cache?.isSome then monitor.register () else monitor
      match Discovery.ofSettings s.discovery with
      | .error e =>
        (t, .error e)
      | .ok discovery =>
        (t, .ok { cache?, discovery, processor := processorOf s monitor reading })

/-- The files that have to be parsed, in order, and the stored modules of the others. -/
def diff (p : Pipeline) (t : Tree) (files : List Path) :
    Pipeline × Tree × List Path × PathMap Module :=
  match p.cache? with
  | none => (p, t, files, .empty)
  | some c =>
    let (c, changed, same) := c.changedFiles t files
    let (c, t, loaded) := c.bulkLoadUnchanged t same
    let lost := same.filter fun path => !loaded.contains path
    ({ p with cache? := some c }, t,
      (changed ++ lost).mergeSort (fun a b => (a.order b).isLE),
      ⟨loaded.entries.map fun (path, e) => (path, e.module)⟩)

/-- Stores the results of files. A result that cannot be stored is left out. -/
def storeAll (c : Cache) (t : Tree) (modules : PathMap Module) (edges : List Edge) :
    List Path → Cache × Tree
  | [] => (c, t)
  | p :: rest =>
    match modules.get? p with
    | none => storeAll c t modules edges rest
    | some m =>
      let own := edges.filter fun e => m.path.same e.sourcePath
      let (c, t, _) := c.store t p m own 0
      storeAll c t modules edges rest

/-- Stores the results of parsed files and writes the index. -/
def persist (p : Pipeline) (t : Tree) (parsed : List Path) (modules : PathMap Module)
    (edges : List Edge) : Pipeline × Tree × Except Failure Unit :=
  match p.cache? with
  | none => (p, t, .ok ())
  | some c =>
    let (c, t) := storeAll c t modules edges parsed
    let (c, t, result) := c.flush t
    ({ p with cache? := some c }, t, result)

/-- Announces the beginning of a stage. -/
def begin (p : Pipeline) (s : Stage) : Pipeline :=
  { p with processor := { p.processor with tracker := p.processor.tracker.beginStage s.name } }

/-- Announces the end of a stage. -/
def finish (p : Pipeline) (s : Stage) : Pipeline :=
  { p with processor := { p.processor with tracker := p.processor.tracker.endStage s.name 0 } }

/-- Does something as a stage, whose beginning and end are announced. -/
def during {β : Type} (p : Pipeline) (s : Stage) (act : Pipeline → Pipeline × β) : Pipeline × β :=
  let (p, b) := act (p.begin s)
  (p.finish s, b)

/-- Empties the memory of the cache if there was a clean-up since some count. -/
def afterCleanups (p : Pipeline) (before : Nat) : Pipeline :=
  if before < p.processor.monitor.collections then { p with cache? := p.cache?.map Cache.clearMemory }
  else p

/-- A clean-up at request. -/
def cleanup (p : Pipeline) : Pipeline :=
  { p with
    processor := { p.processor with monitor := p.processor.monitor.cleanup }
    cache? := p.cache?.map Cache.clearMemory }

/-- Parses files. -/
def parse (p : Pipeline) (t : Tree) (parser : Parser) (files : List Path) :
    Pipeline × RunOutcome Float :=
  let (processor, outcome) := p.processor.processFiles t parser files
  ({ p with processor }.afterCleanups p.processor.monitor.collections, outcome)

/-- The stored modules with those that have been parsed. -/
def merge (stored parsed : PathMap Module) : PathMap Module :=
  parsed.entries.foldl (fun m e => m.insert e.1 e.2) stored

/-- The stages of a survey before the export. -/
def gather (p : Pipeline) (t : Tree) (parser : Parser) (roots : List Path) :
    Pipeline × Tree × Except Failure Findings :=
  match p.during .discover fun p => (p, p.discovery.discover t roots) with
  | (p, .error e) => (p, t, .error e)
  | (p, .ok files) =>
    let (p, t, changed, stored) := p.during .diff fun p => p.diff t files
    let (p, outcome) := p.during .parse fun p => p.parse t parser changed
    let (p, modules) := p.during .merge fun p => (p, merge stored outcome.modules)
    let (p, edges) := p.during .extract fun p => (p, modules.edges)
    let parsed := outcome.modules.keys
    let (p, t, result) := p.during .persist fun p => p.persist t parsed modules edges
    (p, t, result.map fun _ =>
      { modules, edges, parsed
        failures := outcome.failures
        metrics := { outcome.metrics with total := files.length, skipped := stored.size }
        execution := outcome.execution
        asked := outcome.asked })

/-- Surveys the files under some roots. -/
def run (p : Pipeline) (t : Tree) (parser : Parser) (roots : List Path) :
    Pipeline × Tree × Except Failure Survey :=
  match p.gather t parser roots with
  | (p, t, .error e) => (p, t, .error e)
  | (p, t, .ok found) =>
    match p.during .export fun p => (p, p.exporter.run t found.modules found.edges) with
    | (p, t, .error e) => (p, t, .error e)
    | (p, t, .ok summary) =>
      (p, t, .ok
        { found with
          summary
          cache? := p.cache?.map (·.statistics t)
          stages := Stage.all })

/-- Closes a pipeline, which writes the index of its cache. -/
def close (p : Pipeline) (t : Tree) : Tree :=
  match p.cache? with
  | some c => (c.flush t).2.1
  | none => t

end Pipeline
end SourceSurvey
