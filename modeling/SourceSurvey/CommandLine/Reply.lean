import SourceSurvey.CommandLine.Amounts
import SourceSurvey.CommandLine.Perform
import SourceSurvey.CommandLine.Table
import SourceSurvey.Decimal.Shortest

/-!
# Writing replies

A reply is written for readers, as lines and tables, or as one JSON value. Of the replies only a
survey, the overview of the cache and the settings have a form in JSON; the others read the same in
both formats. A failure is one line on the other channel.
-/

namespace SourceSurvey

/-! ## JSON -/

/-- A number with the fewest digits that read back; what is not finite is `null`. -/
def Json.ofFloat (x : Float) : Json :=
  match Decimal.Binary.ofBits? x.toBits with
  | some b => .decimal (Decimal.shortest Decimal.json b)
  | none => .null

/-- A span of time as whole seconds and the nanoseconds beyond them. -/
def Json.ofSpan (nanos : Nat) : Json :=
  .object [("secs", .natural (nanos / 1000000000)), ("nanos", .natural (nanos % 1000000000))]

namespace Metrics

def toJson (m : Metrics Float) : Json :=
  .object [("total_files", .natural m.total), ("processed_files", .natural m.processed),
    ("failed_files", .natural m.failed), ("skipped_files", .natural m.skipped),
    ("started_at", m.startedAt.toJson), ("finished_at", .optional Instant.toJson m.finishedAt?),
    ("peak_memory_mb", .ofFloat m.peakMemory), ("recovery_count", .natural m.recoveries)]

end Metrics

namespace CacheStatistics

def toJson (c : CacheStatistics) : Json :=
  .object [("hits", .natural c.hits), ("misses", .natural c.misses),
    ("total_cached_files", .natural c.files), ("hit_rate", .ofFloat (hitRate c.hits c.misses)),
    ("time_saved", .ofSpan (c.savedMicros * 1000)), ("disk_bytes", .natural c.diskBytes)]

end CacheStatistics

namespace Survey

def toJson (s : Survey) : Json :=
  .object [("modules", .natural s.modules.size), ("relationships", .natural s.edges.length),
    ("parsed", .array (s.parsed.map Path.toJson)), ("strategy", .string s.execution.name),
    ("metrics", s.metrics.toJson), ("cache", .optional CacheStatistics.toJson s.cache?),
    ("failures", .array (s.failures.map FailureRecord.toJson)),
    ("stages", .array (s.stages.map fun stage =>
      .object [("stage", .string stage.name), ("duration", .ofSpan 0)])),
    ("export", s.summary.toJson)]

end Survey

namespace CommandLine

/-! ## Lines -/

/-- A line that reports success. -/
def successLine (text : String) : String := "✓ " ++ text

/-- A line that warns. -/
def warningLine (text : String) : String := "⚠ " ++ text

/-- A line that reports a failure. -/
def failureLine (text : String) : String := "✗ " ++ text

/-- The two lines of a heading. -/
def heading (text : String) : List String := ["", text]

/-- A line with a name and its value. -/
def entry (name value : String) : String := "  " ++ name ++ ": " ++ value

/-- The line about the cache of a survey. -/
def cacheLine (c : CacheStatistics) : String :=
  entry "Cache" <|
    toString c.hits ++ " hits, " ++ toString c.misses ++ " misses (" ++
      Decimal.fixed 1 (hitRate c.hits c.misses) ++ "%), " ++ formatSpan (c.savedMicros * 1000) ++
      " saved"

/-- The line about the export of a survey, if there was one. -/
def exportLine? (s : ExportSummary) : Option String :=
  s.destination?.map fun p =>
    entry "Export" (p.text ++ " (" ++ formatBytes s.bytesWritten ++ ")")

/-- The lines of a table. -/
def tableLines (heads : List String) (rows : List (List String)) : List String :=
  (drawTable heads rows).map String.ofList

/-- The lines about the failures of a survey, or about its success. -/
def verdict (s : Survey) : List String :=
  if s.failures.isEmpty then
    [successLine ("Analyzed " ++ toString s.modules.size ++ " modules")]
  else
    warningLine (toString s.failures.length ++ " files failed") ::
      tableLines ["File", "Kind", "Attempts", "Error"] (s.failures.map fun f =>
        [f.path.text, f.kind.name, toString f.attempts, f.message])

/-- The lines about a survey. -/
def surveyLines (s : Survey) : List String :=
  let m := s.metrics
  let finished := m.finishedAt?.getD m.startedAt
  heading "Run summary" ++
    [entry "Files" (toString m.total), entry "Parsed" (toString m.processed),
      entry "From cache" (toString m.skipped), entry "Failed" (toString m.failed),
      entry "Strategy" s.execution.name, entry "Relationships" (toString s.edges.length),
      entry "Success rate" (Decimal.fixed 1 m.successRate ++ "%"),
      entry "Duration" (formatSpan (m.nanos finished)),
      entry "Throughput" (Decimal.fixed 1 (m.throughput finished) ++ " files/s"),
      entry "Peak admitted memory" (Decimal.fixed 1 m.peakMemory ++ " MB")] ++
    (s.cache?.map cacheLine).toList ++ (exportLine? s.summary).toList ++
    tableLines ["Stage", "Duration"] (s.stages.map fun stage => [stage.name, "0.0 ms"]) ++
    verdict s

/-- The lines of a reply. -/
def Reply.lines : Reply → List String
  | surveyed s => surveyLines s
  | cacheOverview directory entries diskBytes digest =>
    heading "Cache" ++
      [entry "Directory" directory.text, entry "Entries" (toString entries),
        entry "Size on disk" (formatBytes diskBytes),
        entry "Config digest" (String.ofList (digest.toList.take 12))]
  | cleaned removed days =>
    [successLine ("Removed " ++ toString removed ++ " entries older than " ++ toString days ++
      " days")]
  | invalidated results =>
    results.map fun (path, removed) =>
      if removed then successLine ("Invalidated " ++ path.text)
      else warningLine (path.text ++ " was not cached")
  | cacheCleared => [successLine "Cache cleared"]
  | aborted => [warningLine "Aborted"]
  | wroteSettings path => [successLine ("Wrote default configuration to " ++ path.text)]
  | settings _ => []

/-- The JSON form of a reply, if it has one. -/
def Reply.json? : Reply → Option Json
  | surveyed s => some s.toJson
  | cacheOverview directory entries diskBytes digest =>
    some <| .object [("directory", directory.toJson), ("entries", .natural entries),
      ("disk_bytes", .natural diskBytes), ("config_digest", .string digest)]
  | settings s => some s.toJson
  | cleaned _ _ | invalidated _ | cacheCleared | aborted | wroteSettings _ => none

/-- Lines with a line feed at the end of each. -/
def joinLines (lines : List String) : String := String.join (lines.map (· ++ "\n"))

/-- The text of a reply. -/
def Reply.text (r : Reply) (format : Format) : String :=
  match format, r, r.json? with
  | .json, _, some j => j.pretty ++ "\n"
  | _, .settings s, _ => s.toToml
  | _, r, _ => joinLines r.lines

/-! ## Endings -/

/-- What the program leaves behind: the texts on its two channels and its exit code. -/
structure Ending where
  output : String := ""
  errors : String := ""
  code : Nat := 0
  deriving DecidableEq, Repr

/-- The ending of a command. -/
def Outcome.ending (o : Outcome) (format : Format) : Ending :=
  { output := (o.reply?.map (·.text format)).getD ""
    errors := (o.failure?.map fun r => failureLine r.chain ++ "\n").getD ""
    code := if o.brokeDown then 101 else if o.failure?.isSome then 1 else 0 }

/-- The name of the program with its version. -/
def versionText : String := "strata 0.1.0"

/-- How the program is used. -/
def usageText : String := joinLines [
  "strata [--verbose] [--config FILE] [--format human|json] COMMAND",
  "",
  "  run [PATH...] [--no-cache] [--sequential] [--workers N] [--strategy NAME] [--output FILE]",
  "  cache stats | clean [--max-age-days N] | invalidate PATH... | clear [--yes]",
  "  config init [--path FILE] [--force] | show"]

/-- The ending of a command line that names no command to carry out. -/
def Refusal.ending : Refusal → Ending
  | help => { output := usageText }
  | version => { output := versionText ++ "\n" }
  | misuse reason => { errors := "error: " ++ reason ++ "\n\n" ++ usageText, code := 2 }

/-- Runs the program on a command line. -/
def execute (words : List String) (e : Environment) (answer? : Option Bool) (t : Tree) :
    Tree × Ending :=
  match Invocation.parse e words with
  | .error refusal => (t, refusal.ending)
  | .ok i =>
    let (t, outcome) := i.perform e answer? t
    (t, outcome.ending i.format)

end CommandLine
end SourceSurvey
