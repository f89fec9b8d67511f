import SourceSurvey.Decimal.Fixed
import SourceSurvey.Schedule.Metrics

/-!
# Amounts for readers

Sizes are written in the largest unit up to the gigabyte that leaves at least one, with two
decimals; spans of time in seconds below a minute and in minutes and whole seconds from there on.
-/

namespace SourceSurvey
namespace CommandLine

/-- The units above the byte, each 1024 times the one before. -/
def units : List String := ["KB", "MB", "GB"]

/-- An amount of 1024 bytes or more, in the first of the units that leaves less than 1024 or else
in the last one. -/
def inUnits (amount : Float) : List String → String
  | [] => ""
  | [unit] => Decimal.fixed 2 (amount / 1024) ++ " " ++ unit
  | unit :: rest =>
    let amount := amount / 1024
    if amount < 1024 then Decimal.fixed 2 amount ++ " " ++ unit else inUnits amount rest

/-- A size in bytes. -/
def formatBytes (bytes : Nat) : String :=
  let amount := Float.ofNat bytes
  if amount < 1024 then toString bytes ++ " B" else inUnits amount units

/-- A span of nanoseconds. -/
def formatSpan (nanos : Nat) : String :=
  let seconds := nanos / 1000000000
  if seconds < 60 then Decimal.fixed 2 (spanSeconds nanos) ++ "s"
  else toString (seconds / 60) ++ "m " ++ toString (seconds % 60) ++ "s"

end CommandLine
end SourceSurvey
