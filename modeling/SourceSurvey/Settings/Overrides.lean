import SourceSurvey.Settings.Basic

/-!
# Overrides from the environment

Eight variables override single settings. They are applied in one order; the first one that cannot
be read ends the merging and leaves the earlier ones applied.
-/

namespace SourceSurvey
namespace Settings

/-- The truth value that a variable holds. -/
def readBool (name value : String) : Except Failure Bool :=
  let word := value.map Char.toLower
  if ["1", "true", "yes", "on"].contains word then .ok true
  else if ["0", "false", "no", "off"].contains word then .ok false
  else .error (.configuration ("Invalid boolean '" ++ value ++ "' for " ++ name))

/-- The natural number of some bits that a text denotes in decimal digits after an optional plus
sign, or why it denotes none. -/
def parseNatural (bits : Nat) (text : String) : Except String Nat :=
  match text.toList with
  | [] => .error "cannot parse integer from empty string"
  | cs =>
    let digits := match cs with
      | '+' :: rest => rest
      | cs => cs
    if digits.isEmpty || !digits.all Char.isDigit then .error "invalid digit found in string"
    else
      let n := digits.foldl (fun n c => n * 10 + (c.toNat - 48)) 0
      if n < Nat.pow 2 bits then .ok n else .error "number too large to fit in target type"

/-- The natural number that a variable holds. -/
def readNatural (bits : Nat) (name value : String) : Except Failure Nat :=
  match parseNatural bits value with
  | .ok n => .ok n
  | .error reason => .error (.configuration ("Invalid value for " ++ name ++ ": " ++ reason))

/-- A variable and what its value does to the settings. -/
structure Override where
  name : String
  apply : Settings → String → Except Failure Settings

/-- The variables in the order in which they are applied. -/
def overrides : List Override := [
  ⟨"STRATA_LOG_LEVEL", fun s v => .ok { s with general := { s.general with logLevel := v } }⟩,
  ⟨"STRATA_CACHE_ENABLED", fun s v => do
    return { s with cache := { s.cache with enabled := ← readBool "STRATA_CACHE_ENABLED" v } }⟩,
  ⟨"STRATA_CACHE_DIR", fun s v => .ok { s with cache := { s.cache with directory := ⟨v⟩ } }⟩,
  ⟨"STRATA_PARALLEL_ENABLED", fun s v => do
    return { s with scheduler :=
      { s.scheduler with parallel := ← readBool "STRATA_PARALLEL_ENABLED" v } }⟩,
  ⟨"STRATA_MAX_WORKERS", fun s v => do
    return { s with scheduler :=
      { s.scheduler with maxWorkers := ← readNatural 64 "STRATA_MAX_WORKERS" v } }⟩,
  ⟨"STRATA_STRATEGY", fun s v => do
    return { s with scheduler := { s.scheduler with strategy := ← Strategy.parse v } }⟩,
  ⟨"STRATA_MAX_MEMORY_MB", fun s v => do
    return { s with memory :=
      { s.memory with maxMegabytes := ← readNatural 64 "STRATA_MAX_MEMORY_MB" v } }⟩,
  ⟨"STRATA_MAX_RETRIES", fun s v => do
    return { s with scheduler :=
      { s.scheduler with maxRetries := ← readNatural 32 "STRATA_MAX_RETRIES" v } }⟩]

/-- The settings with overrides applied, and the failure that ended the merging. -/
def applyOverrides (e : Environment) (s : Settings) : List Override → Settings × Option Failure
  | [] => (s, none)
  | o :: rest =>
    match e.get? o.name with
    | none => applyOverrides e s rest
    | some value =>
      match o.apply s value with
      | .ok s => applyOverrides e s rest
      | .error failure => (s, some failure)

/-- The settings with what the environment overrides, and the failure that ended the merging. -/
def merge (s : Settings) (e : Environment) : Settings × Option Failure :=
  applyOverrides e s overrides

end Settings
end SourceSurvey
