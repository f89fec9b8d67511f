import SourceSurvey.CommandLine.Reply
import Std.Time.DateTime.Timestamp

/-!
# The program

Standard input lists the files and directories that the program may look at, one on each line: the
time of the last change in seconds since 1970, a tab and the path, as in the output of
`find . -printf '%Ts\t%p\n'`. Their contents are read into a tree, the command is carried out on the
tree, and what it changed there is changed on disk.
-/

namespace SourceSurvey
namespace CommandLine

/-- The variables that a command may depend on. -/
def variableNames : List String :=
  ["HOME", "XDG_CACHE_HOME", "XDG_CONFIG_HOME", settingsVariable] ++
    Settings.overrides.map Settings.Override.name

/-- The variables of the process. -/
def readEnvironment : IO Environment := do
  let found ← variableNames.filterMapM fun name => do
    return (← IO.getEnv name).map fun value => (name, value)
  return { bindings := found }

/-- A line of the list: a time and a path. -/
def parseListed (line : String) : Option (Int × Path) :=
  match Text.cutAt ['\t'] line.toList with
  | some (seconds, path) => (String.ofList seconds).toInt?.map fun s => (s, ⟨String.ofList path⟩)
  | none => none

/-- The lines that are left of an input, without their line feeds. -/
partial def readLines (input : IO.FS.Stream) : IO (List String) := do
  let line ← input.getLine
  if line.isEmpty then return []
  let text := (line.toList.reverse.dropWhile (· == '\n')).reverse
  return String.ofList text :: (← readLines input)

/-- Adds a file to a tree; what cannot be read as a file is added as a directory. -/
def addListed (t : Tree) (listed : Int × Path) : IO Tree := do
  let (seconds, path) := listed
  let parent := path.parent?.getD ⟨"."⟩
  try
    let bytes ← IO.FS.readBinFile path.text
    let t := (t.createDirectories parent).1
    match t.write path bytes.toList with
    | .ok t => return t.touch path ⟨seconds, 0⟩
    | .error _ => return t
  catch _ => return (t.createDirectories path).1

/-- The tree with nothing but the current directory and the directories above it. -/
def bareTree (now : Instant) (current : Place) : Tree :=
  { now, current
    nodes := (List.range current.length).map fun i => (current.take (i + 1), .directory) }

/-- Writes a new or changed node to disk. -/
def writeNode (place : Place) : Node → IO Unit
  | .directory => IO.FS.createDirAll (Tree.pathOf place).text
  | .file bytes _ => do
    IO.FS.createDirAll (Tree.pathOf place.dropLast).text
    IO.FS.writeBinFile (Tree.pathOf place).text (ByteArray.mk bytes.toArray)
  | .link _ => return

/-- Brings the disk from one tree to another. -/
def writeChanges (before after : Tree) : IO Unit := do
  for (place, node) in before.nodes do
    match node, after.find? place with
    | .file _ _, none => IO.FS.removeFile (Tree.pathOf place).text
    | _, _ => pure ()
  for (place, node) in after.nodes do
    unless before.find? place = some node do writeNode place node

/-- Carries out the command that the words name, on the files that standard input lists. -/
def runOnDisk (words : List String) : IO UInt32 := do
  let time ← Std.Time.Timestamp.now
  let now : Instant := ⟨time.toSecondsSinceUnixEpoch.val, 0⟩
  let here : Path := ⟨toString (← IO.currentDir)⟩
  let listed := (← readLines (← IO.getStdin)).filterMap parseListed
  let before ← listed.foldlM addListed (bareTree now (here.pieces.filter (· ≠ "")))
  let (after, ending) := execute words (← readEnvironment) none before
  writeChanges before after
  IO.print ending.output
  IO.eprint ending.errors
  return UInt32.ofNat ending.code

end CommandLine
end SourceSurvey

/-- The command line of the program. -/
def main (words : List String) : IO UInt32 := SourceSurvey.CommandLine.runOnDisk words
