/-
FatJar.Main — the command.

The part of the file system that the command line speaks of is copied into a
file tree, the run is computed there, and what it has added is written back.

Contents:
1. looking at the file system;
2. the tree for a command line;
3. writing back;
4. the settings around the command;
5. the command.
-/
import FatJar.Command.Footprint
import FatJar.Command.Run
import Std.Time.Format

namespace FatJar.Shell

/-! ## 1. Looking -/

/-- The names in the directory at a path, or none if there is no directory. -/
def names? (path : String) : IO (Option (List String)) :=
  try
    let real ← IO.FS.realPath path
    if ← real.isDir then
      let entries ← real.readDir
      return some (entries.toList.map (·.fileName))
    else return none
  catch _ => return none

/-- The content of the file at a path, or none if there is no file. -/
def content? (path : String) : IO (Option Bytes) :=
  try
    let content ← IO.FS.readBinFile path
    return some content.data.toList
  catch _ => return none

/-- The path of a place. -/
def pathOf (place : Place) : String :=
  "/" ++ "/".intercalate place

/-- Takes a step from a place. -/
def stepFrom (place : Place) (step : String) : Place :=
  if step == "." then place
  else if step == ".." then place.dropLast
  else place ++ [step]

/-- The place of a path. -/
def placeOf (t : FileTree) (p : Path) : Place :=
  p.parts.foldl stepFrom (FileTree.start t.workingDirectory p)

/-- Copies what stands at a place, with all that is below it if that is asked for. -/
partial def copyPlace (deep : Bool) (place : Place) (t : FileTree) : IO FileTree := do
  match ← names? (pathOf place) with
  | some names =>
    let mut t := if place.isEmpty then t else t.put place .directory
    if deep then
      for name in names do
        t ← copyPlace deep (place ++ [name]) t
    return t
  | none =>
    if (t.node? place).isSome then return t
    match ← content? (pathOf place) with
    | some content => return t.put place (.file content)
    | none => return t

/-- Copies what stands at a path, and the directories above it. -/
def copyPath (deep : Bool) (t : FileTree) (p : Path) : IO FileTree := do
  let place := placeOf t p
  let mut t := t
  for n in List.range place.length do
    t ← copyPlace false (place.take n) t
  copyPlace deep place t

/-! ## 2. The tree -/

/-- A place where nothing can stand: its name is too long for every system. -/
def nowhere : Place :=
  ["".pushn 'x' (FileTree.maxName + 1)]

/-- The place of the working directory, or `nowhere` if it has been removed. -/
def workingPlace : IO Place :=
  try
    let here ← IO.currentDir
    return (Path.mk here.toString).parts
  catch _ => return nowhere

/-- Copies the footprint of a request. -/
def copyFootprint (request : Command.Request) (t : FileTree) : IO FileTree := do
  let footprint := request.footprint t
  let t ← footprint.whole.foldlM (copyPath true) t
  footprint.edges.foldlM (copyPath false) t

/-- The tree for a command line. The second look finds what the configuration speaks of. -/
def treeFor (words : List String) (workingDirectory : Place) : IO FileTree := do
  let t : FileTree := ⟨[], workingDirectory⟩
  match Command.readArguments words with
  | .error _ => return t
  | .ok invocation =>
    let t ← copyPath false t ⟨"."⟩
    copyFootprint invocation.request (← copyFootprint invocation.request t)

/-! ## 3. Writing back -/

/-- Writes a file under a temporary name and moves it to its place. -/
def writeFile (place : Place) (content : Bytes) : IO Unit := do
  let temporary := pathOf (place.dropLast ++ [FileTree.temporaryName 0])
  IO.FS.writeBinFile temporary ⟨content.toArray⟩
  IO.FS.rename temporary (pathOf place)

/-- Writes what a run has added to a tree. -/
def writeBack (before after : FileTree) : IO Unit :=
  for (place, node) in after.nodes do
    if before.node? place != some node then
      match node with
      | .directory => IO.FS.createDir (pathOf place)
      | .file content => writeFile place content
      | .link _ => pure ()

/-! ## 4. Settings -/

/-- The number of processors, or one if it cannot be found. -/
def processors : IO Nat :=
  try
    let lines ← IO.FS.lines "/proc/cpuinfo"
    return max 1 (lines.toList.filter (·.startsWith "processor")).length
  catch _ => return 1

/-- The settings around the command. -/
def environment : IO Command.Environment := do
  return {
    colorRefused := (← IO.getEnv "NO_COLOR").isSome
    terminal := ← IO.getEnv "TERM"
    logging := ← IO.getEnv "RUST_LOG"
    processors := ← processors }

/-- The time, as it stands in the log. -/
def timestamp : IO String := do
  let now ← Std.Time.Timestamp.now
  return (Std.Time.DateTime.ofTimestamp now .UTC).format "uuuu-MM-dd'T'HH:mm:ss.SSSSSS'Z'"

/-- Writes an event to the log. -/
def writeEvent (e : Event) : IO Unit := do
  IO.eprintln ((← timestamp) ++ " " ++ Command.filling 5 e.level.name ++ e.line)

/-! ## 5. The command -/

/-- Runs the command line on the file system. -/
def runCommand (words : List String) : IO UInt32 := do
  let before ← treeFor words (← workingPlace)
  let outcome := Command.run (← environment) before words
  writeBack before outcome.tree
  outcome.log.forM writeEvent
  IO.print outcome.output
  IO.eprint outcome.errors
  return outcome.exitCode.toUInt32

end FatJar.Shell

/-- Runs the command line; what the system refuses beyond what is foreseen ends with code 4. -/
def main (words : List String) : IO UInt32 := do
  try FatJar.Shell.runCommand words
  catch e =>
    IO.eprintln ("error: " ++ toString e)
    return 4
