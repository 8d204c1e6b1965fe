/-
FatJar.Bundle.Event — what the log says about a bundle.

The events are computed beside the bundle itself: one for each input that is
read, for each manifest that is replaced, for each entry that is left out and
for each duplicate that is resolved. The entry at which merging fails has none.

Contents:
1. events, their levels and their wording;
2. reading inputs;
3. merging;
4. bundling.
-/
import FatJar.Bundle.Writing
import FatJar.Log.Filter
import FatJar.Manifest.Reader

namespace FatJar

/-! ## 1. Events -/

/-- What the log speaks of. -/
inductive Event where
  | loading (config : Path)
  | bundling (inputs : Nat) (output : Path) (policy : DuplicatePolicy)
  | reading (index : Nat) (path : Path)
  | readingAtOnce (jobs inputs : Nat)
  | replacingMainClass (source : Nat) (previous : String)
  | replacingManifest (source : Nat)
  | excluded (name : String) (source : Nat)
  | duplicate (name : String) (kept dropped : Nat)
  | written (output : Path) (entries duplicates : Nat)
  deriving DecidableEq, Repr

namespace Event

/-- How important an event is. -/
def level : Event → Log.Level
  | .bundling _ _ _ | .written _ _ _ => .info
  | .replacingMainClass _ _ => .warn
  | _ => .debug

/-- The part of the program that speaks of an event. -/
def target : Event → String
  | .loading _ => Tool.name ++ "::commands::bundle"
  | _ => Tool.name ++ "::bundler"

/-- The names of what an event tells; each event has a message. -/
def fields : Event → List String
  | .loading _ => ["message", "config"]
  | .bundling _ _ _ => ["message", "inputs", "output", "policy"]
  | .reading _ _ => ["message", "index", "path"]
  | .readingAtOnce _ _ => ["message", "jobs", "inputs"]
  | .replacingMainClass _ _ => ["message", "source", "previous"]
  | .replacingManifest _ => ["message", "source"]
  | .excluded _ _ => ["message", "name", "source"]
  | .duplicate _ _ _ => ["message", "name", "kept", "dropped"]
  | .written _ _ _ => ["message", "output", "entries", "duplicates"]

/-- What a filter of the log asks about an event. -/
def toMessage (e : Event) : Log.Message :=
  ⟨e.target, e.fields, e.level⟩

/-- The wording of an event. -/
def text : Event → String
  | .loading config => "loading project config config=" ++ config.text
  | .bundling inputs output policy =>
    "bundling inputs=" ++ toString inputs ++ " output=" ++ output.text ++
      " policy=" ++ policy.name
  | .reading index path => "reading input index=" ++ toString index ++ " path=" ++ path.text
  | .readingAtOnce jobs inputs =>
    "reading inputs in parallel jobs=" ++ toString jobs ++ " inputs=" ++ toString inputs
  | .replacingMainClass source previous =>
    "replacing input manifest with a different Main-Class source=" ++ toString source ++
      " previous=" ++ previous
  | .replacingManifest source => "replacing input manifest source=" ++ toString source
  | .excluded name source => "excluded name=" ++ name ++ " source=" ++ toString source
  | .duplicate name kept dropped =>
    "duplicate name=" ++ name ++ " kept=" ++ toString kept ++ " dropped=" ++ toString dropped
  | .written output entries duplicates =>
    "bundle written output=" ++ output.text ++ " entries=" ++ toString entries ++
      " duplicates=" ++ toString duplicates

/-- The line of an event: its level, then its wording. -/
def line (e : Event) : String :=
  e.level.name ++ " " ++ e.text

end Event

/-! ## 2. Reading -/

namespace Reading

/-- The events of reading one input after the other, up to the first that fails. -/
def turnEvents (t : FileTree) (index : Nat) : List Source → List Event
  | [] => []
  | source :: rest =>
    .reading index source.path ::
      match source.read t with
      | .error _ => []
      | .ok _ => turnEvents t (index + 1) rest

/-- The events of reading inputs. -/
def events (t : FileTree) (processors requested : Nat) (sources : List Source) : List Event :=
  let jobs := effectiveJobs processors requested sources.length
  if jobs ≤ 1 then turnEvents t 0 sources else [.readingAtOnce jobs sources.length]

end Reading

/-! ## 3. Merging -/

namespace Bundler

/-- The class that the manifest in a payload names, if it can be read and names one. -/
def previousMainClass? (payload : Bytes) : Option String :=
  match Manifest.ofBytes payload with
  | .ok m => m.mainClass?
  | .error _ => none

/-- The event of replacing the manifest of an input. -/
def replacementEvent (b : Bundler) (source : Nat) (payload : Bytes) : Event :=
  match previousMainClass? payload with
  | some previous =>
    if b.manifest.mainClass? == some previous then .replacingManifest source
    else .replacingMainClass source previous
  | none => .replacingManifest source

/-- The events of adding an entry that survives. -/
def addEvents (b : Bundler) (source : Nat) (e : Entry) (t : MergeTable) : List Event :=
  match t.find? e.name, e.kind, b.options.policy with
  | some earlier, .file, .firstWins => [.duplicate e.name earlier.source source]
  | some earlier, .file, .lastWins => [.duplicate e.name source earlier.source]
  | _, _, _ => []

/-- The events of taking an entry without a fault. -/
def takeEvents (b : Bundler) (source : Nat) (e : Entry) (t : MergeTable) : List Event :=
  if Manifest.isPath e.name then [b.replacementEvent source e.payload]
  else if Manifest.isDirectory e.name then []
  else if b.isExcluded e.name then [.excluded e.name source]
  else b.addEvents source e t

/-- The events of taking the entries of an archive, up to the first that fails. -/
def entryEvents (b : Bundler) (source : Nat) (label : String) (seen : List String) :
    List Entry → MergeTable → List Event
  | [], _ => []
  | e :: rest, t =>
    match b.take source label seen e t with
    | .error _ => []
    | .ok next =>
      b.takeEvents source e t ++ b.entryEvents source label (e.name :: seen) rest next

/-- The events of taking archives, up to the first entry that fails. -/
def archiveEvents (b : Bundler) (source : Nat) : List Archive → MergeTable → List Event
  | [], _ => []
  | a :: rest, t =>
    b.entryEvents source a.label [] a.entries t ++
      match b.takeEntries source a.label [] a.entries t with
      | .error _ => []
      | .ok next => b.archiveEvents (source + 1) rest next

/-! ## 4. Bundling -/

/-- The event of a bundle that has been written. -/
def outcomeEvents : Except BundleError BundleReport → List Event
  | .ok r => [.written r.output r.entries r.stats.duplicatesResolved]
  | .error _ => []

/-- The events of merging archives and writing the result. -/
def writingEvents (b : Bundler) (t : FileTree) (inputs : List Archive) (output : Path) :
    List Event :=
  b.archiveEvents 0 inputs .empty ++ outcomeEvents (b.bundleArchives t inputs output).1

/-- The events of a bundle. -/
def events (b : Bundler) (t : FileTree) (processors : Nat) (sources : List Source)
    (output : Path) : List Event :=
  if sources.isEmpty then []
  else
    .bundling sources.length output b.options.policy ::
      Reading.events t processors b.options.jobs sources ++
      match Reading.readInputs t processors b.options.jobs sources with
      | .error _ => []
      | .ok inputs => b.writingEvents t inputs output

end Bundler

end FatJar
