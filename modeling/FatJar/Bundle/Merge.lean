/-
FatJar.Bundle.Merge — several archives in one.

Archives are taken in their order, and the entries of each in theirs. An entry
of a new name is added at the end. A directory that is already there adds
nothing. A file of a name that is already there is treated as the policy says;
where the last one wins, it takes over the place of the first. The manifests of
the inputs are replaced by that of the bundle.

Contents:
1. merged entries, counts and tables;
2. adding an entry that survives;
3. one entry, one archive, all archives;
4. the merged archive.
-/
import FatJar.Bundle.Bundler

namespace FatJar

/-! ## 1. Tables -/

/-- An entry of a merged archive and the input that its payload comes from. -/
structure MergedEntry where
  name : String
  kind : EntryKind
  payload : Bytes
  source : Nat
  deriving DecidableEq, Repr

/-- The merged entry as an entry. -/
def MergedEntry.toEntry (e : MergedEntry) : Entry :=
  ⟨e.name, e.kind, e.payload⟩

/-- What has been done with the entries that were not added. -/
structure MergeStats where
  duplicatesResolved : Nat
  excluded : Nat
  manifestsReplaced : Nat
  deriving DecidableEq, Repr

/-- Nothing has been done yet. -/
def MergeStats.zero : MergeStats := ⟨0, 0, 0⟩

/-- The entries merged so far. -/
structure MergeTable where
  entries : List MergedEntry
  stats : MergeStats
  deriving DecidableEq, Repr

namespace MergeTable

/-- The table before the first entry. -/
def empty : MergeTable := ⟨[], .zero⟩

/-- The entry of a name. -/
def find? (t : MergeTable) (name : String) : Option MergedEntry :=
  t.entries.find? fun e => e.name == name

/-- Counts an entry that is left out. -/
def countExcluded (t : MergeTable) : MergeTable :=
  { t with stats := { t.stats with excluded := t.stats.excluded + 1 } }

/-- Counts a manifest that is replaced. -/
def countManifest (t : MergeTable) : MergeTable :=
  { t with stats := { t.stats with manifestsReplaced := t.stats.manifestsReplaced + 1 } }

/-- Counts a duplicate that is resolved. -/
def countDuplicate (t : MergeTable) : MergeTable :=
  { t with stats := { t.stats with duplicatesResolved := t.stats.duplicatesResolved + 1 } }

/-- Adds an entry at the end. -/
def append (t : MergeTable) (e : MergedEntry) : MergeTable :=
  { t with entries := t.entries ++ [e] }

/-- Gives the entries of a name another payload and source. -/
def replace (t : MergeTable) (name : String) (payload : Bytes) (source : Nat) : MergeTable :=
  { t with entries := t.entries.map fun e =>
      if e.name == name then { e with payload, source } else e }

/-! ## 2. Entries that survive -/

/-- Adds an entry of input `source`, which may be a duplicate. -/
def add (t : MergeTable) (policy : DuplicatePolicy) (source : Nat) (e : Entry) :
    Except BundleError MergeTable :=
  match t.find? e.name with
  | none => .ok (t.append ⟨e.name, e.kind, e.payload, source⟩)
  | some earlier =>
    match e.kind with
    | .directory => .ok t
    | .file =>
      match policy with
      | .firstWins => .ok t.countDuplicate
      | .lastWins => .ok (t.replace e.name e.payload source).countDuplicate
      | .error => .error (.duplicateEntry e.name earlier.source source)

end MergeTable

/-! ## 3. Entries and archives -/

/-- A merged archive. -/
structure MergedArchive where
  manifest : Manifest
  entries : List MergedEntry
  stats : MergeStats
  deriving DecidableEq, Repr

namespace Bundler

/-- What is wrong with an entry in an archive that has had entries of the `seen` names. -/
def entryFault? (seen : List String) (e : Entry) : Option ArchiveFault :=
  match EntryName.fault? e.name with
  | some fault => some (.badName fault)
  | none => if seen.contains e.name then some (.repeated e.name) else none

/-- Takes one entry of input `source`. -/
def take (b : Bundler) (source : Nat) (label : String) (seen : List String) (e : Entry)
    (t : MergeTable) : Except BundleError MergeTable :=
  match entryFault? seen e with
  | some fault => .error (.malformedArchive source label fault)
  | none =>
    if Manifest.isPath e.name then .ok t.countManifest
    else if Manifest.isDirectory e.name then .ok t
    else if b.isExcluded e.name then .ok t.countExcluded
    else t.add b.options.policy source e

/-- Takes the entries of an archive that has had entries of the `seen` names. -/
def takeEntries (b : Bundler) (source : Nat) (label : String) (seen : List String) :
    List Entry → MergeTable → Except BundleError MergeTable
  | [], t => .ok t
  | e :: rest, t => do
    let t ← b.take source label seen e t
    takeEntries b source label (e.name :: seen) rest t

/-- Takes archives, of which the first is input `source`. -/
def takeArchives (b : Bundler) (source : Nat) :
    List Archive → MergeTable → Except BundleError MergeTable
  | [], t => .ok t
  | a :: rest, t => do
    let t ← b.takeEntries source a.label [] a.entries t
    takeArchives b (source + 1) rest t

/-! ## 4. The merged archive -/

/-- Merges archives. -/
def merge (b : Bundler) (inputs : List Archive) : Except BundleError MergedArchive :=
  if inputs.isEmpty then .error .emptyInput
  else do
    let t ← b.takeArchives 0 inputs .empty
    return ⟨b.manifest, t.entries, t.stats⟩

end Bundler

/-- The entry of a name in a merged archive. -/
def MergedArchive.get? (m : MergedArchive) (name : String) : Option MergedEntry :=
  m.entries.find? fun e => e.name == name

end FatJar
