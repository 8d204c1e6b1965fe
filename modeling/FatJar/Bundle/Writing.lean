/-
FatJar.Bundle.Writing — writing a merged archive.

The manifest comes first, then the entries in merge order. The archive is put
together under a temporary name beside its output and moved there when it is
whole. If anything fails, the directories that were missing before are removed
again.

Contents:
1. the archive as bytes;
2. putting bytes at a path;
3. bundling.
-/
import FatJar.Bundle.Merge
import FatJar.Bundle.Reading
import FatJar.Digest
import FatJar.FileTree.Change
import FatJar.Manifest.Printer
import FatJar.Zip.Writer

namespace FatJar

/-! ## 1. Bytes -/

namespace MergedArchive

/-- The entries to be written: the manifest with its directory, then the merged entries. -/
def writtenEntries (m : MergedArchive) : List Entry :=
  Entry.directory Manifest.directory :: Entry.file Manifest.path m.manifest.toBytes ::
    m.entries.map MergedEntry.toEntry

/-- The merged archive as a container. -/
def toBytes (m : MergedArchive) : Except WriteError Bytes :=
  (Zip.write m.writtenEntries).mapError .repeatedName

end MergedArchive

/-! ## 2. Putting bytes at a path -/

namespace FileTree

/-- The directory in which a file is put. -/
def outputDirectory (output : Path) : Path :=
  match output.parent? with
  | some p => if p.text == "" then ⟨"."⟩ else p
  | none => ⟨"."⟩

/-- The directories that are missing for a directory, itself included, the innermost first. -/
def missing (t : FileTree) (directory : Path) : List Path :=
  directory.ancestors.takeWhile fun p => p.text != "" && !t.pathExists p

/-- Removes those of the directories that are there and empty, in their order. -/
def removeDirectories (t : FileTree) (paths : List Path) : FileTree :=
  paths.foldl (fun t p =>
    match t.removeDirectory p with
    | .ok t => t
    | .error _ => t) t

/-- Puts bytes into a temporary file in the directory and moves it to the output. -/
def persist (t : FileTree) (directory output : Path) (bytes : Bytes) :
    Except FileError FileTree := do
  let (place, written) ← t.createTemporary directory bytes
  written.moveFile place output

/-- Puts bytes at a path, with the directories that are missing above it; if that fails, what was
created is removed. -/
def putAtomically (t : FileTree) (output : Path) (bytes : Bytes) :
    Except FileError Unit × FileTree :=
  let directory := outputDirectory output
  let created := t.missing directory
  match t.createDirectories directory with
  | (.error e, t) => (.error e, t.removeDirectories created)
  | (.ok (), t) =>
    match t.persist directory output bytes with
    | .error e => (.error e, t.removeDirectories created)
    | .ok t => (.ok (), t)

end FileTree

/-! ## 3. Bundling -/

/-- What has been written where. -/
structure BundleReport where
  output : Path
  entries : Nat
  stats : MergeStats
  checksum : Bytes
  deriving DecidableEq, Repr

namespace Bundler

/-- Writes a merged archive to a path. -/
def write (t : FileTree) (merged : MergedArchive) (output : Path) :
    Except BundleError BundleReport × FileTree :=
  match merged.toBytes with
  | .error e => (.error (.output output e), t)
  | .ok bytes =>
    match t.putAtomically output bytes with
    | (.error e, t) => (.error (.output output (.system e)), t)
    | (.ok (), t) =>
      (.ok ⟨output, merged.entries.length + 2, merged.stats, Digest.sha256 bytes⟩, t)

/-- Merges archives and writes the result to a path. -/
def bundleArchives (b : Bundler) (t : FileTree) (inputs : List Archive) (output : Path) :
    Except BundleError BundleReport × FileTree :=
  match b.merge inputs with
  | .error e => (.error e, t)
  | .ok merged => write t merged output

/-- Reads inputs, merges them and writes the result to a path. -/
def bundle (b : Bundler) (t : FileTree) (processors : Nat) (sources : List Source)
    (output : Path) : Except BundleError BundleReport × FileTree :=
  if sources.isEmpty then (.error .emptyInput, t)
  else
    match Reading.readInputs t processors b.options.jobs sources with
    | .error e => (.error e, t)
    | .ok inputs => b.bundleArchives t inputs output

end Bundler

end FatJar
