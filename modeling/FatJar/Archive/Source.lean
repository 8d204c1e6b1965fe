/-
FatJar.Archive.Source — where archives are read from.

A source is a container file or a directory whose files and subdirectories
become entries. A directory is walked from the top: each subdirectory comes
before what is in it, and the names in a directory are taken in their order, so
that the result does not depend on how the system lists them.

Contents:
1. sources;
2. why reading fails, and how that is said;
3. reading a directory;
4. reading a source.
-/
import FatJar.Archive.Basic
import FatJar.FileTree.Basic
import FatJar.Zip.Reader

namespace FatJar

/-! ## 1. Sources -/

/-- How a source is read. -/
inductive SourceKind where
  | container
  | directory
  deriving DecidableEq, Repr

/-- A path and how it is read. -/
structure Source where
  kind : SourceKind
  path : Path
  deriving DecidableEq, Repr

/-- A path that leads to a directory is read as one, any other as a container. -/
def Source.ofPath (t : FileTree) (p : Path) : Source :=
  if t.isDirectory p then ⟨.directory, p⟩ else ⟨.container, p⟩

/-! ## 2. Failures -/

/-- Why input or output fails. -/
inductive IoFailure where
  /-- The system refuses. -/
  | system (e : FileError)
  /-- A directory was asked for. -/
  | notDirectory (p : Path)
  /-- The file ends inside a record. -/
  | truncated
  /-- Compressed data is cut off or not well formed. -/
  | corrupt
  /-- Nobody has read the input. -/
  | unread
  deriving DecidableEq, Repr

/-- The wording of a failure. -/
def IoFailure.message : IoFailure → String
  | .system e => e.message
  | .notDirectory p => "not a directory: " ++ p.text
  | .truncated => "failed to fill whole buffer"
  | .corrupt => "corrupt deflate stream"
  | .unread => "input was not read"

/-- Why a source cannot be read. -/
inductive ReadError where
  | io (failure : IoFailure)
  | malformed (fault : Zip.Fault)
  deriving DecidableEq, Repr

/-- The wording of a reading error. -/
def ReadError.message : ReadError → String
  | .io failure => failure.message
  | .malformed fault => fault.reason

/-- The reading error of a container. -/
def ReadError.ofZip : Zip.Error → ReadError
  | .malformed fault => .malformed fault
  | .truncated => .io .truncated
  | .corrupt => .io .corrupt

/-! ## 3. Directories -/

/-- The names in the order of their characters. -/
def sortNames (names : List String) : List String :=
  names.mergeSort fun a b => decide (a ≤ b)

/-- Puts together what each name gives, or stops at the first failure. -/
def gather (read : String → Except FileError (List Entry)) :
    List String → Except FileError (List Entry)
  | [] => .ok []
  | name :: rest => do
    let entries ← read name
    let others ← gather read rest
    return entries ++ others

/-- The entries below a directory. Their names start with `stem`; `fuel` bounds the depth, which
only a cycle of links can exceed. -/
def treeEntries (t : FileTree) : Nat → Path → String → Except FileError (List Entry)
  | 0, _, _ => .error .tooManyLinks
  | fuel + 1, directory, stem => do
    let names ← t.list directory
    gather (fun name => do
      let path := directory.join ⟨name⟩
      if t.isDirectory path then
        let entries ← treeEntries t fuel path (stem ++ name ++ "/")
        return Entry.directory (stem ++ name) :: entries
      else
        return [Entry.file (stem ++ name) (← t.read path)]) (sortNames names)

/-- No path without a cycle of links is deeper than this: between two links it passes each
directory at most once. -/
def FileTree.depthBound (t : FileTree) : Nat :=
  (t.nodes.length + 1) * (FileTree.maxLinks + 1) + 1

/-! ## 4. Reading -/

/-- The entries of a source. -/
def Source.entries (t : FileTree) (s : Source) : Except ReadError (List Entry) :=
  match s.kind with
  | .container =>
    match t.read s.path with
    | .error e => .error (.io (.system e))
    | .ok bytes => (Zip.read bytes).mapError ReadError.ofZip
  | .directory =>
    if t.isDirectory s.path then
      (treeEntries t t.depthBound s.path "").mapError fun e => .io (.system e)
    else .error (.io (.notDirectory s.path))

/-- The archive of a source, labelled with its path. -/
def Source.read (t : FileTree) (s : Source) : Except ReadError Archive := do
  return ⟨s.path.text, ← s.entries t⟩

end FatJar
