/-
FatJar.Command.Inspect — the command `inspect`.

An archive is shown as a list of rows, one for each entry, followed by the
number of its entries and by the class that its manifest names. Of several
manifests the last counts; one that cannot be read ends the list.

Contents:
1. rows;
2. inspecting an archive;
3. what is written.
-/
import FatJar.Archive.Source
import FatJar.Command.Failure
import FatJar.Command.Style
import FatJar.Manifest.Reader

namespace FatJar.Command

/-! ## 1. Rows -/

/-- What is shown of an entry. -/
inductive Row where
  | directory (name : String)
  | file (size : Nat) (name : String)
  deriving DecidableEq, Repr

/-- The row of an entry. -/
def Row.ofEntry (e : Entry) : Row :=
  if e.isDirectory then .directory e.name else .file e.payload.length e.name

/-! ## 2. Inspecting -/

/-- The rows of an archive and its manifest. If a manifest cannot be read, its row is the last. -/
structure Inspection where
  rows : List Row
  manifest : Except Manifest.Error (Option Manifest)

/-- The manifest after an entry, where `m` is the one before it. -/
def manifestAfter (e : Entry) (m : Option Manifest) : Except Manifest.Error (Option Manifest) :=
  if !e.isDirectory && Manifest.isPath e.name then (Manifest.ofBytes e.payload).map some
  else .ok m

/-- Inspects entries, where `m` is the manifest found before them. -/
def inspectEntries (m : Option Manifest) : List Entry → Inspection
  | [] => ⟨[], .ok m⟩
  | e :: rest =>
    match manifestAfter e m with
    | .error fault => ⟨[.ofEntry e], .error fault⟩
    | .ok m =>
      let others := inspectEntries m rest
      ⟨.ofEntry e :: others.rows, others.manifest⟩

/-- Inspects the archive at a path. -/
def inspect (t : FileTree) (path : Path) : Except Failure Inspection :=
  match (Source.mk .container path).read t with
  | .error e => .error (.read e)
  | .ok archive => .ok (inspectEntries none archive.entries)

/-- The class that the inspected archive runs. -/
def Inspection.mainClass? (i : Inspection) : Option String :=
  match i.manifest with
  | .ok (some m) => m.mainClass?
  | _ => none

/-! ## 3. Messages -/

/-- What is written for a row. -/
def Row.pieces : Row → List Piece
  | .directory name => [.plain (column "-"), note name]
  | .file size name => [.plain (column (toString size) ++ name)]

/-- What is written at the end. -/
def summary (entries : Nat) (mainClass : Option String) : List Piece :=
  newline :: field "entries" (toString entries) ++
    match mainClass with
    | some name => field "main-class" name
    | none => [warning "No Main-Class in manifest", newline]

/-- What is written about an archive, and the failure with which that ends. -/
def Inspection.report (i : Inspection) : List Piece × Option Failure :=
  match i.manifest with
  | .ok _ =>
    (i.rows.flatMap (fun row => row.pieces ++ [newline]) ++ summary i.rows.length i.mainClass?,
      none)
  | .error fault =>
    (i.rows.dropLast.flatMap (fun row => row.pieces ++ [newline]) ++
      (i.rows.getLast?.map Row.pieces).getD [], some (.manifest fault))

end FatJar.Command
