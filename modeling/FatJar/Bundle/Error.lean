/-
FatJar.Bundle.Error — why a bundle is refused or fails.

Contents:
1. causes;
2. wording, and the causes beneath a message;
3. kinds of errors, which decide how the command ends.
-/
import FatJar.Archive.Source
import FatJar.Glob.Pattern
import FatJar.Manifest.Basic

namespace FatJar

/-! ## 1. Causes -/

/-- What is wrong with an archive. -/
inductive ArchiveFault where
  | container (fault : Zip.Fault)
  | badName (fault : NameFault)
  | repeated (name : String)
  deriving DecidableEq, Repr

/-- The wording of an archive's fault. -/
def ArchiveFault.reason : ArchiveFault → String
  | .container fault => fault.reason
  | .badName fault => fault.reason
  | .repeated name => "entry " ++ name ++ " appears twice"

/-- Why a bundle cannot be written. -/
inductive WriteError where
  | system (e : FileError)
  | repeatedName (name : String)
  deriving DecidableEq, Repr

/-- The wording of a writing error. -/
def WriteError.message : WriteError → String
  | .system e => e.message
  | .repeatedName name => "invalid Zip archive: Duplicate filename: " ++ name

/-- Why a bundle is refused or fails. Inputs are counted from 0. -/
inductive BundleError where
  | emptyInput
  | invalidEntryPoint (entryPoint : String)
  | invalidPattern (pattern : String) (e : Glob.Error)
  | manifest (e : Manifest.Error)
  | unreadable (index : Nat) (path : String) (failure : IoFailure)
  | malformedArchive (index : Nat) (path : String) (fault : ArchiveFault)
  | duplicateEntry (name : String) (first second : Nat)
  | output (path : Path) (e : WriteError)
  deriving DecidableEq, Repr

namespace BundleError

/-- The error of an input that cannot be read. -/
def ofRead (index : Nat) (path : String) : ReadError → BundleError
  | .io failure => .unreadable index path failure
  | .malformed fault => .malformedArchive index path (.container fault)

/-! ## 2. Wording -/

/-- The wording of an error. -/
def message : BundleError → String
  | .emptyInput => "No input archives given"
  | .invalidEntryPoint entryPoint =>
    "Invalid entry point " ++ Text.quoted entryPoint ++
      ": must be a non-empty single-line class name without surrounding whitespace"
  | .invalidPattern pattern e =>
    "Invalid exclude pattern " ++ Text.quoted pattern ++ ": " ++ e.message
  | .manifest e => "Invalid manifest attribute: " ++ e.message
  | .unreadable index path failure =>
    "Failed to read input #" ++ toString index ++ " (" ++ path ++ "): " ++ failure.message
  | .malformedArchive index path fault =>
    "Malformed archive #" ++ toString index ++ " (" ++ path ++ "): " ++ fault.reason
  | .duplicateEntry name first second =>
    "Duplicate entry " ++ Text.quoted name ++ " in input #" ++ toString first ++
      " and input #" ++ toString second
  | .output path e => "Failed to write output " ++ path.text ++ ": " ++ e.message

/-- The messages of the causes beneath an error. -/
def causes : BundleError → List String
  | .invalidPattern _ e => [e.message]
  | .manifest e => [e.message]
  | .unreadable _ _ failure => [failure.message]
  | .output _ e => [e.message]
  | _ => []

/-! ## 3. Kinds -/

/-- What kind of error it is. -/
inductive Kind where
  | emptyInput
  | invalidArgument
  | io
  | duplicateEntry
  deriving DecidableEq, Repr

/-- The kind of an error. -/
def kind : BundleError → Kind
  | .emptyInput => .emptyInput
  | .invalidEntryPoint _ | .invalidPattern _ _ | .manifest _ => .invalidArgument
  | .unreadable _ _ _ | .malformedArchive _ _ _ | .output _ _ => .io
  | .duplicateEntry _ _ _ => .duplicateEntry

end BundleError

end FatJar
