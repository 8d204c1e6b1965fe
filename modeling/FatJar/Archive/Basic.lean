/-
FatJar.Archive.Basic — archives as ordered lists of named entries.

An entry is a file with a payload or a directory. The names inside an archive
use `/` between their parts and are relative; since some tools take `\` as a
separator too, a name is refused when either reading of it leaves the directory
it is unpacked into.

Contents:
1. entries and archives;
2. which entry names are refused, and how that is said.
-/
import FatJar.Text.Split
import FatJar.Text.Utf8

namespace FatJar

/-! ## 1. Entries and archives -/

/-- What an entry is. -/
inductive EntryKind where
  | file
  | directory
  deriving DecidableEq, Repr

/-- A named member of an archive. The payload of a directory is normally empty. -/
structure Entry where
  name : String
  kind : EntryKind
  payload : Bytes
  deriving DecidableEq, Repr

namespace Entry

/-- A file entry. -/
def file (name : String) (payload : Bytes) : Entry :=
  ⟨name, .file, payload⟩

/-- The name with a slash at its end. -/
def withSlash (name : String) : String :=
  if name.toList.getLast? == some '/' then name else name ++ "/"

/-- A directory entry; its name ends in a slash. -/
def directory (name : String) : Entry :=
  ⟨withSlash name, .directory, []⟩

/-- Whether the entry is a directory. -/
def isDirectory (e : Entry) : Bool :=
  e.kind == .directory

end Entry

/-- An ordered list of entries, with the label under which messages speak of it. -/
structure Archive where
  label : String
  entries : List Entry
  deriving DecidableEq, Repr

/-! ## 2. Entry names -/

/-- Why an entry name is refused. -/
inductive NameFault where
  | empty
  | absolute (name : String)
  | escapes (name : String)
  deriving DecidableEq, Repr

/-- The wording of a refusal. -/
def NameFault.reason : NameFault → String
  | .empty => "empty entry name"
  | .absolute name => "absolute entry name: " ++ name
  | .escapes name => "entry name escapes archive root: " ++ name

namespace EntryName

/-- Both slashes count as separators. -/
def isSeparator (c : Char) : Bool :=
  c == '/' || c == '\\'

/-- The parts of a name between its separators. -/
def parts (name : String) : List (List Char) :=
  Text.splitWhere isSeparator name.toList

/-- Whether the name starts with a separator. -/
def isAbsolute (name : String) : Bool :=
  name.toList.head?.any isSeparator

/-- The fault of a name, or none if it is safe to unpack. -/
def fault? (name : String) : Option NameFault :=
  if name == "" || name == "/" then some .empty
  else if isAbsolute name then some (.absolute name)
  else if (parts name).any (· == ['.', '.']) then some (.escapes name)
  else none

end EntryName

end FatJar
