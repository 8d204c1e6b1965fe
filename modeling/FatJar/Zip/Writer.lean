/-
FatJar.Zip.Writer — writing a container.

Directories are stored, files are compressed; every member carries the same
date and its permissions, so that equal members give equal bytes. No two members
may have the same name. Numbers are taken to fit into their fields: there are at
most 65535 members, no name has more bytes than that, and the container stays
below 4 GiB.

Contents:
1. members to be written;
2. their headers and data;
3. the container.
-/
import FatJar.Archive.Basic
import FatJar.Zip.Checksum
import FatJar.Zip.Deflate
import FatJar.Zip.Record

namespace FatJar.Zip

/-! ## 1. Members to be written -/

/-- A directory's name ends in a slash of either kind; one is added where there is none. -/
def directoryName (name : String) : String :=
  if name.toList.getLast?.any EntryName.isSeparator then name else name ++ "/"

/-- The name under which an entry is written. -/
def writtenName (e : Entry) : String :=
  match e.kind with
  | .directory => directoryName e.name
  | .file => e.name

/-- The bytes that an entry brings: a directory has none. -/
def writtenPayload (e : Entry) : Bytes :=
  match e.kind with
  | .directory => []
  | .file => e.payload

/-- The first name that has occurred before. -/
def repeatedName? (seen : List String) : List String → Option String
  | [] => none
  | name :: rest => if seen.contains name then some name else repeatedName? (name :: seen) rest

/-! ## 2. Headers and data -/

/-- The mode of a directory. -/
def directoryMode : Nat := 0o40755

/-- The mode of a file. -/
def fileMode : Nat := 0o100644

/-- The first of January 1980, the earliest date there is. -/
def writtenDate : Nat := 0x0021

/-- The maker of a member with a mode: a Unix system. -/
def unixMaker : Nat := 3 * 256 + Header.neededVersion

/-- The data of an entry in the container. -/
def writtenData (e : Entry) : Bytes :=
  match e.kind with
  | .directory => []
  | .file => deflate e.payload

/-- The header of an entry whose local header starts at the offset and whose data is so long. -/
def headerOf (offset compressedSize : Nat) (e : Entry) : Header :=
  let name := writtenName e
  let isFile := e.kind == .file
  { maker := unixMaker
    flags := if name.toList.all (·.toNat < 0x80) then 0 else Nat.pow 2 Header.utf8Flag
    method := if isFile then Header.deflatedMethod else Header.storedMethod
    time := 0
    date := writtenDate
    crc := (crc32 (writtenPayload e)).toNat
    compressedSize := compressedSize
    size := (writtenPayload e).length
    attributes := (if isFile then fileMode else directoryMode) * Nat.pow 2 16
    offset := offset
    rawName := Text.encode name
    extra := []
    rawComment := [] }

/-! ## 3. The container -/

/-- The members, from the offset on, and the directory headers for them. -/
def layout (offset : Nat) : List Entry → Bytes × Bytes
  | [] => ([], [])
  | e :: rest =>
    let data := writtenData e
    let header := headerOf offset data.length e
    let member := header.writeLocal ++ data
    let (members, directory) := layout (offset + member.length) rest
    (member ++ members, header.write ++ directory)

/-- The container with the given entries. -/
def containerBytes (entries : List Entry) : Bytes :=
  let (members, directory) := layout 0 entries
  let ending : EndRecord :=
    { disk := 0
      directoryDisk := 0
      membersHere := entries.length
      members := entries.length
      directorySize := directory.length
      directoryOffset := members.length
      commentLength := 0 }
  members ++ directory ++ ending.write

/-- Writes a container, or gives the name that occurs twice. -/
def write (entries : List Entry) : Except String Bytes :=
  match repeatedName? [] (entries.map writtenName) with
  | some name => .error name
  | none => .ok (containerBytes entries)

end FatJar.Zip
