/-
FatJar.Zip.Reader — reading a container.

The end record is looked for from the end, so that bytes before and after the
container do no harm. A record that does not lead to a readable directory is
passed over. A name that occurs twice keeps its first place and its last member.

Contents:
1. what can be wrong with a container;
2. where records start;
3. the directory;
4. members and their payload;
5. entries.
-/
import FatJar.Archive.Basic
import FatJar.Zip.Checksum
import FatJar.Zip.Inflate
import FatJar.Zip.Member

namespace FatJar.Zip

/-! ## 1. Faults -/

/-- What can be wrong with the form of a container. -/
inductive Fault where
  | noEndRecord
  | commentPastEnd
  | directoryPastEndRecord
  | noDirectoryHeader
  | badLocalHeader
  | encrypted
  | unsupportedMethod
  | locked
  | badChecksum
  deriving DecidableEq, Repr

/-- The wording of a fault. -/
def Fault.reason : Fault → String
  | .noEndRecord => "invalid Zip archive: Could not find EOCD"
  | .commentPastEnd => "invalid Zip archive: EOCD comment exceeds file boundary"
  | .directoryPastEndRecord => "invalid Zip archive: Invalid CDFH offset in EOCD"
  | .noDirectoryHeader => "invalid Zip archive: No CDFH found"
  | .badLocalHeader => "invalid Zip archive: Invalid local file header"
  | .encrypted => "unsupported Zip archive: Password required to decrypt file"
  | .unsupportedMethod => "unsupported Zip archive: Compression method not supported"
  | .locked => "provided password is incorrect"
  | .badChecksum => "Invalid checksum"

/-- Why a container cannot be read: its form is wrong, it ends inside a record, or compressed
data is cut off or not well formed. -/
inductive Error where
  | malformed (fault : Fault)
  | truncated
  | corrupt
  deriving DecidableEq, Repr

/-! ## 2. Where records start -/

/-- The offsets, from the last to the first, at which the bytes of the signature stand. -/
def offsetsOf (signature : Bytes) (offset : Nat) (found : List Nat) : Bytes → List Nat
  | [] => found
  | b :: rest =>
    if (b :: rest).take signature.length == signature then
      offsetsOf signature (offset + 1) (offset :: found) rest
    else offsetsOf signature (offset + 1) found rest

/-- The offsets of end records, from the last to the first. -/
def endOffsets (bytes : Bytes) : List Nat :=
  offsetsOf (littleEndian 4 EndRecord.signature) 0 [] bytes

/-- The first directory header between two offsets. -/
def firstHeader? (bytes : Bytes) (low high : Nat) : Option Nat :=
  (offsetsOf (littleEndian 4 Header.signature) low [] ((bytes.take high).drop low)).getLast?

/-! ## 3. The directory -/

/-- Where a directory starts, how many members it has, how far its container is shifted from the
offsets that are written in it, and whether all of it is on one disk. -/
structure Directory where
  start : Nat
  members : Nat
  shift : Nat
  oneDisk : Bool
  deriving DecidableEq, Repr

/-- Why an end record is passed over. -/
inductive Rejected where
  | unreadable (e : Error)
  | misplaced (f : Fault)

/-- The error to be reported when no record is left: a misplaced directory always counts, an
unreadable record only when nothing has been rejected before it. -/
def Rejected.after (earlier : Option Error) : Rejected → Error
  | .unreadable e => earlier.getD e
  | .misplaced f => .malformed f

/-- The directory of the end record at the offset. -/
def directoryAt (bytes : Bytes) (offset : Nat) : Except Rejected Directory :=
  match EndRecord.read? (bytes.drop offset) with
  | none => .error (.unreadable .truncated)
  | some (record, rest) =>
    if rest.length < record.commentLength then
      .error (.unreadable (.malformed .commentPastEnd))
    else
    let oneDisk := record.disk == record.directoryDisk
    if record.members == 0 then
      let shift := offset - record.directoryOffset
      .ok ⟨record.directoryOffset + shift, record.membersHere, shift, oneDisk⟩
    else if offset ≤ record.directoryOffset then .error (.misplaced .directoryPastEndRecord)
    else
      match firstHeader? bytes record.directoryOffset offset with
      | none => .error (.misplaced .noDirectoryHeader)
      | some start =>
        .ok ⟨start, record.membersHere, start - record.directoryOffset, oneDisk⟩

/-- The members in a directory, with their offsets in the file. Each starts before the directory. -/
def members? (d : Directory) : Nat → Bytes → Option (List Member)
  | 0, _ => some []
  | n + 1, rest => do
    let (h, rest) ← Header.read? rest
    let m ← Member.ofHeader? h
    let offset := m.header.offset + d.shift
    if d.start ≤ offset then none
    else return { m with header := { m.header with offset } } :: (← members? d n rest)

/-- All the members of a directory that is on one disk. -/
def directoryMembers? (bytes : Bytes) (d : Directory) : Option (List Member) :=
  if d.oneDisk then members? d d.members (bytes.drop d.start) else none

/-- Tries end records in turn. -/
def membersFrom (bytes : Bytes) : Option Error → List Nat → Except Error (List Member)
  | earlier, [] => .error (earlier.getD (.malformed .noEndRecord))
  | earlier, offset :: offsets =>
    match directoryAt bytes offset with
    | .error rejected => membersFrom bytes (some (rejected.after earlier)) offsets
    | .ok d =>
      match directoryMembers? bytes d with
      | some found => .ok found
      | none => membersFrom bytes none offsets

/-! ## 4. Members -/

/-- Puts a member in the place of an earlier one of the same name, or at the end. -/
def insertMember (m : Member) : List Member → List Member
  | [] => [m]
  | other :: rest =>
    if other.name == m.name then m :: rest else other :: insertMember m rest

/-- The members of a container, one for each name. -/
def members (bytes : Bytes) : Except Error (List Member) := do
  let all ← membersFrom bytes none (endOffsets bytes)
  return all.foldl (fun done m => insertMember m done) []

/-- The data of a member as it stands in the container. It may be cut off by the end, and it may
stand anywhere: only the local header has to come before the directory. -/
def rawData (bytes : Bytes) (m : Member) : Except Error Bytes :=
  if m.header.flags.testBit Header.encryptedFlag then .error (.malformed .encrypted)
  else
    match localLength? (bytes.drop m.header.offset) with
    | none => .error (.malformed .badLocalHeader)
    | some length =>
      let method := m.header.method
      if method != Header.storedMethod && method != Header.deflatedMethod then
        .error (.malformed .unsupportedMethod)
      else if m.locked then .error (.malformed .locked)
      else .ok ((bytes.drop (m.header.offset + length)).take m.header.compressedSize)

/-- The content of a member, if it has the check that the directory gives. -/
def checked (m : Member) (content : Bytes) : Except Error Bytes :=
  if (crc32 content).toNat == m.header.crc then .ok content
  else .error (.malformed .badChecksum)

/-- The payload of a member. -/
def payload (bytes : Bytes) (m : Member) : Except Error Bytes := do
  let data ← rawData bytes m
  if m.header.method == Header.storedMethod then checked m data
  else
    match inflate? data with
    | none => .error .corrupt
    | some content => checked m content

/-! ## 5. Entries -/

/-- A member whose name ends in a slash of either kind is a directory. -/
def isDirectoryName (name : String) : Bool :=
  name.toList.getLast?.any EntryName.isSeparator

/-- The entry of a member. The payload of a directory is not looked at. -/
def entry (bytes : Bytes) (m : Member) : Except Error Entry :=
  if isDirectoryName m.name then do
    discard (rawData bytes m)
    return Entry.directory m.name
  else do
    return Entry.file m.name (← payload bytes m)

/-- The entries of the members, or the error of the first that has one. -/
def entriesOf (bytes : Bytes) : List Member → Except Error (List Entry)
  | [] => .ok []
  | m :: rest => do
    let e ← entry bytes m
    let others ← entriesOf bytes rest
    return e :: others

/-- The entries of a container. -/
def read (bytes : Bytes) : Except Error (List Entry) := do
  entriesOf bytes (← members bytes)

end FatJar.Zip
