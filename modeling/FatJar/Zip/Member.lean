/-
FatJar.Zip.Member — what a directory header and its extra fields say of a member.

The extra fields of a header stand one after the other, each with its kind and
its length in front. Some of them change what the header says: the sizes and the
offset may be too large for it, and the name and the comment may be given again
in UTF-8. A field that breaks the rules of its kind makes the header unreadable.
Where the fields end inside one of them, what has been read until then counts.

Contents:
1. members;
2. one field of each kind;
3. all the fields of a header.
-/
import FatJar.Text.CodePage
import FatJar.Zip.Checksum
import FatJar.Zip.Record

namespace FatJar.Zip

/-! ## 1. Members -/

/-- A member of a container. Its header has the sizes, the offset and the method that count. -/
structure Member where
  header : Header
  rawName : Bytes
  name : String
  comment : String
  /-- Whether a field says how the member is locked. -/
  locked : Bool
  deriving DecidableEq, Repr

namespace Member

/-- The text of a name or a comment. -/
def decodeText (flags : Nat) (raw : Bytes) : String :=
  if flags.testBit Header.utf8Flag then Text.decodeLossy raw else Text.decodeCodePage raw

/-- The member of a header, without its extra fields. -/
def plain (h : Header) : Member :=
  { header := h
    rawName := h.rawName
    name := decodeText h.flags h.rawName
    comment := decodeText h.flags h.rawComment
    locked := false }

end Member

/-! ## 2. Fields -/

/-- What comes of reading a field. -/
inductive Taken where
  | field (m : Member) (rest : Bytes)
  | cutOff (m : Member)
  | refused

/-- Passes over bytes. -/
def skip (n : Nat) (m : Member) (bytes : Bytes) : Taken :=
  match block? n bytes with
  | none => .cutOff m
  | some (_, rest) => .field m rest

/-- A number of a header and how it is replaced. -/
structure Slot where
  get : Header → Nat
  put : Nat → Header → Header

/-- The numbers that a wide field can replace, in their order. -/
def wideSlots : List Slot := [
  ⟨(·.size), fun n h => { h with size := n }⟩,
  ⟨(·.compressedSize), fun n h => { h with compressedSize := n }⟩,
  ⟨(·.offset), fun n h => { h with offset := n }⟩]

/-- The greatest number in four bytes. It stands where a wide field has the number instead. -/
def narrowLimit : Nat := Nat.pow 2 32 - 1

/-- The length from which on a wide field has all the numbers. -/
def fullWideLength : Nat := 24

/-- Reads the numbers of a wide field, then passes over what is left of it. -/
def takeWide (length used : Nat) (m : Member) : List Slot → Bytes → Taken
  | [], bytes => if length < used then .refused else skip (length - used) m bytes
  | slot :: slots, bytes =>
    if fullWideLength ≤ length || slot.get m.header == narrowLimit then
      match block? 8 bytes with
      | none => .cutOff m
      | some (number, rest) =>
        let header := slot.put (ofLittleEndian number) m.header
        takeWide length (used + 8) { m with header } slots rest
    else takeWide length used m slots bytes

/-- Reads the times of a file system: a reserved number, a tag, a size and three times. -/
def takeSystemTimes (length : Nat) (m : Member) (bytes : Bytes) : Taken :=
  if length != 32 then .refused
  else
    match fields? [4, 2] bytes with
    | some ([_, tag], rest) =>
      if tag != 1 then .refused
      else
        match fields? [2] rest with
        | some ([size], rest) => if size != 24 then .refused else skip size m rest
        | _ => .cutOff m
    | _ => .cutOff m

/-- Reads the times of a member: a byte that says which there are, then four bytes for each. A
length of five always stands for one time. -/
def takeTimes (length : Nat) (m : Member) : Bytes → Taken
  | [] => .cutOff m
  | flags :: rest =>
    let count := ((List.range 8).filter flags.toNat.testBit).length
    if length != 5 && length != 1 + 4 * count then .refused
    else if 8 ≤ flags.toNat then .refused
    else skip (if length == 5 then 4 else 4 * count) m rest

/-- The maker that a lock names. -/
def lockMaker : Nat := 0x4541

/-- Reads how a member is locked: a version, its maker, a strength, and the method that is used
under the lock. -/
def takeLock (length : Nat) (m : Member) (bytes : Bytes) : Taken :=
  if length != 7 then .refused
  else
    match fields? [2, 2, 1, 2] bytes with
    | some ([version, maker, strength, method], rest) =>
      if maker != lockMaker || !([1, 2].contains version) || !([1, 2, 3].contains strength) then
        .refused
      else .field { m with header := { m.header with method }, locked := true } rest
    | _ => .cutOff m

/-- Reads a text that stands for another: a version, the check of the other text, and the text
itself. -/
def takeText (length : Nat) (m : Member) (other : Bytes) (put : Bytes → Option Member)
    (bytes : Bytes) : Taken :=
  match fields? [1, 4] bytes with
  | some ([_, check], rest) =>
    if length < 5 then .refused
    else
      match block? (length - 5) rest with
      | none => .cutOff m
      | some (content, rest) =>
        if (crc32 other).toNat != check then .refused
        else
          match put content with
          | none => .refused
          | some m => .field m rest
  | _ => .cutOff m

/-- The member with another name. -/
def Member.rename? (m : Member) (rawName : Bytes) : Option Member :=
  (Text.decode? rawName).map fun name => { m with rawName, name }

/-- The member with another comment. -/
def Member.remark? (m : Member) (raw : Bytes) : Option Member :=
  (Text.decode? raw).map fun comment => { m with comment }

/-- The kinds of fields that are looked at. -/
inductive FieldKind where
  | wide
  | systemTimes
  | times
  | lock
  | comment
  | name
  | other
  deriving DecidableEq, Repr

/-- The kind with a number. -/
def FieldKind.ofNumber (n : Nat) : FieldKind :=
  if n == 0x0001 then .wide
  else if n == 0x000a then .systemTimes
  else if n == 0x5455 then .times
  else if n == 0x9901 then .lock
  else if n == 0x6375 then .comment
  else if n == 0x7075 then .name
  else .other

/-- Reads the content of a field. -/
def FieldKind.take (kind : FieldKind) (length : Nat) (m : Member) (bytes : Bytes) : Taken :=
  match kind with
  | .wide => takeWide length 0 m wideSlots bytes
  | .systemTimes => takeSystemTimes length m bytes
  | .times => takeTimes length m bytes
  | .lock => takeLock length m bytes
  | .comment => takeText length m (Text.encode m.comment) m.remark? bytes
  | .name => takeText length m m.rawName m.rename? bytes
  | .other => skip length m bytes

/-! ## 3. Headers -/

/-- Reads fields; each takes four bytes at least, so `fuel` of them are enough. -/
def takeFields : Nat → Member → Bytes → Option Member
  | 0, m, _ => some m
  | fuel + 1, m, bytes =>
    match fields? [2, 2] bytes with
    | some ([kind, length], rest) =>
      match (FieldKind.ofNumber kind).take length m rest with
      | .field m rest => takeFields fuel m rest
      | .cutOff m => some m
      | .refused => none
    | _ => some m

/-- The method of members that are locked. What is under the lock is in an extra field. -/
def lockedMethod : Nat := 99

/-- The member of a header, or none if its extra fields make it unreadable. -/
def Member.ofHeader? (h : Header) : Option Member :=
  match takeFields h.extra.length (.plain h) h.extra with
  | none => none
  | some m => if m.header.method == lockedMethod && !m.locked then none else some m

end FatJar.Zip
