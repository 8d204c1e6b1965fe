/-
FatJar.Zip.Record — the records of a container.

A container is a series of members, each a local header with its data, then a
directory with one header for each member, then an end record that says where
the directory is. Numbers are little-endian.

There are two bytes for the number of members and for the length of a name, and
four for sizes and offsets. The wide end record, with which a container can have
more, is neither written nor read.

Contents:
1. numbers and fields;
2. local headers;
3. directory headers;
4. the end record.
-/
import FatJar.Text.Utf8

namespace FatJar.Zip

/-! ## 1. Numbers and fields -/

/-- The number in the given bytes, lower byte first. -/
def ofLittleEndian : Bytes → Nat
  | [] => 0
  | b :: rest => b.toNat + 256 * ofLittleEndian rest

/-- The lowest `width` bytes of a number, lower byte first. What does not fit is cut off. -/
def littleEndian : Nat → Nat → Bytes
  | 0, _ => []
  | width + 1, n => n.toUInt8 :: littleEndian width (n / 256)

/-- The numbers of the given widths at the start of the bytes, and what follows them. -/
def fields? : List Nat → Bytes → Option (List Nat × Bytes)
  | [], bytes => some ([], bytes)
  | width :: widths, bytes =>
    let field := bytes.take width
    if field.length == width then
      (fields? widths (bytes.drop width)).map fun (values, rest) =>
        (ofLittleEndian field :: values, rest)
    else none

/-- Numbers in the widths given with them. -/
def writeFields (fields : List (Nat × Nat)) : Bytes :=
  fields.flatMap fun (width, value) => littleEndian width value

/-- The next `n` bytes and what follows them, or none if there are fewer. -/
def block? (n : Nat) (bytes : Bytes) : Option (Bytes × Bytes) :=
  let block := bytes.take n
  if block.length == n then some (block, bytes.drop n) else none

/-! ## 2. Local headers -/

/-- The number that starts a local header. -/
def localSignature : Nat := 0x04034b50

/-- The widths of the fields of a local header. -/
def localWidths : List Nat := [4, 2, 2, 2, 2, 2, 4, 4, 4, 2, 2]

/-- The number of bytes from the start of a local header to the data of the member, or none if
there is no local header. -/
def localLength? (bytes : Bytes) : Option Nat :=
  match fields? localWidths bytes with
  | some ([signature, _, _, _, _, _, _, _, _, nameLength, extraLength], _) =>
    if signature == localSignature then
      some (localWidths.foldl Nat.add 0 + nameLength + extraLength)
    else none
  | _ => none

/-! ## 3. Directory headers -/

/-- What the directory says of a member. -/
structure Header where
  /-- The system and the version that made the member. -/
  maker : Nat
  flags : Nat
  method : Nat
  time : Nat
  date : Nat
  crc : Nat
  compressedSize : Nat
  size : Nat
  attributes : Nat
  offset : Nat
  rawName : Bytes
  extra : Bytes
  rawComment : Bytes
  deriving DecidableEq, Repr

namespace Header

/-- The number that starts a directory header. -/
def signature : Nat := 0x02014b50

/-- The widths of the fields of a directory header. -/
def widths : List Nat := [4, 2, 2, 2, 2, 2, 2, 4, 4, 4, 2, 2, 2, 2, 2, 4, 4]

/-- The bit that marks an encrypted member. -/
def encryptedFlag : Nat := 0

/-- The bit that marks a name in UTF-8. -/
def utf8Flag : Nat := 11

/-- The method of members that are kept as they are. -/
def storedMethod : Nat := 0

/-- The method of compressed members. -/
def deflatedMethod : Nat := 8

/-- The header at the start of the bytes and what follows it. -/
def read? (bytes : Bytes) : Option (Header × Bytes) :=
  match fields? widths bytes with
  | some ([sig, maker, _, flags, method, time, date, crc, compressedSize, size, nameLength,
      extraLength, commentLength, _, _, attributes, offset], rest) => do
    if sig != signature then none
    else
      let (rawName, rest) ← block? nameLength rest
      let (extra, rest) ← block? extraLength rest
      let (rawComment, rest) ← block? commentLength rest
      return ({ maker, flags, method, time, date, crc, compressedSize, size, attributes, offset,
                rawName, extra, rawComment }, rest)
  | _ => none

/-- The oldest version that can read a member. -/
def neededVersion : Nat := 20

/-- The local header of the member, without its data. -/
def writeLocal (h : Header) : Bytes :=
  writeFields [(4, localSignature), (2, neededVersion), (2, h.flags), (2, h.method), (2, h.time),
    (2, h.date), (4, h.crc), (4, h.compressedSize), (4, h.size), (2, h.rawName.length), (2, 0)] ++
  h.rawName

/-- The header as it stands in the directory. -/
def write (h : Header) : Bytes :=
  writeFields [(4, signature), (2, h.maker), (2, neededVersion), (2, h.flags), (2, h.method),
    (2, h.time), (2, h.date), (4, h.crc), (4, h.compressedSize), (4, h.size),
    (2, h.rawName.length), (2, h.extra.length), (2, h.rawComment.length), (2, 0), (2, 0),
    (4, h.attributes), (4, h.offset)] ++
  h.rawName ++ h.extra ++ h.rawComment

end Header

/-! ## 4. The end record -/

/-- The record that ends a container. -/
structure EndRecord where
  disk : Nat
  directoryDisk : Nat
  membersHere : Nat
  members : Nat
  directorySize : Nat
  directoryOffset : Nat
  commentLength : Nat
  deriving DecidableEq, Repr

namespace EndRecord

/-- The number that starts an end record. -/
def signature : Nat := 0x06054b50

/-- The widths of the fields of an end record. -/
def widths : List Nat := [4, 2, 2, 2, 2, 4, 4, 2]

/-- The end record at the start of the bytes and what follows its fields. -/
def read? (bytes : Bytes) : Option (EndRecord × Bytes) :=
  match fields? widths bytes with
  | some ([_, disk, directoryDisk, membersHere, members, directorySize, directoryOffset,
      commentLength], rest) =>
    some ({ disk, directoryDisk, membersHere, members, directorySize, directoryOffset,
            commentLength }, rest)
  | _ => none

/-- The end record as bytes, without a comment. -/
def write (r : EndRecord) : Bytes :=
  writeFields [(4, signature), (2, r.disk), (2, r.directoryDisk), (2, r.membersHere),
    (2, r.members), (4, r.directorySize), (4, r.directoryOffset), (2, r.commentLength)]

end EndRecord

end FatJar.Zip
