/-
FatJar.Zip.Checksum — the 32-bit cyclic redundancy check of archive members.

The reflected polynomial is `0xEDB88320`; the register starts and ends
complemented.
-/
import FatJar.Text.Utf8

namespace FatJar.Zip

/-- Shifts the register by one bit. -/
def crcBit (crc : UInt32) : UInt32 :=
  if crc &&& 1 == 1 then (crc >>> 1) ^^^ 0xedb88320 else crc >>> 1

/-- Takes one byte into the register. -/
def crcByte (crc : UInt32) (b : UInt8) : UInt32 :=
  Nat.repeat crcBit 8 (crc ^^^ b.toUInt32)

/-- The check of some bytes. -/
def crc32 (bytes : Bytes) : UInt32 :=
  bytes.foldl crcByte 0xffffffff ^^^ 0xffffffff

end FatJar.Zip
