/-
FatJar.Zip.Inflate — compressed data and its expansion.

The data is a series of blocks in a stream of bits, lowest bit of each byte
first. A block holds bytes as they are, or symbols of canonical codes, either
fixed or given by their lengths in front of the block. Bytes after the last
block are not looked at.

Contents:
1. the stream of bits;
2. canonical codes;
3. symbols and copies;
4. blocks;
5. data.
-/
import FatJar.Text.Utf8

namespace FatJar.Zip

/-! ## 1. Bits -/

/-- What is left of the data: the bits of the byte that has been started, then whole bytes. -/
structure BitStream where
  started : List Bool
  bytes : Bytes

namespace BitStream

/-- The bits of a byte, lowest first. -/
def bitsOf (b : UInt8) : List Bool :=
  [0, 1, 2, 3, 4, 5, 6, 7].map fun i => b.toNat.testBit i

/-- The next bit. -/
def bit? (s : BitStream) : Option (Bool × BitStream) :=
  match s.started, s.bytes with
  | b :: rest, bytes => some (b, ⟨rest, bytes⟩)
  | [], byte :: bytes =>
    match bitsOf byte with
    | b :: rest => some (b, ⟨rest, bytes⟩)
    | [] => none
  | [], [] => none

/-- The next `n` bits as a number, lowest bit first. -/
def number? : Nat → BitStream → Option (Nat × BitStream)
  | 0, s => some (0, s)
  | n + 1, s => do
    let (b, s) ← s.bit?
    let (high, s) ← number? n s
    return (b.toNat + 2 * high, s)

/-- The stream from the next whole byte on. -/
def aligned (s : BitStream) : Bytes := s.bytes

end BitStream

/-! ## 2. Canonical codes -/

/-- A code: how many symbols have each length from 1 on, and the symbols in the order of their
code words. -/
structure Code where
  counts : List Nat
  symbols : Array Nat

namespace Code

/-- The longest code word. -/
def maxLength : Nat := 15

/-- The symbols that have the length, in increasing order. -/
def symbolsOf (length : Nat) (lengths : List Nat) : List Nat :=
  (lengths.zipIdx.filter fun entry => entry.1 == length).map (·.2)

/-- The room that is left for longer words after the words of the counted lengths, or none when
there are too many. -/
def room? : Nat → List Nat → Option Nat
  | left, [] => some left
  | left, count :: rest => if 2 * left < count then none else room? (2 * left - count) rest

/-- The code in which each symbol has the word length given for it; 0 means that it has none.
There may not be too many words or too few. -/
def complete? (lengths : List Nat) : Option Code :=
  let classes := (List.range maxLength).map fun i => symbolsOf (i + 1) lengths
  let counts := classes.map List.length
  if room? 1 counts == some 0 then some ⟨counts, classes.flatten.toArray⟩ else none

/-- The code of word lengths, which may also have no words at all or a single one of one bit. -/
def ofLengths? (lengths : List Nat) : Option Code :=
  match lengths.zipIdx.filter fun entry => entry.1 != 0 with
  | [] => some ⟨[], #[]⟩
  | [(1, symbol)] => some ⟨[1], #[symbol]⟩
  | _ => complete? lengths

/-- Reads one bit for each length: `word` is the word so far, `least` the first word of the
current length and `index` the place of its symbol. -/
def symbolFrom (symbols : Array Nat) (word least index : Nat) :
    List Nat → BitStream → Option (Nat × BitStream)
  | [], _ => none
  | count :: rest, s => do
    let (b, s) ← s.bit?
    let word := 2 * word + b.toNat
    let least := 2 * least
    if word < least + count then return (← symbols[index + (word - least)]?, s)
    else symbolFrom symbols word (least + count) (index + count) rest s

/-- The next symbol of the stream. -/
def symbol? (code : Code) (s : BitStream) : Option (Nat × BitStream) :=
  symbolFrom code.symbols 0 0 0 code.counts s

/-- The lengths of the fixed code for literals and copy lengths. -/
def fixedLiteralLengths : List Nat :=
  List.replicate 144 8 ++ List.replicate 112 9 ++ List.replicate 24 7 ++ List.replicate 8 8

/-- The lengths of the fixed code for distances. -/
def fixedDistanceLengths : List Nat :=
  List.replicate 32 5

end Code

/-! ## 3. Symbols and copies -/

/-- The least copy length and the number of extra bits of each length symbol, from 257 on. -/
def copyLengths : Array (Nat × Nat) := #[
  (3, 0), (4, 0), (5, 0), (6, 0), (7, 0), (8, 0), (9, 0), (10, 0), (11, 1), (13, 1), (15, 1),
  (17, 1), (19, 2), (23, 2), (27, 2), (31, 2), (35, 3), (43, 3), (51, 3), (59, 3), (67, 4),
  (83, 4), (99, 4), (115, 4), (131, 5), (163, 5), (195, 5), (227, 5), (258, 0)]

/-- The least distance and the number of extra bits of each distance symbol. -/
def copyDistances : Array (Nat × Nat) := #[
  (1, 0), (2, 0), (3, 0), (4, 0), (5, 1), (7, 1), (9, 2), (13, 2), (17, 3), (25, 3), (33, 4),
  (49, 4), (65, 5), (97, 5), (129, 6), (193, 6), (257, 7), (385, 7), (513, 8), (769, 8),
  (1025, 9), (1537, 9), (2049, 10), (3073, 10), (4097, 11), (6145, 11), (8193, 12), (12289, 12),
  (16385, 13), (24577, 13)]

/-- A base with its extra bits. -/
def extended? (table : Array (Nat × Nat)) (index : Nat) (s : BitStream) :
    Option (Nat × BitStream) := do
  let (base, extra) ← table[index]?
  let (more, s) ← s.number? extra
  return (base + more, s)

/-- Repeats `length` bytes from `distance` back; what lies before the start counts as zero. -/
def copyBack (distance : Nat) : Nat → Array UInt8 → Array UInt8
  | 0, out => out
  | length + 1, out =>
    let b := if distance ≤ out.size then (out[out.size - distance]?).getD 0 else 0
    copyBack distance length (out.push b)

/-- The symbol that ends a block. -/
def endOfBlock : Nat := 256

/-- Expands the symbols of a block; each takes a bit at least, so `fuel` bits are enough. -/
def inflateSymbols (literals distances : Code) :
    Nat → BitStream → Array UInt8 → Option (BitStream × Array UInt8)
  | 0, _, _ => none
  | fuel + 1, s, out => do
    let (symbol, s) ← literals.symbol? s
    if symbol < endOfBlock then inflateSymbols literals distances fuel s (out.push symbol.toUInt8)
    else if symbol == endOfBlock then return (s, out)
    else
      let (length, s) ← extended? copyLengths (symbol - 257) s
      let (symbol, s) ← distances.symbol? s
      let (distance, s) ← extended? copyDistances symbol s
      inflateSymbols literals distances fuel s (copyBack distance length out)

/-! ## 4. Blocks -/

/-- A number of two bytes, lower byte first, and what follows it. -/
def pair? : Bytes → Option (Nat × Bytes)
  | low :: high :: rest => some (low.toNat + 256 * high.toNat, rest)
  | _ => none

/-- A block of plain bytes: their number, its complement, and the bytes. -/
def plainBlock? (s : BitStream) (out : Array UInt8) : Option (BitStream × Array UInt8) := do
  let (length, rest) ← pair? s.aligned
  let (complement, rest) ← pair? rest
  let data := rest.take length
  if length + complement == 65535 && data.length == length then
    return (⟨[], rest.drop length⟩, out ++ data.toArray)
  else none

/-- The order in which the lengths of the code for lengths are given. -/
def lengthOrder : List Nat :=
  [16, 17, 18, 0, 8, 7, 9, 6, 10, 5, 11, 4, 12, 3, 13, 2, 14, 1, 15]

/-- The next `count` numbers of three bits. -/
def smallNumbers? : Nat → BitStream → Option (List Nat × BitStream)
  | 0, s => some ([], s)
  | count + 1, s => do
    let (n, s) ← s.number? 3
    let (rest, s) ← smallNumbers? count s
    return (n :: rest, s)

/-- Reads lengths, the last one first in `done`, until there are `total`; three symbols repeat. -/
def codeLengths? (code : Code) (total : Nat) :
    Nat → BitStream → List Nat → Option (List Nat × BitStream)
  | 0, _, _ => none
  | fuel + 1, s, done => do
    if done.length == total then return (done.reverse, s)
    else if total < done.length then none
    else
      let (symbol, s) ← code.symbol? s
      if symbol < 16 then codeLengths? code total fuel s (symbol :: done)
      else if symbol == 16 then
        let last ← done.head?
        let (n, s) ← s.number? 2
        codeLengths? code total fuel s (List.replicate (n + 3) last ++ done)
      else if symbol == 17 then
        let (n, s) ← s.number? 3
        codeLengths? code total fuel s (List.replicate (n + 3) 0 ++ done)
      else
        let (n, s) ← s.number? 7
        codeLengths? code total fuel s (List.replicate (n + 11) 0 ++ done)

/-- The two codes that stand in front of a block. -/
def givenCodes? (s : BitStream) : Option (Code × Code × BitStream) := do
  let (n, s) ← s.number? 5
  let literals := n + 257
  let (n, s) ← s.number? 5
  let distances := n + 1
  let (n, s) ← s.number? 4
  if 286 < literals || 30 < distances then none
  else
    let (given, s) ← smallNumbers? (n + 4) s
    let lengthOf (symbol : Nat) : Nat :=
      (((lengthOrder.zip given).find? fun entry => entry.1 == symbol).map (·.2)).getD 0
    let code ← Code.complete? ((List.range 19).map lengthOf)
    let total := literals + distances
    let (lengths, s) ← codeLengths? code total (total + 1) s []
    let literalCode ← Code.ofLengths? (lengths.take literals)
    let distanceCode ← Code.ofLengths? (lengths.drop literals)
    return (literalCode, distanceCode, s)

/-- Expands blocks up to the last; each takes three bits at least. -/
def inflateBlocks : Nat → BitStream → Array UInt8 → Option (Array UInt8)
  | 0, _, _ => none
  | fuel + 1, s, out => do
    let (last, s) ← s.bit?
    let (kind, s) ← s.number? 2
    let bits := 8 * s.bytes.length + 8
    let (s, out) ←
      if kind == 0 then plainBlock? s out
      else if kind == 1 then do
        let literals ← Code.ofLengths? Code.fixedLiteralLengths
        let distances ← Code.ofLengths? Code.fixedDistanceLengths
        inflateSymbols literals distances bits s out
      else if kind == 2 then do
        let (literals, distances, s) ← givenCodes? s
        inflateSymbols literals distances bits s out
      else none
    if last then return out else inflateBlocks fuel s out

/-! ## 5. Data -/

/-- The bytes that the data stands for, or none where it is cut off or not well formed. -/
def inflate? (data : Bytes) : Option Bytes :=
  (inflateBlocks (8 * data.length + 1) ⟨[], data⟩ #[]).map Array.toList

end FatJar.Zip
