/-
FatJar.Zip.Deflate — compressing data.

Each group of tokens becomes a block. A small group is written with the fixed
codes, a larger one with codes made for it, which stand in front of the block;
where that does not save anything the bytes are kept as they are. The result is
read back before it is used. Should it not stand for the payload, the payload is
written in plain blocks instead, so what is written can always be read.

Contents:
1. writing bits;
2. plain blocks;
3. symbols and their codes;
4. the codes in front of a block;
5. blocks;
6. data.
-/
import FatJar.Zip.CodeLength
import FatJar.Zip.Inflate
import FatJar.Zip.Repetition

namespace FatJar.Zip

/-! ## 1. Bits -/

/-- Whole bytes, and the bits of the byte that has been started. -/
structure BitWriter where
  bytes : Array UInt8
  started : Nat
  count : Nat

namespace BitWriter

/-- Nothing written. -/
def empty : BitWriter := ⟨#[], 0, 0⟩

/-- Moves whole bytes out of the started one. -/
def drain : Nat → BitWriter → BitWriter
  | 0, w => w
  | fuel + 1, ⟨bytes, started, count⟩ =>
    if count < 8 then ⟨bytes, started, count⟩
    else drain fuel ⟨bytes.push started.toUInt8, started / 256, count - 8⟩

/-- Writes the lowest bits of a number, lowest first. -/
def put (value width : Nat) : BitWriter → BitWriter
  | ⟨bytes, started, count⟩ =>
    drain (width / 8 + 1)
      ⟨bytes, started + value % Nat.pow 2 width * Nat.pow 2 count, count + width⟩

/-- Writes a word of a code. -/
def putWord (word : Word) (w : BitWriter) : BitWriter :=
  w.put word.bits word.length

/-- Fills up the byte that has been started. -/
def align (w : BitWriter) : BitWriter :=
  if w.count == 0 then w else w.put 0 (8 - w.count)

end BitWriter

/-! ## 2. Plain blocks -/

/-- The most bytes in a block of plain bytes. -/
def maxPlainBlock : Nat := 65535

/-- A block of plain bytes. -/
def plainBlock (last : Bool) (payload : Bytes) : Bytes :=
  let n := payload.length
  let complement := maxPlainBlock - n
  [if last then 1 else 0, n.toUInt8, (n / 256).toUInt8, complement.toUInt8,
    (complement / 256).toUInt8] ++ payload

/-- Data, in blocks of plain bytes, that stands for the payload. -/
def plainBlocks (payload : Bytes) : Bytes :=
  if payload.length ≤ maxPlainBlock then plainBlock true payload
  else plainBlock false (payload.take maxPlainBlock) ++ plainBlocks (payload.drop maxPlainBlock)
termination_by payload.length
decreasing_by
  simp only [List.length_drop, maxPlainBlock] at *
  omega

/-- Writes bytes as a plain block, of which the first bit has been written. -/
def BitWriter.putPlain (bytes : Array UInt8) (w : BitWriter) : BitWriter :=
  let w := (w.put 0 2).align
  let w := (w.put bytes.size 16).put (maxPlainBlock - bytes.size % (maxPlainBlock + 1)) 16
  { w with bytes := w.bytes ++ bytes }

/-! ## 3. Symbols -/

/-- A symbol with the value and the number of its extra bits. -/
structure ExtendedSymbol where
  symbol : Nat
  extra : Nat
  width : Nat
  deriving DecidableEq, Repr

/-- The symbol for a value: the last whose base is not greater. -/
def symbolFor (table : Array (Nat × Nat)) (value : Nat) : ExtendedSymbol :=
  (table.foldl (fun (state : Nat × ExtendedSymbol) entry =>
    (state.1 + 1, if entry.1 ≤ value then ⟨state.1, value - entry.1, entry.2⟩ else state.2))
    (0, ⟨0, 0, 0⟩)).2

/-- The symbol for the length of a copy. -/
def lengthSymbol (c : Copy) : ExtendedSymbol :=
  let s := symbolFor copyLengths c.length
  { s with symbol := endOfBlock + 1 + s.symbol }

/-- The symbol for the distance of a copy. -/
def distanceSymbol (c : Copy) : ExtendedSymbol :=
  symbolFor copyDistances c.distance

/-- Counts a symbol. -/
def countSymbol (counts : Array Nat) (symbol : Nat) : Array Nat :=
  counts.setIfInBounds symbol (counts.getD symbol 0 + 1)

/-- How often symbols for literals and lengths occur, the end of the block included. -/
def literalCounts (g : TokenGroup) : Array Nat :=
  let counts := g.tokens.foldl (fun counts token =>
    match token with
    | .literal b => countSymbol counts b.toNat
    | .copy c => countSymbol counts (lengthSymbol c).symbol) (Array.replicate 288 0)
  countSymbol counts endOfBlock

/-- How often symbols for distances occur. -/
def distanceCounts (g : TokenGroup) : Array Nat :=
  g.tokens.foldl (fun counts token =>
    match token with
    | .literal _ => counts
    | .copy c => countSymbol counts (distanceSymbol c).symbol) (Array.replicate 32 0)

/-! ## 4. Codes in front of a block -/

/-- The runs of equal numbers in a list: each number and how often it is repeated. -/
def runs : List Nat → List (Nat × Nat)
  | [] => []
  | n :: rest =>
    match runs rest with
    | (m, count) :: others =>
      if n == m then (m, count + 1) :: others else (n, 1) :: (m, count) :: others
    | [] => [(n, 1)]

/-- The parts of a number that are as large as the limit, then what is left. -/
def portions (limit n : Nat) : List Nat :=
  List.replicate (n / limit) limit ++ (if n % limit == 0 then [] else [n % limit])

/-- The symbols for a number of zero lengths, at most 138. -/
def zeroSymbols (n : Nat) : List ExtendedSymbol :=
  if n < 3 then List.replicate n ⟨0, 0, 0⟩
  else if n ≤ 10 then [⟨17, n - 3, 3⟩]
  else [⟨18, n - 11, 7⟩]

/-- The symbols for repeating a length, at most six times. -/
def repeatSymbols (length n : Nat) : List ExtendedSymbol :=
  if n < 3 then List.replicate n ⟨length, 0, 0⟩ else [⟨16, n - 3, 2⟩]

/-- The symbols for a run of equal lengths. -/
def runSymbols (run : Nat × Nat) : List ExtendedSymbol :=
  if run.1 == 0 then (portions 138 run.2).flatMap zeroSymbols
  else ⟨run.1, 0, 0⟩ :: (portions 6 (run.2 - 1)).flatMap (repeatSymbols run.1)

/-- How many of the lengths are written: all up to the last that is not zero, and at least some. -/
def writtenCount (least most : Nat) (lengths : Array Nat) : Nat :=
  let needed := (List.range most).filter fun i => lengths.getD i 0 != 0
  max least ((needed.getLast?.map (· + 1)).getD 0)

/-- Writes a symbol with its extra bits. -/
def BitWriter.putSymbol (words : Array Word) (s : ExtendedSymbol) (w : BitWriter) : BitWriter :=
  (w.putWord (words.getD s.symbol ⟨0, 0⟩)).put s.extra s.width

/-- Writes the lengths of two codes. -/
def BitWriter.putCodes (literals distances : Array Nat) (w : BitWriter) : BitWriter :=
  let literalCount := writtenCount 257 286 literals
  let distanceCount := writtenCount 1 30 distances
  let lengths := (literals.extract 0 literalCount ++ distances.extract 0 distanceCount).toList
  let symbols := (runs lengths).flatMap runSymbols
  let counts := symbols.foldl (fun counts s => countSymbol counts s.symbol) (Array.replicate 19 0)
  let own := codeLengths 7 counts
  let ordered := (lengthOrder.map fun symbol => own.getD symbol 0).toArray
  let ownCount := writtenCount 4 19 ordered
  let w := ((w.put (literalCount - 257) 5).put (distanceCount - 1) 5).put (ownCount - 4) 4
  let w := (ordered.extract 0 ownCount).foldl (fun w length => w.put length 3) w
  let words := codeWords own
  symbols.foldl (fun w s => w.putSymbol words s) w

/-! ## 5. Blocks -/

/-- Writes tokens and the end of the block in the codes with the given lengths. -/
def BitWriter.putTokens (literals distances : Array Nat) (tokens : Array Token) (w : BitWriter) :
    BitWriter :=
  let literalWords := codeWords literals
  let distanceWords := codeWords distances
  let w := tokens.foldl (fun (w : BitWriter) token =>
    match token with
    | .literal b => w.putSymbol literalWords ⟨b.toNat, 0, 0⟩
    | .copy c =>
      (w.putSymbol literalWords (lengthSymbol c)).putSymbol distanceWords (distanceSymbol c)) w
  w.putSymbol literalWords ⟨endOfBlock, 0, 0⟩

/-- A group of fewer bytes is written with the fixed codes. -/
def fixedLimit : Nat := 48

/-- Writes the tokens of a group in the codes that are right for it. -/
def BitWriter.putPacked (g : TokenGroup) (w : BitWriter) : BitWriter :=
  if g.size < fixedLimit then
    (w.put 1 2).putTokens Code.fixedLiteralLengths.toArray Code.fixedDistanceLengths.toArray g.tokens
  else
    let literals := codeLengths Code.maxLength (literalCounts g)
    let distances := codeLengths Code.maxLength (distanceCounts g)
    ((w.put 2 2).putCodes literals distances).putTokens literals distances g.tokens

/-- Writes the block of a group: packed, or plain if there are more than 32 bytes and packing them
saves nothing. -/
def BitWriter.putGroup (data : Array UInt8) (last : Bool) (g : TokenGroup) (w : BitWriter) :
    BitWriter :=
  let w := w.put (if last then 1 else 0) 1
  let packed := w.putPacked g
  if 32 < g.size && g.size ≤ packed.bytes.size - w.bytes.size + 1 && g.atHand then
    w.putPlain (data.extract g.start (g.start + g.size))
  else packed

/-- Writes the blocks of groups. -/
def BitWriter.putGroups (data : Array UInt8) : List TokenGroup → BitWriter → BitWriter
  | [], w => w
  | [g], w => w.putGroup data true g
  | g :: rest, w => putGroups data rest (w.putGroup data false g)

/-! ## 6. Data -/

/-- The payload in packed form. -/
def packed (payload : Bytes) : Bytes :=
  let data := payload.toArray
  (BitWriter.empty.putGroups data (tokenGroups data)).align.bytes.toList

/-- Data that stands for the payload. -/
def deflate (payload : Bytes) : Bytes :=
  let data := packed payload
  if inflate? data == some payload then data else plainBlocks payload

end FatJar.Zip
