/-
FatJar.Zip.Repetition — data as bytes and copies of earlier bytes.

Places of the data at which the same three bytes start are linked to each other,
and the links are followed backwards to find the longest copy. A copy is put off
by one byte where that gives a longer one. The tokens are cut into groups, and
each group is compressed by itself. How far the links are followed is bounded, so
some copies are missed; what the tokens stand for does not depend on that.

Contents:
1. tokens and groups;
2. earlier places;
3. the longest copy at a place;
4. the tokens of data.
-/
import FatJar.Text.Utf8

namespace FatJar.Zip

/-! ## 1. Tokens and groups -/

/-- Bytes that stand `distance` back. -/
structure Copy where
  length : Nat
  distance : Nat
  deriving DecidableEq, Repr

/-- A byte, or a copy of earlier bytes. -/
inductive Token where
  | literal (byte : UInt8)
  | copy (copy : Copy)
  deriving DecidableEq, Repr

/-- Tokens that are compressed together. -/
structure TokenGroup where
  tokens : Array Token
  /-- How many of the tokens are copies. -/
  copies : Nat
  /-- Where the bytes that the tokens stand for start, and how many there are. -/
  start : Nat
  size : Nat
  /-- Whether these bytes are still at hand, so that they can be kept as they are. -/
  atHand : Bool
  deriving DecidableEq, Repr

namespace TokenGroup

/-- The group that starts at a place. -/
def empty (start : Nat) : TokenGroup :=
  ⟨#[], 0, start, 0, true⟩

/-- The group with one more token. -/
def push (g : TokenGroup) : Token → TokenGroup
  | .literal b => { g with tokens := g.tokens.push (.literal b), size := g.size + 1 }
  | .copy c =>
    { g with tokens := g.tokens.push (.copy c), copies := g.copies + 1, size := g.size + c.length }

/-- The room that the tokens take before they are compressed: a byte, or three for a copy, and a
bit for each that tells which it is. -/
def room (g : TokenGroup) : Nat :=
  1 + g.tokens.size + 2 * g.copies + g.tokens.size / 8

/-- Whether the group ends: there is no room left, or it is large and hardly has any copies. -/
def isFull (g : TokenGroup) : Bool :=
  64 * 1024 - 8 < g.room || (31 * 1024 < g.size && g.size ≤ g.room * 115 / 128)

end TokenGroup

/-! ## 2. Earlier places -/

/-- How far back a copy can reach. -/
def window : Nat := 32768

/-- The shortest copy. -/
def shortestCopy : Nat := 3

/-- The longest copy. -/
def longestCopy : Nat := 258

/-- Places are kept in two bytes. -/
def placeLimit : Nat := 65536

/-- The last place for each hash, and for each place the one before it with the same hash. The
place 0 stands for none. -/
structure Places where
  latest : Array Nat
  earlier : Array Nat

namespace Places

/-- The number of hashes. -/
def hashes : Nat := 32768

/-- No places. -/
def empty : Places :=
  ⟨Array.replicate hashes 0, Array.replicate window 0⟩

/-- The hash of three bytes. -/
def hash (a b c : UInt8) : Nat :=
  ((a.toNat <<< 10) ^^^ (b.toNat <<< 5) ^^^ c.toNat) % hashes

/-- Adds a place; the last two of the data have no three bytes to go by. -/
def insert (data : Array UInt8) (i : Nat) : Places → Places
  | ⟨latest, earlier⟩ =>
    if i + 2 < data.size then
      let h := hash (data.getD i 0) (data.getD (i + 1) 0) (data.getD (i + 2) 0)
      let before := latest.getD h 0
      ⟨latest.setIfInBounds h (i % placeLimit), earlier.setIfInBounds (i % window) before⟩
    else ⟨latest, earlier⟩

/-- Adds `count` places from a place on. -/
def insertMany (data : Array UInt8) : Nat → Nat → Places → Places
  | 0, _, places => places
  | count + 1, i, places => insertMany data count (i + 1) (places.insert data i)

end Places

/-! ## 3. The longest copy -/

/-- How many bytes are the same from two places on, up to a limit. -/
def common (data : Array UInt8) (i j : Nat) : Nat → Nat
  | 0 => 0
  | limit + 1 =>
    if data.getD i 0 == data.getD j 0 then common data (i + 1) (j + 1) limit + 1 else 0

/-- Whether two bytes are the same at two places. -/
def samePair (data : Array UInt8) (i j : Nat) : Bool :=
  data.getD i 0 == data.getD j 0 && data.getD (i + 1) 0 == data.getD (j + 1) 0

/-- What a search for copies at a place works with. -/
structure Search where
  data : Array UInt8
  earlier : Array Nat
  place : Nat
  /-- The greatest distance. -/
  reach : Nat
  /-- The greatest length. -/
  ahead : Nat

/-- Follows the links from a place, in turns of three, and keeps the best copy. A turn ends when a
copy may be longer than the best one, which its last two bytes show. -/
def Search.follow (s : Search) : Nat → Nat → Nat → Nat → Copy → Copy
  | 0, _, _, _, best => best
  | fuel + 1, turns, links, link, best =>
    if links == 0 then
      if turns ≤ 1 then best else s.follow fuel (turns - 1) 3 link best
    else
      let place := s.earlier.getD link 0
      let distance := (s.place % placeLimit + placeLimit - place) % placeLimit
      if place == 0 || s.reach < distance then best
      else
        let link := place % window
        let start := s.place - distance
        let tail := best.length - 1
        if !samePair s.data (start + tail) (s.place + tail) then
          s.follow fuel turns (links - 1) link best
        else if distance == 0 then best
        else if !samePair s.data start s.place then s.follow fuel turns 0 link best
        else
          let length := common s.data start s.place s.ahead
          if length ≤ best.length then s.follow fuel turns 0 link best
          else if s.ahead ≤ length then ⟨length, distance⟩
          else s.follow fuel turns 0 link ⟨length, distance⟩

/-- The number of turns in a search that starts from nothing, or from a long copy. -/
def turnsFor (least : Nat) : Nat :=
  if least < 32 then 44 else 12

/-- How many bytes from a place on can be part of one copy. -/
def aheadAt (data : Array UInt8) (i : Nat) : Nat :=
  min longestCopy (data.size - i)

/-- How far back a copy at a place can reach. -/
def reachAt (data : Array UInt8) (i : Nat) : Nat :=
  min i (window - aheadAt data i)

/-- A short copy from far back does not pay. -/
def Copy.pays (i : Nat) (c : Copy) : Bool :=
  c.distance != 0 && !(c.length == shortestCopy && 8192 ≤ c.distance) && i % window != c.distance

/-- The longest copy that is found at a place, if it has more than `least` bytes. -/
def longest? (data : Array UInt8) (places : Places) (i least : Nat) : Option Copy :=
  let ahead := aheadAt data i
  if ahead ≤ least then none
  else
    let turns := turnsFor least
    let search : Search := ⟨data, places.earlier, i, reachAt data i, ahead⟩
    let best := search.follow (4 * turns + 4) turns 0 (i % window) ⟨least, 0⟩
    if best.pays i then some best else none

/-! ## 4. Tokens -/

/-- A copy that is put off, with the byte at its place. -/
structure Pending where
  byte : UInt8
  copy : Copy

/-- A copy of this length is not put off. -/
def promptLength : Nat := 128

/-- What is done at a place: the tokens that come of it, the copy that is put off, and the number
of bytes to move on. -/
structure Move where
  tokens : List Token
  pending : Option Pending
  count : Nat

/-- The move for a copy that is the best so far. -/
def Move.forCopy (before : List Token) (byte : UInt8) (c : Copy) : Move :=
  if promptLength ≤ c.length then ⟨before ++ [.copy c], none, c.length⟩
  else ⟨before, some ⟨byte, c⟩, 1⟩

/-- The move at a place. -/
def moveAt (data : Array UInt8) (places : Places) (i : Nat) : Option Pending → Move
  | none =>
    let byte := data.getD i 0
    match longest? data places i (shortestCopy - 1) with
    | none => ⟨[.literal byte], none, 1⟩
    | some c => .forCopy [] byte c
  | some pending =>
    match longest? data places i pending.copy.length with
    | none => ⟨[.copy pending.copy], none, pending.copy.length - 1⟩
    | some c => .forCopy [.literal pending.byte] (data.getD i 0) c

/-- The groups of tokens from a place on; each move takes a byte at least, so `fuel` bytes are
enough. -/
def groupsFrom (data : Array UInt8) :
    Nat → Nat → Places → Option Pending → TokenGroup → List TokenGroup
  | 0, _, _, _, group => [group]
  | fuel + 1, i, places, pending, group =>
    if data.size ≤ i then [{ group with atHand := group.size ≤ min data.size window }]
    else
      let places := places.insert data i
      let move := moveAt data places i pending
      let next := i + max 1 move.count
      let places := places.insertMany data (next - i - 1) (i + 1)
      let group := move.tokens.foldl TokenGroup.push group
      if group.isFull then
        let reach := min (reachAt data i + (next - i)) window
        { group with atHand := next - group.start ≤ reach } ::
          groupsFrom data fuel next places move.pending (.empty (group.start + group.size))
      else groupsFrom data fuel next places move.pending group

/-- The groups of tokens for data. -/
def tokenGroups (data : Array UInt8) : List TokenGroup :=
  groupsFrom data (data.size + 1) 0 .empty none (.empty 0)

end FatJar.Zip
