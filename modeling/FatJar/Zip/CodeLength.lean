/-
FatJar.Zip.CodeLength — codes that fit how often their symbols occur.

Symbols that occur often get short words. The lengths are the depths of the
symbols in a tree that is built by joining the two lightest parts again and
again; words that are too long for the format are shortened at the cost of
others. The words follow from the lengths alone.

Contents:
1. depths in a tree;
2. lengths up to a limit;
3. words.
-/
import FatJar.Text.Utf8

namespace FatJar.Zip

/-! ## 1. Depths -/

/-- A part of a tree: how often its symbols occur, and how deep each of them is. -/
structure Subtree where
  weight : Nat
  depths : List Nat

namespace Subtree

/-- Joins two parts. -/
def join (a b : Subtree) : Subtree :=
  ⟨a.weight + b.weight, (a.depths ++ b.depths).map (· + 1)⟩

/-- Puts a part behind all those that are not heavier. -/
def insert (t : Subtree) : List Subtree → List Subtree
  | [] => [t]
  | other :: rest => if t.weight < other.weight then t :: other :: rest else other :: t.insert rest

/-- Joins the two lightest parts until one is left; each step leaves one less, so as much `fuel` as
there are parts is enough. -/
def joinAll : Nat → List Subtree → List Nat
  | fuel + 1, a :: b :: rest => joinAll fuel ((a.join b).insert rest)
  | _, [single] => single.depths
  | _, _ => []

end Subtree

/-- The depths of symbols with the given weights, which are in increasing order. A single symbol
still needs a word. -/
def depths : List Nat → List Nat
  | [_] => [1]
  | weights => Subtree.joinAll weights.length (weights.map fun w => ⟨w, [0]⟩)

/-! ## 2. Lengths -/

/-- How many depths there are of each length from 1 up to a limit; what is deeper counts as the
limit. -/
def countsUpTo (limit : Nat) (depths : List Nat) : List Nat :=
  (List.range limit).map fun i => (depths.filter fun depth => min depth limit == i + 1).length

/-- The room that words take, in words of the greatest length. -/
def roomTaken : List Nat → Nat
  | [] => 0
  | count :: rest => count * Nat.pow 2 rest.length + roomTaken rest

/-- Takes a word of the greatest length away and makes the longest of the other words one bit
longer, so that there are two of them. The counts are those from the greatest length down. -/
def relieve : List Nat → List Nat
  | [] => []
  | longest :: rest =>
    let zeros := rest.takeWhile (· == 0)
    match (longest - 1) :: zeros, rest.drop zeros.length with
    | longer, count :: shorter =>
      longer.dropLast ++ [(longer.getLast?.getD 0) + 2] ++ ((count - 1) :: shorter)
    | longer, [] => longer

/-- Repeats a step. -/
def repeatStep (step : List Nat → List Nat) : Nat → List Nat → List Nat
  | 0, counts => counts
  | n + 1, counts => repeatStep step n (step counts)

/-- How many words there are of each length up to a limit. -/
def limitedCounts (limit : Nat) (depths : List Nat) : List Nat :=
  let counts := countsUpTo limit depths
  if depths.length ≤ 1 then counts
  else (repeatStep relieve (roomTaken counts - Nat.pow 2 limit) counts.reverse).reverse

/-- The lengths of the words for symbols that occur as often as is given; 0 for a symbol that does
not occur. -/
def codeLengths (limit : Nat) (counts : Array Nat) : Array Nat :=
  let used := counts.toList.zipIdx.filter fun entry => entry.1 != 0
  let sorted := used.mergeSort fun a b => a.1 < b.1 || (a.1 == b.1 && a.2 ≤ b.2)
  let words := limitedCounts limit (depths (sorted.map (·.1)))
  let lengths := words.zipIdx.flatMap fun entry => List.replicate entry.1 (entry.2 + 1)
  (sorted.reverse.zip lengths).foldl (fun found entry => found.setIfInBounds entry.1.2 entry.2)
    (Array.replicate counts.size 0)

/-! ## 3. Words -/

/-- A word of a code: its bits as a number, the first bit lowest, and how many there are. -/
structure Word where
  bits : Nat
  length : Nat
  deriving DecidableEq, Repr

/-- The lowest bits of a number in the other order. -/
def reversedBits : Nat → Nat → Nat
  | 0, _ => 0
  | length + 1, n => n % 2 * Nat.pow 2 length + reversedBits length (n / 2)

/-- The first word of each length, starting with length 0. -/
def firstWords (counts : List Nat) : List Nat :=
  counts.scanl (fun first count => 2 * (first + count)) 0

/-- The words for symbols with the given lengths: shorter words come first, and words of one length
in the order of their symbols. -/
def codeWords (lengths : Array Nat) : Array Word :=
  let greatest := lengths.foldl max 0
  let counts := (List.range (greatest + 1)).map fun length =>
    if length == 0 then 0 else (lengths.toList.filter (· == length)).length
  let step (state : Array Nat × Array Word) (length : Nat) : Array Nat × Array Word :=
    let next := state.1.getD length 0
    (state.1.setIfInBounds length (next + 1), state.2.push ⟨reversedBits length next, length⟩)
  (lengths.foldl step ((firstWords counts).toArray, #[])).2

end FatJar.Zip
