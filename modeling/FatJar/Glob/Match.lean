/-
FatJar.Glob.Match — which names a pattern matches.

A pattern is matched against all the ends of a name at once. A row of answers
has one for each end, the whole name first and the empty end last; the row of a
token in front of others comes from their row. The work is therefore bounded by
the product of the two lengths, however many wildcards there are.

Contents:
1. one character;
2. rows;
3. names.
-/
import FatJar.Glob.Pattern

namespace FatJar.Glob

/-! ## 1. One character -/

/-- Whether a token that stands for one character accepts it. -/
def Token.accepts : Token → Char → Bool
  | .literal d, c => c == d
  | .anyChar, _ => true
  | .charSet negated ranges, c => (ranges.any fun r => r.1 ≤ c && c ≤ r.2) != negated
  | .anySequence, _ => false
  | .anyDirectories, _ => false

/-! ## 2. Rows -/

/-- The first answer of a row: the one for the longest end. -/
def first (row : List Bool) : Bool :=
  row.head?.getD false

/-- The row of no tokens: only the empty end is matched. -/
def emptyRow : List Char → List Bool
  | [] => [true]
  | _ :: rest => false :: emptyRow rest

/-- The row of a token for one character in front of tokens with the given row. -/
def charRow (t : Token) : List Char → List Bool → List Bool
  | c :: rest, _ :: later => (t.accepts c && first later) :: charRow t rest later
  | _, _ => [false]

/-- The row of any sequence in front of tokens with the given row. -/
def sequenceRow : List Bool → List Bool
  | [] => []
  | here :: later =>
    let row := sequenceRow later
    (here || first row) :: row

/-- Whether the tokens match an end that starts after a slash of the text, or the empty end. -/
def laterComponent : List Char → List Bool → Bool
  | c :: rest, _ :: later =>
    ((c == '/' || rest.isEmpty) && first later) || laterComponent rest later
  | _, _ => false

/-- The row of any directories in front of tokens with the given row. -/
def directoriesRow : List Char → List Bool → List Bool
  | c :: rest, here :: later =>
    (here || laterComponent (c :: rest) (here :: later)) :: directoriesRow rest later
  | _, row => row

/-- For each end of the text, whether the tokens match it. -/
def matchRow (text : List Char) : List Token → List Bool
  | [] => emptyRow text
  | .anySequence :: rest => sequenceRow (matchRow text rest)
  | .anyDirectories :: rest => directoriesRow text (matchRow text rest)
  | t :: rest => charRow t text (matchRow text rest)

/-! ## 3. Names -/

/-- Whether the pattern matches the whole name. -/
def Pattern.matches (p : Pattern) (name : String) : Bool :=
  first (matchRow name.toList p.tokens)

end FatJar.Glob
