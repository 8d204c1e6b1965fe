/-
FatJar.Toml.Document — configuration texts and the tables in them.

A text is a list of lines: keys with values, and headers that open the table to
which the keys after them belong. A table may be opened once only, and a key may
be set once only.

Contents:
1. lines;
2. opening tables;
3. the table of a text.
-/
import FatJar.Toml.Value

namespace FatJar.Toml

/-! ## 1. Lines -/

/-- A line that is neither blank nor a comment. -/
inductive Line where
  | header (path : List String)
  | arrayHeader (path : List String)
  | keyValue (key : List String) (item : Item)

/-- A header after its opening bracket. -/
def header? (cs : List Char) : Option (List String × List Char) := do
  let (path, cs) ← key? cs
  let cs ← expect? ']' cs
  return (path, ← endLine cs)

/-- The header of an array of tables after its opening brackets. -/
def arrayHeader? (cs : List Char) : Option (List String × List Char) := do
  let (path, cs) ← key? cs
  let cs ← expect? ']' cs
  let cs ← expect? ']' cs
  return (path, ← endLine cs)

/-- A key with its value, up to the end of the line. -/
def keyLine? (cs : List Char) : Option ((List String × Item) × List Char) := do
  let (pair, cs) ← keyValue? (value? (depthLimit - 1)) cs
  return (pair, ← endLine cs)

/-- The lines of a text; each takes a character at least. -/
def lines? : Nat → List Char → Option (List Line)
  | 0, _ => none
  | fuel + 1, cs =>
    match skipSpaces cs with
    | [] => some []
    | '\n' :: rest => lines? fuel rest
    | '\r' :: '\n' :: rest => lines? fuel rest
    | '#' :: rest => do lines? fuel (← endComment rest)
    | '[' :: '[' :: rest => do
      let (path, rest) ← arrayHeader? rest
      return .arrayHeader path :: (← lines? fuel rest)
    | '[' :: rest => do
      let (path, rest) ← header? rest
      return .header path :: (← lines? fuel rest)
    | cs => do
      let ((key, item), rest) ← keyLine? cs
      return .keyValue key item :: (← lines? fuel rest)

/-! ## 2. Opening tables -/

/-- Opens a table that has not been opened before. -/
def openLast (key : String) (pairs : Pairs) : Option Pairs :=
  match lookup? key pairs with
  | none => some (pairs ++ [(key, .table .header [])])
  | some (.table .implicit inner) => some (moveToEnd key (.table .header inner) pairs)
  | some _ => none

/-- Adds a table to an array of tables. -/
def openElement (key : String) (pairs : Pairs) : Option Pairs :=
  match lookup? key pairs with
  | none => some (pairs ++ [(key, .tables [[]])])
  | some (.tables elements) => some (update key (.tables (elements ++ [[]])) pairs)
  | some _ => none

/-- Goes through the tables of a header's path, making those that are missing, and makes a change
in the innermost. Of an array of tables it takes the last. -/
def changeAt (change : Pairs → Option Pairs) : List String → Pairs → Option Pairs
  | [], pairs => change pairs
  | part :: path, pairs =>
    match lookup? part pairs with
    | none => do return pairs ++ [(part, .table .implicit (← changeAt change path []))]
    | some (.table form inner) =>
      if form == .inline then none
      else do return update part (.table form (← changeAt change path inner)) pairs
    | some (.tables elements) => do
      return update part (.tables (← changeLast (changeAt change path) elements)) pairs
    | some _ => none

/-! ## 3. The table of a text -/

/-- The table of a text so far, and the path of the table that is open. -/
structure Document where
  pairs : Pairs
  current : List String

/-- Takes one more line. -/
def Document.add (d : Document) : Line → Option Document
  | .header path => do
    let (above, key) ← splitKey? path
    return ⟨← changeAt (openLast key) above d.pairs, path⟩
  | .arrayHeader path => do
    let (above, key) ← splitKey? path
    return ⟨← changeAt (openElement key) above d.pairs, path⟩
  | .keyValue key item => do
    return { d with pairs := ← changeAt (setKey .dotted key item) d.current d.pairs }

/-- The document of some lines. -/
def Document.ofLines : Document → List Line → Option Document
  | d, [] => some d
  | d, line :: rest => do Document.ofLines (← d.add line) rest

/-- The text without the mark of its byte order. -/
def skipMark : List Char → List Char
  | '\ufeff' :: rest => rest
  | cs => cs

/-- The table of a text, or none where the text is not well formed. -/
def parse? (text : String) : Option Pairs := do
  let cs := skipMark text.toList
  let d ← Document.ofLines ⟨[], []⟩ (← lines? (cs.length + 1) cs)
  return d.pairs

end FatJar.Toml
