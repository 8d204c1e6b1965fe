/-
FatJar.FileTree.Path — paths as they are written.

A path is kept as it was given, since messages repeat it. Joining puts one slash
between two paths and changes nothing else. Going up drops the last component
together with the slashes and the `.` components beside it.

Contents:
1. paths and joining;
2. the steps of a path;
3. going up.
-/
import FatJar.Text.Split

namespace FatJar

/-! ## 1. Paths and joining -/

/-- A path of the file tree, as written. -/
structure Path where
  text : String
  deriving DecidableEq, Repr

namespace Path

/-- A path that starts at the root. -/
def isAbsolute (p : Path) : Bool :=
  p.text.toList.head? == some '/'

/-- A path that ends in a slash. -/
def endsInSlash (p : Path) : Bool :=
  p.text.toList.getLast? == some '/'

/-- A path with a zero byte in it, which no file can have. -/
def hasZero (p : Path) : Bool :=
  p.text.toList.contains '\x00'

/-- The path that leads on from `base`; an absolute path stands for itself. -/
def join (base p : Path) : Path :=
  if p.isAbsolute then p
  else if base.text == "" || base.endsInSlash then ⟨base.text ++ p.text⟩
  else ⟨base.text ++ "/" ++ p.text⟩

/-! ## 2. Steps -/

/-- The parts between slashes, without the empty ones. -/
def parts (p : Path) : List String :=
  ((Text.splitWhere (· == '/') p.text.toList).filter fun part => !part.isEmpty).map String.ofList

/-- The steps from directory to directory: a slash at the end asks that a directory be there. -/
def steps (p : Path) : List String :=
  if p.endsInSlash then p.parts ++ ["."] else p.parts

/-! ## 3. Going up -/

/-- The start of a path that going up keeps (the root's slash, or a leading `.`), and the rest. -/
def lead : List Char → List Char × List Char
  | '/' :: rest => (['/'], rest)
  | ['.'] => (['.'], [])
  | '.' :: '/' :: rest => (['.'], '/' :: rest)
  | cs => ([], cs)

/-- A piece between slashes that is no component: nothing, or `.`. -/
def isSkipped (piece : List Char) : Bool :=
  piece.isEmpty || piece == ['.']

/-- The pieces, given from the last to the first, with slashes between them. -/
def joinPieces : List (List Char) → List Char
  | [] => []
  | [piece] => piece
  | piece :: rest => joinPieces rest ++ '/' :: piece

/-- The pieces above each component, from the last component to the first; the pieces are given
from the last to the first. -/
def piecesAbove : List (List Char) → List (List (List Char))
  | [] => []
  | piece :: rest =>
    if isSkipped piece then piecesAbove rest
    else rest.dropWhile isSkipped :: piecesAbove rest

/-- The directories above the path as it is written, the nearest first. -/
def above (p : Path) : List Path :=
  let (start, body) := lead p.text.toList
  let pieces := (Text.splitWhere (· == '/') body).reverse
  let upward := (piecesAbove pieces).map fun rest => ⟨String.ofList (start ++ joinPieces rest)⟩
  if start == ['.'] then upward ++ [⟨""⟩] else upward

/-- The directory that holds the last component. -/
def parent? (p : Path) : Option Path :=
  p.above.head?

/-- The path and the directories above it. -/
def ancestors (p : Path) : List Path :=
  p :: p.above

end Path

end FatJar
