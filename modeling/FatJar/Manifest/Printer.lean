/-
FatJar.Manifest.Printer — a manifest as bytes.

Each attribute is one logical line `Name: value`. A physical line holds at most
72 bytes without its CRLF; a longer logical line goes on in lines that start
with a space, and a character is never cut. An empty line ends the section.

Contents:
1. the physical lines of one logical line;
2. the bytes of a manifest.
-/
import FatJar.Manifest.Basic
import FatJar.Text.Split
import FatJar.Text.Utf8

namespace FatJar.Manifest

/-! ## 1. Physical lines -/

/-- The most bytes in a physical line. -/
def maxLineBytes : Nat := 72

/-- Breaks characters into lines, with `used` bytes already in the first: a character goes to a
new line, after a space, exactly when the current one has no room for it. -/
def wrapFrom (used : Nat) : List Char → List (List Char)
  | [] => [[]]
  | c :: rest =>
    if used + c.utf8Size ≤ maxLineBytes then
      Text.extendFirst c (wrapFrom (used + c.utf8Size) rest)
    else
      [] :: Text.extendFirst ' ' (Text.extendFirst c (wrapFrom (1 + c.utf8Size) rest))

/-- The logical line of an attribute. -/
def logicalLine (a : Attribute) : String :=
  a.name ++ ": " ++ a.value

/-- The physical lines of an attribute. -/
def physicalLines (a : Attribute) : List (List Char) :=
  wrapFrom 0 (logicalLine a).toList

/-! ## 2. Bytes -/

/-- The end of a line. -/
def lineEnd : Bytes := [0x0d, 0x0a]

/-- A physical line with its end. -/
def lineBytes (line : List Char) : Bytes :=
  Text.encode (String.ofList line) ++ lineEnd

/-- The manifest as it is stored in an archive. -/
def toBytes (m : Manifest) : Bytes :=
  m.attributes.flatMap (fun a => (physicalLines a).flatMap lineBytes) ++ lineEnd

end FatJar.Manifest
