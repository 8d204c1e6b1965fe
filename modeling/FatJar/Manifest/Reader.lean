/-
FatJar.Manifest.Reader — a manifest from bytes.

Lines end in LF or CRLF, and the main section ends at the first empty line: what
follows is not read. A line that starts with a space continues the line before
it, so lines are joined as bytes first and decoded after that. A character may
therefore be cut by a line end.

Contents:
1. numbered physical lines;
2. logical lines;
3. attributes and manifests.
-/
import FatJar.Manifest.Basic
import FatJar.Text.Split
import FatJar.Text.Utf8

namespace FatJar.Manifest

/-! ## 1. Physical lines -/

/-- A line with its number; the first line has number 1. -/
structure NumberedLine where
  number : Nat
  text : Bytes
  deriving DecidableEq, Repr

/-- The line without the carriage return at its end, if there is one. -/
def stripReturn : Bytes → Bytes
  | [] => []
  | [b] => if b == 0x0d then [] else [b]
  | b :: rest => b :: stripReturn rest

/-- Gives lines their numbers, from `n` on. -/
def number (n : Nat) : List Bytes → List NumberedLine
  | [] => []
  | line :: rest => ⟨n, line⟩ :: number (n + 1) rest

/-- The lines of the main section, which ends before the first empty line. -/
def sectionLines (bytes : Bytes) : List NumberedLine :=
  let lines := (Text.splitWhere (· == 0x0a) bytes).map stripReturn
  number 1 (lines.takeWhile fun line => !line.isEmpty)

/-! ## 2. Logical lines -/

/-- A line that continues the one before it starts with a space. -/
def NumberedLine.isContinuation (line : NumberedLine) : Bool :=
  line.text.head? == some 0x20

/-- Joins each line with the continuations after it. The first component holds the
continuations that still wait for the line that they continue. -/
def joinLines : List NumberedLine → Bytes × List NumberedLine
  | [] => ([], [])
  | line :: rest =>
    let (waiting, joined) := joinLines rest
    if line.isContinuation then (line.text.tail ++ waiting, joined)
    else ([], ⟨line.number, line.text ++ waiting⟩ :: joined)

/-- The logical lines, each with the number of its first physical line. -/
def logicalLines (lines : List NumberedLine) : Except Error (List NumberedLine) :=
  match lines.head? with
  | none => .ok []
  | some first =>
    if first.isContinuation then .error (.malformed first.number .strayContinuation)
    else .ok (joinLines lines).2

/-! ## 3. Attributes -/

/-- The value after a colon starts after one space, if there is one. -/
def stripSpace : List Char → List Char
  | ' ' :: rest => rest
  | cs => cs

/-- The attribute of a logical line. -/
def readAttribute (line : NumberedLine) : Except Error Attribute :=
  match Text.decode? line.text with
  | none => .error .encoding
  | some text =>
    match Text.cutAt? (· == ':') text.toList with
    | none => .error (.malformed line.number .noColon)
    | some (name, value) =>
      if isName (String.ofList name) then
        .ok ⟨String.ofList name, String.ofList (stripSpace value)⟩
      else .error (.malformed line.number (.badName (String.ofList name)))

/-- The attributes of the lines, or the fault of the first line that has one. -/
def attributesOf : List NumberedLine → Except Error (List Attribute)
  | [] => .ok []
  | line :: rest => do
    let a ← readAttribute line
    let others ← attributesOf rest
    return a :: others

/-- The manifest in the bytes. -/
def ofBytes (bytes : Bytes) : Except Error Manifest := do
  let lines ← logicalLines (sectionLines bytes)
  let attributes ← attributesOf lines
  return ⟨attributes⟩

end FatJar.Manifest
