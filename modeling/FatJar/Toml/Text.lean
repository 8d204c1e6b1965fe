/-
FatJar.Toml.Text — the four written forms of a text, and keys.

A text stands between double quotes, with escapes, or between single quotes,
without; either quote three times lets it go over several lines. A line end at
the very start of such a text does not count, and CRLF counts as LF.

Contents:
1. escapes;
2. texts on one line;
3. texts on several lines;
4. texts and keys.
-/
import FatJar.Toml.Scan

namespace FatJar.Toml

/-- Puts characters in front of what has been read. -/
def prepend (cs : List Char) (scanned : Option (List Char × List Char)) : Option (List Char × List Char) :=
  scanned.map fun (read, rest) => (cs ++ read, rest)

/-! ## 1. Escapes -/

/-- The character of an escape with one letter. -/
def shortEscape? : Char → Option Char
  | 'b' => some '\x08'
  | 't' => some '\t'
  | 'n' => some '\n'
  | 'f' => some '\x0c'
  | 'r' => some '\r'
  | '"' => some '"'
  | '\\' => some '\\'
  | _ => none

/-- The value of a hexadecimal digit. -/
def hexValue? (c : Char) : Option Nat :=
  if c.isDigit then some (c.toNat - 48)
  else if 'a' ≤ c && c ≤ 'f' then some (c.toNat - 87)
  else if 'A' ≤ c && c ≤ 'F' then some (c.toNat - 55)
  else none

/-- The number in hexadecimal digits, of which `n` has been read. -/
def hexNumber? (n : Nat) : List Char → Option Nat
  | [] => some n
  | c :: rest => do hexNumber? (16 * n + (← hexValue? c)) rest

/-- The character whose code point is in the digits. -/
def codePoint? (digits : List Char) : Option Char := do
  let n ← hexNumber? 0 digits
  if n.isValidChar then return Char.ofNat n else none

/-! ## 2. One line -/

/-- The text up to the closing double quote. -/
def basicBody : List Char → Option (List Char × List Char)
  | '"' :: rest => some ([], rest)
  | '\\' :: 'u' :: a :: b :: c :: d :: rest => do
    prepend [← codePoint? [a, b, c, d]] (basicBody rest)
  | '\\' :: 'U' :: a :: b :: c :: d :: e :: f :: g :: h :: rest => do
    prepend [← codePoint? [a, b, c, d, e, f, g, h]] (basicBody rest)
  | '\\' :: c :: rest => do prepend [← shortEscape? c] (basicBody rest)
  | c :: rest => if isControl c || c == '\\' then none else prepend [c] (basicBody rest)
  | [] => none

/-- The text up to the closing single quote. -/
def literalBody : List Char → Option (List Char × List Char)
  | '\'' :: rest => some ([], rest)
  | c :: rest => if isControl c then none else prepend [c] (literalBody rest)
  | [] => none

/-! ## 3. Several lines -/

/-- Where a text on several lines is being read: inside it, after a backslash that only blanks
and a line end may follow, or after that line end, where all blanks are passed over. -/
inductive LineMode where
  | inside
  | beforeBreak
  | afterBreak
  deriving DecidableEq, Repr

/-- The text up to three double quotes; up to two more in front of them belong to it. -/
def multiBasicBody : LineMode → List Char → Option (List Char × List Char)
  | .beforeBreak, '\n' :: rest => multiBasicBody .afterBreak rest
  | .beforeBreak, '\r' :: '\n' :: rest => multiBasicBody .afterBreak rest
  | .beforeBreak, c :: rest => if isSpace c then multiBasicBody .beforeBreak rest else none
  | .afterBreak, '\n' :: rest => multiBasicBody .afterBreak rest
  | .afterBreak, '\r' :: '\n' :: rest => multiBasicBody .afterBreak rest
  | .afterBreak, ' ' :: rest => multiBasicBody .afterBreak rest
  | .afterBreak, '\t' :: rest => multiBasicBody .afterBreak rest
  | _, '"' :: '"' :: '"' :: '"' :: '"' :: rest => some (['"', '"'], rest)
  | _, '"' :: '"' :: '"' :: '"' :: rest => some (['"'], rest)
  | _, '"' :: '"' :: '"' :: rest => some ([], rest)
  | _, '\\' :: 'u' :: a :: b :: c :: d :: rest => do
    prepend [← codePoint? [a, b, c, d]] (multiBasicBody .inside rest)
  | _, '\\' :: 'U' :: a :: b :: c :: d :: e :: f :: g :: h :: rest => do
    prepend [← codePoint? [a, b, c, d, e, f, g, h]] (multiBasicBody .inside rest)
  | _, '\\' :: '\n' :: rest => multiBasicBody .afterBreak rest
  | _, '\\' :: '\r' :: '\n' :: rest => multiBasicBody .afterBreak rest
  | _, '\\' :: c :: rest =>
    if isSpace c then multiBasicBody .beforeBreak rest
    else do prepend [← shortEscape? c] (multiBasicBody .inside rest)
  | _, '\n' :: rest => prepend ['\n'] (multiBasicBody .inside rest)
  | _, '\r' :: '\n' :: rest => prepend ['\n'] (multiBasicBody .inside rest)
  | _, c :: rest =>
    if isControl c || c == '\\' then none else prepend [c] (multiBasicBody .inside rest)
  | _, [] => none

/-- The text up to three single quotes; up to two more in front of them belong to it. -/
def multiLiteralBody : List Char → Option (List Char × List Char)
  | '\'' :: '\'' :: '\'' :: '\'' :: '\'' :: rest => some (['\'', '\''], rest)
  | '\'' :: '\'' :: '\'' :: '\'' :: rest => some (['\''], rest)
  | '\'' :: '\'' :: '\'' :: rest => some ([], rest)
  | '\n' :: rest => prepend ['\n'] (multiLiteralBody rest)
  | '\r' :: '\n' :: rest => prepend ['\n'] (multiLiteralBody rest)
  | c :: rest => if isControl c then none else prepend [c] (multiLiteralBody rest)
  | [] => none

/-- Passes over a line end at the start of a text on several lines. -/
def skipFirstBreak : List Char → List Char
  | '\n' :: rest => rest
  | '\r' :: '\n' :: rest => rest
  | cs => cs

/-! ## 4. Texts and keys -/

/-- A text in any of its forms. -/
def string? : List Char → Option (List Char × List Char)
  | '"' :: '"' :: '"' :: rest => multiBasicBody .inside (skipFirstBreak rest)
  | '"' :: rest => basicBody rest
  | '\'' :: '\'' :: '\'' :: rest => multiLiteralBody (skipFirstBreak rest)
  | '\'' :: rest => literalBody rest
  | _ => none

/-- One part of a key: a text on one line, or bare characters. -/
def keyPart? : List Char → Option (List Char × List Char)
  | '"' :: rest => basicBody rest
  | '\'' :: rest => literalBody rest
  | cs =>
    let bare := cs.takeWhile isBare
    if bare.isEmpty then none else some (bare, cs.dropWhile isBare)

/-- Nesting, of values as of key parts, goes less deep than this. -/
def depthLimit : Nat := 80

/-- A key of fewer than `limit` parts, with dots between them and blanks around each. -/
def keyParts? : Nat → List Char → Option (List String × List Char)
  | 0, _ => none
  | limit + 1, cs => do
    let (part, rest) ← keyPart? (skipSpaces cs)
    match skipSpaces rest with
    | '.' :: rest => do
      let (parts, rest) ← keyParts? limit rest
      return (String.ofList part :: parts, rest)
    | rest => return ([String.ofList part], rest)

/-- A key. -/
def key? (cs : List Char) : Option (List String × List Char) :=
  keyParts? (depthLimit - 1) cs

end FatJar.Toml
