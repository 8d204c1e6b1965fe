/-
FatJar.Toml.Scan — blanks, line ends and comments of a configuration text.

A scanner takes characters and gives what it has read with the characters that
are left, or nothing where its construct does not stand.

Contents:
1. character classes;
2. blanks and line ends;
3. what may stand between the items of an array.
-/

namespace FatJar.Toml

/-! ## 1. Character classes -/

/-- A space or a tab. -/
def isSpace (c : Char) : Bool :=
  c == ' ' || c == '\t'

/-- A character that no text may hold as it is, tabs and line ends apart. -/
def isControl (c : Char) : Bool :=
  (c.toNat < 0x20 && c != '\t') || c.toNat == 0x7f

/-- A character that a key may hold without quotes. -/
def isBare (c : Char) : Bool :=
  c.isAlphanum || c == '_' || c == '-'

/-! ## 2. Blanks and line ends -/

/-- Passes over spaces and tabs. -/
def skipSpaces (cs : List Char) : List Char :=
  cs.dropWhile isSpace

/-- Passes over the rest of a line up to its end, which is not left. A carriage return counts only
in front of a line feed. -/
def endComment : List Char → Option (List Char)
  | [] => some []
  | '\n' :: rest => some rest
  | '\r' :: '\n' :: rest => some rest
  | c :: rest => if isControl c then none else endComment rest

/-- Passes over blanks, a comment and the end of the line or of the text. -/
def endLine (cs : List Char) : Option (List Char) :=
  match skipSpaces cs with
  | [] => some []
  | '\n' :: rest => some rest
  | '\r' :: '\n' :: rest => some rest
  | '#' :: rest => endComment rest
  | _ => none

/-! ## 3. Between the items of an array -/

/-- Passes over blanks, line ends and comments; `comment` says that one has been started. -/
def skipTrivia : Bool → List Char → Option (List Char)
  | false, [] => some []
  | false, '\r' :: '\n' :: rest => skipTrivia false rest
  | false, '#' :: rest => skipTrivia true rest
  | false, c :: rest =>
    if isSpace c || c == '\n' then skipTrivia false rest else some (c :: rest)
  | true, [] => none
  | true, '\n' :: rest => skipTrivia false rest
  | true, '\r' :: '\n' :: rest => skipTrivia false rest
  | true, c :: rest => if isControl c then none else skipTrivia true rest

end FatJar.Toml
