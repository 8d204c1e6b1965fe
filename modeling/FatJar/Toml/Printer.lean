/-
FatJar.Toml.Printer — texts, keys and arrays of texts as they are written.

The plainest form that can hold a text is taken: between double quotes without
escapes, between single quotes, the same on several lines, and double quotes
with escapes where nothing else will do. A tab between double quotes is always
escaped.

Contents:
1. what a text holds;
2. escapes;
3. texts;
4. keys and arrays.
-/
import FatJar.Toml.Scan

namespace FatJar.Toml

/-! ## 1. What a text holds -/

/-- A character that only an escape can stand for; line feeds and tabs are none. -/
def needsEscape (c : Char) : Bool :=
  isControl c && c != '\n'

/-- The longest run of a character, of which the current one has `run` so far. -/
def longestRun (c : Char) (run : Nat) : List Char → Nat
  | [] => run
  | d :: rest => if d == c then longestRun c (run + 1) rest else max run (longestRun c 0 rest)

/-- The form in which a text is written. -/
inductive TextForm where
  /-- Double quotes. -/
  | basic
  /-- Single quotes. -/
  | literal
  /-- Three double quotes. -/
  | multiBasic
  /-- Three single quotes. -/
  | multiLiteral
  deriving DecidableEq, Repr

/-- The form of a text on one line that needs no escapes. -/
def plainForm? (s : List Char) : Option TextForm :=
  if s.any needsEscape || s.contains '\n' then none
  else if !s.contains '\\' && !s.contains '"' then some .basic
  else if !s.contains '\'' then some .literal
  else none

/-- The form of a text. -/
def formOf (s : List Char) : TextForm :=
  match plainForm? s with
  | some form => form
  | none =>
    if !s.any needsEscape && !s.contains '\\' && longestRun '"' 0 s < 3 then .multiBasic
    else if !s.any needsEscape && longestRun '\'' 0 s < 3 then .multiLiteral
    else if s.contains '\n' then .multiBasic
    else .basic

/-! ## 2. Escapes -/

/-- A hexadecimal digit, in capitals. -/
def upperDigit (n : Nat) : Char :=
  (Nat.digitChar n).toUpper

/-- What stands for a character that is neither a line feed nor a double quote. -/
def escapeOther (c : Char) : List Char :=
  if c == '\x08' then ['\\', 'b']
  else if c == '\t' then ['\\', 't']
  else if c == '\x0c' then ['\\', 'f']
  else if c == '\r' then ['\\', 'r']
  else if c == '\\' then ['\\', '\\']
  else if isControl c then
    ['\\', 'u', '0', '0', upperDigit (c.toNat / 16), upperDigit (c.toNat % 16)]
  else [c]

/-- What stands for a character between double quotes. -/
def escapeBasic (c : Char) : List Char :=
  if c == '\n' then ['\\', 'n']
  else if c == '"' then ['\\', '"']
  else escapeOther c

/-- A text between three double quotes: every third of several double quotes is escaped; `run`
counts those just before. -/
def escapeMulti (run : Nat) : List Char → List Char
  | [] => []
  | c :: rest =>
    if c == '"' then
      if run == 2 then '\\' :: '"' :: escapeMulti 0 rest else '"' :: escapeMulti (run + 1) rest
    else if c == '\n' then '\n' :: escapeMulti 0 rest
    else escapeOther c ++ escapeMulti 0 rest

/-! ## 3. Texts -/

/-- A text on several lines starts on a line of its own if it has a line feed. -/
def firstBreak (s : List Char) : List Char :=
  if s.contains '\n' then ['\n'] else []

/-- The text in the given form. -/
def writeText (s : List Char) : TextForm → List Char
  | .basic => '"' :: (s.flatMap escapeBasic ++ ['"'])
  | .literal => '\'' :: (s ++ ['\''])
  | .multiBasic => '"' :: '"' :: '"' :: (firstBreak s ++ escapeMulti 0 s ++ ['"', '"', '"'])
  | .multiLiteral => '\'' :: '\'' :: '\'' :: (firstBreak s ++ s ++ ['\'', '\'', '\''])

/-- A text as it is written. -/
def printText (s : String) : List Char :=
  writeText s.toList (formOf s.toList)

/-! ## 4. Keys and arrays -/

/-- A key as it is written: bare where it can be, else on one line. -/
def printKey (s : String) : List Char :=
  let cs := s.toList
  if !cs.isEmpty && cs.all isBare then cs else writeText cs ((plainForm? cs).getD .basic)

/-- A key with what is written for its value. -/
def printPair (key : String) (value : List Char) : List Char :=
  printKey key ++ " = ".toList ++ value ++ ['\n']

/-- An array of texts: on one line up to one text, else each on a line of its own. -/
def printArray (texts : List String) : List Char :=
  match texts with
  | [] => "[]".toList
  | [text] => '[' :: (printText text ++ [']'])
  | texts => "[\n".toList ++ texts.flatMap (fun t => "    ".toList ++ printText t ++ ",\n".toList) ++ [']']

/-- The header of a table. -/
def printHeader (key : String) : List Char :=
  '[' :: (printKey key ++ "]\n".toList)

end FatJar.Toml
