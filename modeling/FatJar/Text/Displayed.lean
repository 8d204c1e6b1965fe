/-
FatJar.Text.Displayed — text without the sequences that steer a terminal.

A text that comes from outside may hold control characters and sequences that
start with the escape character. What is displayed of it are the characters that
stand for themselves, and of the control characters those that move to another
column or line. A sequence that such a character interrupts ends there.

Contents:
1. sequences and the characters that are part of them;
2. what is displayed.
-/

namespace FatJar.Text

/-! ## 1. Sequences -/

/-- What a character is part of. -/
inductive Sequence where
  /-- No sequence. -/
  | text
  /-- The escape character has been read. -/
  | escape
  /-- An escape sequence that goes on. -/
  | escapeRest
  /-- A control sequence: numbers and a letter. -/
  | control
  /-- What stands before the data of a device. -/
  | deviceHead
  /-- Data that is not for the display. -/
  | data
  /-- A command for the system. -/
  | command
  deriving DecidableEq, Repr

/-- The control characters that are displayed. -/
def isSpacing (c : Char) : Bool :=
  c == '\t' || c == '\n' || c == '\x0c' || c == '\r'

/-- Whether a byte after the first in the form of a character is the one that ends data. -/
def endsData (c : Char) : Bool :=
  ((String.singleton c).toByteArray.data.toList.drop 1).contains 0x9c

/-- What an ASCII character leads to that is neither a control character nor the last one. -/
def Sequence.afterVisible (c : Char) : Sequence → Option Sequence
  | .text | .data | .command => none
  | .escape =>
    if c.toNat ≤ 0x2f then some .escapeRest
    else if c == '[' then some .control
    else if c == ']' then some .command
    else if c == 'P' then some .deviceHead
    else if c == 'X' || c == '^' || c == '_' then some .data
    else some .text
  | .escapeRest => if c.toNat ≤ 0x2f then none else some .text
  | .control => if c.toNat ≤ 0x3f then none else some .text
  | .deviceHead => if c.toNat ≤ 0x3f then none else some .data

/-- What a character leads to, if it changes anything. -/
def Sequence.after (c : Char) (s : Sequence) : Option Sequence :=
  if c == '\x1b' then some .escape
  else if c == '\x18' || c == '\x1a' then some .text
  else if c == '\x07' && s == .command then some .text
  else if 0x20 ≤ c.toNat && c.toNat < 0x7f then s.afterVisible c
  else if 0x80 ≤ c.toNat && (s == .text || (s == .data && endsData c)) then some .text
  else none

/-- Whether a character is displayed. -/
def Sequence.displays (c : Char) : Sequence → Bool
  | .text => isSpacing c || (0x20 ≤ c.toNat && c != '\x7f')
  | .escape | .escapeRest | .control => isSpacing c
  | .deviceHead | .data | .command => false

/-! ## 2. Display -/

/-- What is displayed of a text. While characters are displayed they are taken to be part of no
sequence, but the sequence that was interrupted goes on with the next character that is not. -/
def displayedFrom (displaying : Bool) (s : Sequence) : List Char → List Char
  | [] => []
  | c :: rest =>
    if displaying && Sequence.text.displays c then
      c :: displayedFrom true ((Sequence.text.after c).getD s) rest
    else
      let s := if displaying then (Sequence.text.after c).getD s else s
      let next := (s.after c).getD s
      if s.displays c then c :: displayedFrom true next rest
      else displayedFrom false next rest

/-- What is displayed of a text. -/
def displayed (text : String) : String :=
  String.ofList (displayedFrom false .text text.toList)

end FatJar.Text
