/-
FatJar.Text.Quoted — a text inside a message, between double quotes.

Names and patterns that came from outside are quoted in error messages, so that
a reader sees where they start and end and no control character reaches the
terminal. The single quote stays as it is.

Contents:
1. the escape of one character;
2. the quoted text.
-/
import FatJar.Text.Visible

namespace FatJar.Text

/-! ## 1. One character -/

/-- A code point in hexadecimal, with small letters and no leading zeros. -/
def hexadecimal (n : Nat) : List Char :=
  Nat.toDigits 16 n

/-- What stands for a character between double quotes. -/
def escapeChar (c : Char) : List Char :=
  if c == '"' then ['\\', '"']
  else if c == '\\' then ['\\', '\\']
  else if c == '\t' then ['\\', 't']
  else if c == '\r' then ['\\', 'r']
  else if c == '\n' then ['\\', 'n']
  else if c == '\x00' then ['\\', '0']
  else if isVisible c then [c]
  else '\\' :: 'u' :: '\x7b' :: (hexadecimal c.toNat ++ ['\x7d'])

/-! ## 2. The quoted text -/

/-- The text between double quotes, with escapes for what is not visible. -/
def quoted (s : String) : String :=
  String.ofList ('"' :: (s.toList.flatMap escapeChar ++ ['"']))

end FatJar.Text
