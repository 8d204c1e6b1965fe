/-
FatJar.Text.Number — whole numbers as people write them.

A number is a row of decimal digits, with a plus sign before it or not, and has
to fit into 64 bits. Zeros at the front do not matter.
-/

namespace FatJar.Text

/-- What can be wrong with the text of a number. -/
inductive NumberFault where
  | empty
  | badDigit
  | tooLarge
  deriving DecidableEq, Repr

/-- The wording of a number's fault. -/
def NumberFault.reason : NumberFault → String
  | .empty => "cannot parse integer from empty string"
  | .badDigit => "invalid digit found in string"
  | .tooLarge => "number too large to fit in target type"

/-- The greatest number that can be given. -/
def maxNumber : Nat := Nat.pow 2 64 - 1

/-- Reads digits from the left; the first thing that is wrong counts. -/
def readDigits (number : Nat) : List Char → Except NumberFault Nat
  | [] => .ok number
  | c :: rest =>
    if !c.isDigit then .error .badDigit
    else
      let next := 10 * number + (c.toNat - '0'.toNat)
      if maxNumber < next then .error .tooLarge else readDigits next rest

/-- Reads a number; a plus sign may stand before it. -/
def readNumber : List Char → Except NumberFault Nat
  | [] => .error .empty
  | ['+'] => .error .badDigit
  | '+' :: digits => readDigits 0 digits
  | digits => readDigits 0 digits

end FatJar.Text
