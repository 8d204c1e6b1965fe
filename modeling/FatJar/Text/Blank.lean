/-
FatJar.Text.Blank — white space, and text without it at its ends.

A class name, an output path and an attribute key may not be made of white
space only. White space is the Unicode property `White_Space`, so it holds
more than the six ASCII blanks.

Contents:
1. the class `isBlank`;
2. `trim`, the text between the outermost characters that are not blank.
-/

namespace FatJar.Text

/-! ## 1. The class -/

/-- White space in the sense of the Unicode property `White_Space`. -/
def isBlank (c : Char) : Bool :=
  let n := c.toNat
  (9 ≤ n && n ≤ 13) || n == 0x20 || n == 0x85 || n == 0xa0 || n == 0x1680 ||
    (0x2000 ≤ n && n ≤ 0x200a) || n == 0x2028 || n == 0x2029 || n == 0x202f ||
    n == 0x205f || n == 0x3000

/-! ## 2. Trimming -/

/-- The characters without the blanks at the right end. -/
def trimRight : List Char → List Char
  | [] => []
  | c :: cs =>
    match trimRight cs with
    | [] => if isBlank c then [] else [c]
    | rest => c :: rest

/-- The text without the white space at either end. -/
def trim (s : String) : String :=
  String.ofList (trimRight (s.toList.dropWhile isBlank))

/-- A text is blank when nothing is left of it after trimming. -/
def blank (s : String) : Bool :=
  s.toList.all isBlank

end FatJar.Text
