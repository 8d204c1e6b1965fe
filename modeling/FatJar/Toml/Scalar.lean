/-
FatJar.Toml.Scalar — numbers and dates.

Integers have 64 bits. Of numbers with a fraction or an exponent and of dates
only the form matters here: no setting has such a value, but a text that holds
one is well formed.

Contents:
1. digits;
2. integers;
3. numbers with a fraction or an exponent;
4. dates and times.
-/
import FatJar.Toml.Text

namespace FatJar.Toml

/-! ## 1. Digits -/

/-- The digits from here on; an underscore may stand between two of them. -/
def moreDigits (isDigit : Char → Bool) : List Char → Option (List Char × List Char)
  | '_' :: c :: rest =>
    if isDigit c then prepend [c] (moreDigits isDigit rest) else none
  | '_' :: [] => none
  | c :: rest =>
    if isDigit c then prepend [c] (moreDigits isDigit rest) else some ([], c :: rest)
  | [] => some ([], [])

/-- One digit at least. -/
def digits? (isDigit : Char → Bool) : List Char → Option (List Char × List Char)
  | c :: rest => if isDigit c then prepend [c] (moreDigits isDigit rest) else none
  | [] => none

/-- The digits of a decimal number: a number of several digits does not start with a zero. -/
def decimal? : List Char → Option (List Char × List Char)
  | '0' :: rest => some (['0'], rest)
  | cs => digits? Char.isDigit cs

/-- The value of digits of a base; each is below it. -/
def valueOf (base : Nat) (digits : List Char) : Nat :=
  digits.foldl (fun n c => base * n + (hexValue? c).getD 0) 0

/-- A sign, if there is one: whether the number is negative. -/
def sign : List Char → Bool × List Char
  | '+' :: rest => (false, rest)
  | '-' :: rest => (true, rest)
  | cs => (false, cs)

/-! ## 2. Integers -/

/-- The greatest integer. -/
def maxInteger : Nat := Nat.pow 2 63 - 1

/-- An integer of 64 bits. -/
def inRange (n : Int) : Bool :=
  -(maxInteger : Int) - 1 ≤ n && n ≤ maxInteger

/-- An octal digit. -/
def isOctal (c : Char) : Bool := '0' ≤ c && c ≤ '7'

/-- A binary digit. -/
def isBinary (c : Char) : Bool := c == '0' || c == '1'

/-- A hexadecimal digit. -/
def isHexadecimal (c : Char) : Bool := (hexValue? c).isSome

/-- The digits of an integer of another base, after its mark. -/
def based? (base : Nat) (isDigit : Char → Bool) (cs : List Char) : Option (Int × List Char) := do
  let (digits, rest) ← digits? isDigit cs
  let n := valueOf base digits
  if n ≤ maxInteger then return (n, rest) else none

/-- A decimal integer. -/
def decimalInteger? (cs : List Char) : Option (Int × List Char) := do
  let (negative, cs) := sign cs
  let (digits, rest) ← decimal? cs
  let n : Int := valueOf 10 digits
  let n := if negative then -n else n
  if inRange n then return (n, rest) else none

/-- An integer. -/
def integer? : List Char → Option (Int × List Char)
  | '0' :: 'x' :: rest => based? 16 isHexadecimal rest
  | '0' :: 'o' :: rest => based? 8 isOctal rest
  | '0' :: 'b' :: rest => based? 2 isBinary rest
  | cs => decimalInteger? cs

/-! ## 3. Fractions and exponents -/

/-- The least number that is too great for a double: it lies half-way to the next power. -/
def overflow : Nat := Nat.pow 2 1024 - Nat.pow 2 970

/-- Whether `mantissa * 10 ^ exponent` is too great for a double. -/
def overflows (mantissa : Nat) (exponent : Int) : Bool :=
  if mantissa == 0 then false
  else if 400 < exponent then true
  else if 0 ≤ exponent then overflow ≤ mantissa * Nat.pow 10 exponent.toNat
  else if ((Nat.toDigits 10 mantissa).length : Int) + exponent < 300 then false
  else overflow * Nat.pow 10 (-exponent).toNat ≤ mantissa

/-- The fraction after a point, if there is one. -/
def fraction? : List Char → Option (List Char × List Char)
  | '.' :: rest => digits? Char.isDigit rest
  | cs => some ([], cs)

/-- The exponent, if there is one. -/
def exponent? (cs : List Char) : Option (Int × List Char) :=
  match cs with
  | c :: rest =>
    if c == 'e' || c == 'E' then do
      let (negative, rest) := sign rest
      let (digits, rest) ← digits? Char.isDigit rest
      let n : Int := valueOf 10 digits
      return (if negative then -n else n, rest)
    else some (0, cs)
  | [] => some (0, cs)

/-- Whether a number goes on with a fraction or an exponent. -/
def startsFraction : List Char → Bool
  | c :: _ => c == '.' || c == 'e' || c == 'E'
  | [] => false

/-- A number with a fraction or an exponent, or one of the words for no number and for infinity;
the outer option says whether such a number stands here at all. -/
def float? (cs : List Char) : Option (Option (List Char)) :=
  let (negative, unsigned) := sign cs
  match unsigned with
  | 'i' :: 'n' :: 'f' :: rest => some (some rest)
  | 'n' :: 'a' :: 'n' :: rest => some (some rest)
  | _ =>
    match decimal? unsigned with
    | none => none
    | some (whole, rest) =>
      if startsFraction rest then
        some do
          let (part, rest) ← fraction? rest
          let (exponent, rest) ← exponent? rest
          let mantissa := valueOf 10 (whole ++ part)
          if !negative && overflows mantissa (exponent - part.length) then none else some rest
      else none

/-! ## 4. Dates and times -/

/-- The number in exactly `n` digits, of which `value` has been read. -/
def fixed? (value : Nat) : Nat → List Char → Option (Nat × List Char)
  | 0, cs => some (value, cs)
  | n + 1, c :: rest => if c.isDigit then fixed? (10 * value + (c.toNat - 48)) n rest else none
  | _ + 1, [] => none

/-- A number of two digits between two bounds. -/
def twoDigits? (low high : Nat) (cs : List Char) : Option (Nat × List Char) := do
  let (n, rest) ← fixed? 0 2 cs
  if low ≤ n && n ≤ high then return (n, rest) else none

/-- The given character. -/
def expect? (c : Char) : List Char → Option (List Char)
  | d :: rest => if d == c then some rest else none
  | [] => none

/-- The number of days in a month. -/
def daysIn (year month : Nat) : Nat :=
  if month == 2 then
    if year % 4 == 0 && (year % 100 != 0 || year % 400 == 0) then 29 else 28
  else if [4, 6, 9, 11].contains month then 30
  else 31

/-- Month and day after the year and a hyphen. -/
def monthAndDay? (year : Nat) (cs : List Char) : Option (List Char) := do
  let (month, cs) ← twoDigits? 1 12 cs
  let cs ← expect? '-' cs
  let (_, cs) ← twoDigits? 1 (daysIn year month) cs
  return cs

/-- The hour and the colon that start a time. -/
def hour? (cs : List Char) : Option (List Char) := do
  let (_, cs) ← twoDigits? 0 23 cs
  expect? ':' cs

/-- Passes over the parts of a second, if there are any. -/
def skipParts : List Char → List Char
  | '.' :: c :: rest => if c.isDigit then rest.dropWhile Char.isDigit else '.' :: c :: rest
  | cs => cs

/-- Minutes, seconds and parts of a second. -/
def minutes? (cs : List Char) : Option (List Char) := do
  let (_, cs) ← twoDigits? 0 59 cs
  let cs ← expect? ':' cs
  let (_, cs) ← twoDigits? 0 60 cs
  return skipParts cs

/-- The offset of a time, if there is one. -/
def offset? : List Char → Option (List Char)
  | [] => some []
  | c :: rest =>
    if c == 'Z' || c == 'z' then some rest
    else if c == '+' || c == '-' then do
      let cs ← hour? rest
      let (_, cs) ← twoDigits? 0 59 cs
      return cs
    else some (c :: rest)

/-- The time after a date, if there is one. -/
def timeAfterDate? (cs : List Char) : Option (List Char) :=
  match cs with
  | c :: rest =>
    if c == 'T' || c == 't' || c == ' ' then
      match hour? rest with
      | some rest => do offset? (← minutes? rest)
      | none => some cs
    else some cs
  | [] => some cs

/-- A date or a time; the outer option says whether one stands here at all. -/
def date? (cs : List Char) : Option (Option (List Char)) :=
  match fixed? 0 4 cs with
  | some (year, '-' :: rest) =>
    some do timeAfterDate? (← monthAndDay? year rest)
  | _ =>
    match hour? cs with
    | some rest => some (minutes? rest)
    | none => none

end FatJar.Toml
