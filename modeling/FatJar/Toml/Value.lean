/-
FatJar.Toml.Value — values of a configuration text.

Contents:
1. items and tables;
2. looking up and replacing;
3. setting a value under a dotted key;
4. reading values.
-/
import FatJar.Toml.Scalar

namespace FatJar.Toml

/-! ## 1. Items and tables -/

/-- How a table has come about, which decides what may still be added to it. -/
inductive TableForm where
  /-- Written between braces. -/
  | inline
  /-- Made by a dotted key between braces. -/
  | inlineDotted
  /-- Opened by a header. -/
  | header
  /-- Made because a header names a table inside it. -/
  | implicit
  /-- Made by a dotted key. -/
  | dotted
  deriving DecidableEq, Repr

/-- A value, a table or an array of tables. -/
inductive Item where
  | string (s : String)
  | integer (n : Int)
  | float
  | boolean (b : Bool)
  | date
  | array (items : List Item)
  | table (form : TableForm) (pairs : List (String × Item))
  | tables (elements : List (List (String × Item)))

/-- The keys of a table with their items, in the order in which they were set. -/
abbrev Pairs := List (String × Item)

/-! ## 2. Looking up and replacing -/

/-- The item of a key. -/
def lookup? (key : String) (pairs : Pairs) : Option Item :=
  (pairs.find? fun pair => pair.1 == key).map (·.2)

/-- Gives a key another item in the same place. -/
def update (key : String) (item : Item) (pairs : Pairs) : Pairs :=
  pairs.map fun pair => if pair.1 == key then (key, item) else pair

/-- Gives a key an item at the end. -/
def moveToEnd (key : String) (item : Item) (pairs : Pairs) : Pairs :=
  (pairs.filter fun pair => pair.1 != key) ++ [(key, item)]

/-- Changes the last of several tables. -/
def changeLast (change : Pairs → Option Pairs) : List Pairs → Option (List Pairs)
  | [] => none
  | [last] => do return [← change last]
  | first :: rest => do return first :: (← changeLast change rest)

/-! ## 3. Dotted keys -/

/-- Sets a key that has no item yet. -/
def setNew (key : String) (item : Item) (pairs : Pairs) : Option Pairs :=
  match lookup? key pairs with
  | none => some (pairs ++ [(key, item)])
  | some _ => none

/-- Sets a key inside the tables that a dotted key goes through. Tables that are missing are made
in the given form; the innermost must have it, and no table that is closed or has been opened by
a header may be gone through. -/
def setDotted (form : TableForm) (path : List String) (key : String) (item : Item)
    (pairs : Pairs) : Option Pairs :=
  match path with
  | [] => setNew key item pairs
  | part :: path =>
    match lookup? part pairs with
    | none => do
      return pairs ++ [(part, .table form (← setDotted form path key item []))]
    | some (.table found inner) =>
      let mayEnter := found == .implicit || found == form
      if mayEnter && (!path.isEmpty || found == form) then do
        return update part (.table found (← setDotted form path key item inner)) pairs
      else none
    | some (.tables elements) =>
      if path.isEmpty then none
      else do
        return update part (.tables (← changeLast (setDotted form path key item) elements)) pairs
    | some _ => none

/-- Splits a key into the tables that it goes through and its last part. -/
def splitKey? : List String → Option (List String × String)
  | [] => none
  | [key] => some ([], key)
  | part :: rest => (splitKey? rest).map fun (path, key) => (part :: path, key)

/-- Sets a key of one or several parts. -/
def setKey (form : TableForm) (parts : List String) (item : Item) (pairs : Pairs) :
    Option Pairs := do
  let (path, key) ← splitKey? parts
  setDotted form path key item pairs

/-! ## 4. Reading values -/

/-- A number, a date or a time. -/
def number? (cs : List Char) : Option (Item × List Char) :=
  match date? cs with
  | some result => result.map fun rest => (.date, rest)
  | none =>
    match float? cs with
    | some result => result.map fun rest => (.float, rest)
    | none => (integer? cs).map fun (n, rest) => (.integer n, rest)

/-- A value that holds no others. -/
def scalar? : List Char → Option (Item × List Char)
  | 't' :: 'r' :: 'u' :: 'e' :: rest => some (.boolean true, rest)
  | 'f' :: 'a' :: 'l' :: 's' :: 'e' :: rest => some (.boolean false, rest)
  | '"' :: rest => (string? ('"' :: rest)).map fun (s, rest) => (.string (String.ofList s), rest)
  | '\'' :: rest => (string? ('\'' :: rest)).map fun (s, rest) => (.string (String.ofList s), rest)
  | cs => number? cs

/-- The items of an array after its opening bracket. A comma may follow the last one. -/
def arrayItems (value : List Char → Option (Item × List Char)) : Nat → List Char → Option (List Item × List Char)
  | 0, _ => none
  | fuel + 1, cs => do
    match ← skipTrivia false cs with
    | ']' :: rest => return ([], rest)
    | cs =>
      let (item, cs) ← value cs
      match ← skipTrivia false cs with
      | ',' :: rest => do
        let (items, rest) ← arrayItems value fuel rest
        return (item :: items, rest)
      | ']' :: rest => return ([item], rest)
      | _ => none

/-- A key, an equals sign and a value. -/
def keyValue? (value : List Char → Option (Item × List Char)) (cs : List Char) :
    Option ((List String × Item) × List Char) := do
  let (key, cs) ← key? cs
  let cs ← expect? '=' cs
  let (item, cs) ← value (skipSpaces cs)
  return ((key, item), cs)

/-- The pairs of an inline table from one of them on. No comma may follow the last one. -/
def inlinePairs (value : List Char → Option (Item × List Char)) (pairs : Pairs) :
    Nat → List Char → Option (Pairs × List Char)
  | 0, _ => none
  | fuel + 1, cs => do
    let ((key, item), cs) ← keyValue? value cs
    let pairs ← setKey .inlineDotted key item pairs
    match skipSpaces cs with
    | ',' :: rest => inlinePairs value pairs fuel rest
    | '}' :: rest => return (pairs, rest)
    | _ => none

/-- An inline table after its opening brace. -/
def inlineTable (value : List Char → Option (Item × List Char)) (cs : List Char) : Option (Pairs × List Char) :=
  match skipSpaces cs with
  | '}' :: rest => some ([], rest)
  | cs => inlinePairs value [] (cs.length + 1) cs

/-- A value in which arrays and inline tables are nested to the given depth at most. -/
def value? : Nat → List Char → Option (Item × List Char)
  | 0, cs => scalar? cs
  | depth + 1, cs =>
    match cs with
    | '[' :: rest =>
      (arrayItems (value? depth) (rest.length + 1) rest).map fun (items, rest) =>
        (.array items, rest)
    | '{' :: rest =>
      (inlineTable (value? depth) rest).map fun (pairs, rest) => (.table .inline pairs, rest)
    | cs => scalar? cs

end FatJar.Toml
