/-
FatJar.Project.Store — configurations as texts and as files.

The settings of the bundle stand in a table of their own; the attributes for the
manifest, if there are any, in a second one. A table may also be given as an
array of its values in their order.

Contents:
1. single settings;
2. the table of the bundle;
3. the attributes;
4. reading a text;
5. writing a text;
6. files.
-/
import FatJar.FileTree.Change
import FatJar.Project.Config
import FatJar.Toml.Document
import FatJar.Toml.Printer

namespace FatJar.ProjectConfig

open Toml (Item Pairs lookup?)

/-! ## 1. Single settings -/

/-- A text. -/
def text? : Item → Option String
  | .string s => some s
  | _ => none

/-- A list of texts, or none if one of the items is no text. -/
def textsOf? : List Item → Option (List String)
  | [] => some []
  | item :: rest => do return (← text? item) :: (← textsOf? rest)

/-- An array of texts. -/
def texts? : Item → Option (List String)
  | .array items => textsOf? items
  | _ => none

/-- A number of jobs. -/
def jobs? : Item → Option Nat
  | .integer n => if 0 ≤ n then some n.toNat else none
  | _ => none

/-- The policy of a name in a configuration. -/
def policyOfName? (name : String) : Option DuplicatePolicy :=
  if name == "first-wins" || name == "exclude" then some .firstWins
  else if name == "last-wins" then some .lastWins
  else if name == "error" then some .error
  else none

/-- Whether an item holds nothing. -/
def isEmptyItem : Item → Bool
  | .array items => items.isEmpty
  | .table _ pairs => pairs.isEmpty
  | .tables elements => elements.isEmpty
  | _ => false

/-- A policy: its name, or a table with its name as the only key, which leads to nothing. -/
def policy? : Item → Option DuplicatePolicy
  | .string s => policyOfName? s
  | .table _ [(name, item)] => if isEmptyItem item then policyOfName? name else none
  | _ => none

/-- A setting that need not be there. -/
def optional? {α : Type} (read : Item → Option α) : Option Item → Option (Option α)
  | none => some none
  | some item => do return some (← read item)

/-! ## 2. The table of the bundle -/

/-- The settings of the bundle from their items. -/
def settings? (mainClass output duplicates inputs exclude jobs : Option Item) :
    Option ProjectConfig := do
  let mainClass ← text? (← mainClass)
  let output ← text? (← output)
  let duplicates := (← optional? policy? duplicates).getD .default
  let inputs ← texts? (← inputs)
  let exclude ← optional? texts? exclude
  let jobs ← optional? jobs? jobs
  return { mainClass, output, duplicates, inputs, exclude, jobs, manifest := .empty }

/-- The settings of the bundle. -/
def bundle? : Item → Option ProjectConfig
  | .table _ pairs =>
    settings? (lookup? "main-class" pairs) (lookup? "output" pairs) (lookup? "duplicates" pairs)
      (lookup? "inputs" pairs) (lookup? "exclude" pairs) (lookup? "jobs" pairs)
  | .array items => settings? items[0]? items[1]? items[2]? items[3]? items[4]? items[5]?
  | _ => none

/-! ## 3. The attributes -/

/-- The attributes of a table of texts. -/
def attributesOf? : Pairs → Option (List Attribute)
  | [] => some []
  | (name, item) :: rest => do return ⟨name, ← text? item⟩ :: (← attributesOf? rest)

/-- The name under which a date shows itself where a table is expected. -/
def dateKey : String := "$__toml_private_datetime"

/-- The attributes for the manifest. -/
def manifest? : Item → Option (List Attribute)
  | .table _ pairs => attributesOf? pairs
  | .date => some [⟨dateKey, ""⟩]
  | _ => none

/-! ## 4. Reading a text -/

/-- The configuration in the table of a text. -/
def ofPairs? (pairs : Pairs) : Option ProjectConfig := do
  let config ← bundle? (← lookup? "bundle" pairs)
  let attributes ← optional? manifest? (lookup? "manifest" pairs)
  return { config with manifest := AttributeMap.ofList (attributes.getD []) }

/-- The configuration in a text, before it is checked. -/
def ofText? (text : String) : Option ProjectConfig := do
  ofPairs? (← Toml.parse? text)

/-- The configuration in a text. -/
def ofText (text : String) : Except Error ProjectConfig :=
  match ofText? text with
  | none => .error .unparsable
  | some config => do
    config.validate
    return config

/-! ## 5. Writing a text -/

/-- The settings that have to be there. -/
def printRequired (c : ProjectConfig) : List Char :=
  Toml.printPair "main-class" (Toml.printText c.mainClass) ++
    Toml.printPair "output" (Toml.printText c.output) ++
    Toml.printPair "duplicates" (Toml.printText c.duplicates.name) ++
    Toml.printPair "inputs" (Toml.printArray c.inputs)

/-- The settings that need not be there. -/
def printOptional (c : ProjectConfig) : List Char :=
  (c.exclude.map fun patterns => Toml.printPair "exclude" (Toml.printArray patterns)).getD [] ++
    (c.jobs.map fun n => Toml.printPair "jobs" (toString n).toList).getD []

/-- The attributes, after an empty line, if there are any. -/
def printManifest (attributes : List Attribute) : List Char :=
  if attributes.isEmpty then []
  else
    '\n' :: (Toml.printHeader "manifest" ++
      attributes.flatMap fun a => Toml.printPair a.name (Toml.printText a.value))

/-- The text of a configuration. A number of jobs that is too great has no written form. -/
def toText (c : ProjectConfig) : Except Error String :=
  if Toml.maxInteger < c.jobs.getD 0 then .error .unwritable
  else
    .ok (String.ofList (Toml.printHeader "bundle" ++ c.printRequired ++ c.printOptional ++
      printManifest c.manifest.entries))

/-! ## 6. Files -/

/-- The configuration in a file. -/
def load (t : FileTree) (p : Path) : Except Error ProjectConfig :=
  match t.read p with
  | .error e => .error (.system e)
  | .ok bytes =>
    match Text.decode? bytes with
    | none => .error .notText
    | some text => ofText text

/-- Writes a configuration to a file. -/
def save (t : FileTree) (p : Path) (c : ProjectConfig) : Except Error FileTree := do
  let text ← c.toText
  (t.write p (Text.encode text)).mapError Error.system

end FatJar.ProjectConfig
