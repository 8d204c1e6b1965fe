/-
FatJar.Manifest.Basic — the main section of an archive's manifest.

A manifest is an ordered list of attributes. Their names are compared without
regard to the case of ASCII letters: setting a name that is already there keeps
its place and its spelling and replaces the value.

Contents:
1. attributes and manifests;
2. names: which are valid, which the tool keeps for itself;
3. what can be wrong with a manifest, and how it is said;
4. reading and setting one attribute;
5. the manifest of an executable archive.
-/
import FatJar.Text.Case
import FatJar.Text.Quoted
import FatJar.Tool

namespace FatJar

/-! ## 1. Attributes and manifests -/

/-- A named value of a manifest. -/
structure Attribute where
  name : String
  value : String
  deriving DecidableEq, Repr

/-- The attributes of a manifest's main section, in the order in which they are written. -/
structure Manifest where
  attributes : List Attribute
  deriving DecidableEq, Repr

namespace Manifest

/-- The entry that holds the manifest of an archive. -/
def path : String := "META-INF/MANIFEST.MF"

/-- The directory of that entry. -/
def directory : String := "META-INF/"

/-- The manifest without attributes. -/
def empty : Manifest := ⟨[]⟩

/-! ## 2. Names -/

/-- Attribute names are made of ASCII letters, digits, hyphens and underscores. -/
def isNameChar (c : Char) : Bool :=
  c.isAlphanum || c == '-' || c == '_'

/-- The longest attribute name: with its colon and space it fits on one line. -/
def maxNameLength : Nat := 70

/-- The names that an attribute can have. -/
def isName (name : String) : Bool :=
  !name.toList.isEmpty && name.toList.length ≤ maxNameLength && name.toList.all isNameChar

/-- The attribute that names the format's version. -/
def versionName : String := "Manifest-Version"

/-- The attribute that names the class to run. -/
def mainClassName : String := "Main-Class"

/-- The attribute that names the tool. -/
def creatorName : String := "Created-By"

/-- The attributes that the tool sets itself. -/
def managedNames : List String := [versionName, mainClassName, creatorName]

/-- A name, in any case, of an attribute that the tool sets itself. -/
def isManaged (name : String) : Bool :=
  managedNames.any fun managed => Text.sameIgnoringCase managed name

/-- An entry name that denotes the manifest, in any case. -/
def isPath (entry : String) : Bool :=
  Text.sameIgnoringCase entry path

/-- An entry name that denotes the manifest's directory, in any case. -/
def isDirectory (entry : String) : Bool :=
  Text.sameIgnoringCase entry directory

/-- A value may hold neither a line break nor a NUL. -/
def isForbidden (c : Char) : Bool :=
  c == '\r' || c == '\n' || c == '\x00'

/-- A text that can be the value of an attribute. -/
def isValue (value : String) : Bool :=
  !value.toList.any isForbidden

/-! ## 3. Faults -/

/-- What can be wrong with one line of a manifest. -/
inductive LineFault where
  | strayContinuation
  | noColon
  | badName (name : String)
  deriving DecidableEq, Repr

/-- The wording of a line's fault. -/
def LineFault.reason : LineFault → String
  | .strayContinuation => "continuation line without attribute"
  | .noColon => "expected `Name: value`"
  | .badName name => "invalid attribute name " ++ Text.quoted name

/-- What can be wrong with a manifest or with an attribute meant for one. -/
inductive Error where
  | invalidName (name : String)
  | invalidValue (name : String)
  | managed (name : String)
  | malformed (line : Nat) (fault : LineFault)
  | encoding
  deriving DecidableEq, Repr

/-- The wording of a fault. -/
def Error.message : Error → String
  | .invalidName name => "Invalid attribute name: " ++ Text.quoted name
  | .invalidValue name =>
    "Invalid value for attribute " ++ name ++ ": line breaks are not allowed"
  | .managed name =>
    "Attribute " ++ name ++ " is managed by " ++ Tool.name ++ " and cannot be set"
  | .malformed line fault =>
    "Malformed manifest at line " ++ toString line ++ ": " ++ fault.reason
  | .encoding => "Manifest is not valid UTF-8"

/-! ## 4. Reading and setting -/

/-- The value of the first attribute with the name, in any case. -/
def get? (m : Manifest) (name : String) : Option String :=
  (m.attributes.find? fun a => Text.sameIgnoringCase a.name name).map (·.value)

/-- The class to run. -/
def mainClass? (m : Manifest) : Option String :=
  m.get? mainClassName

/-- Gives the first attribute with the name the value, or adds one at the end. -/
def put (name value : String) : List Attribute → List Attribute
  | [] => [⟨name, value⟩]
  | a :: rest =>
    if Text.sameIgnoringCase a.name name then ⟨a.name, value⟩ :: rest
    else a :: put name value rest

/-- Sets one attribute. -/
def set (m : Manifest) (name value : String) : Except Error Manifest :=
  if !isName name then .error (.invalidName name)
  else if !isValue value then .error (.invalidValue name)
  else .ok ⟨put name value m.attributes⟩

/-! ## 5. Executable archives -/

/-- The manifest of an archive that runs the class. -/
def executable (mainClass : String) : Except Error Manifest := do
  let m ← empty.set versionName "1.0"
  let m ← m.set mainClassName mainClass
  m.set creatorName Tool.signature

end Manifest

end FatJar
