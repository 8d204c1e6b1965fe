/-
FatJar.Command.Parameter — what can be given on the command line.

A parameter is an option or stands at a place of its own. Options that take no
value are flags. The value of a parameter is checked as soon as it is complete.

Contents:
1. parameters and their forms;
2. values;
3. what can be wrong, and how that is said;
4. reading values.
-/
import FatJar.Bundle.Policy
import FatJar.Command.Style
import FatJar.FileTree.Path
import FatJar.Manifest.Basic
import FatJar.Text.Blank
import FatJar.Text.Number

namespace FatJar.Command

/-! ## 1. Parameters -/

/-- What can be given on the command line. -/
inductive Parameter where
  | verbose
  | color
  | help
  | version
  | inputs
  | mainClass
  | output
  | duplicates
  | exclude
  | noDefaultExcludes
  | attributes
  | jobs
  | config
  | archive
  | directory
  deriving DecidableEq, Repr

/-- How a parameter is written: the names of an option, the name of its value, and whether it can be
given more than once. A parameter without a name stands at a place of its own. -/
structure Form where
  long : Option String
  short : Option Char
  value : Option String
  repeats : Bool
  deriving DecidableEq, Repr

namespace Parameter

/-- The form of a parameter. -/
def form : Parameter → Form
  | .verbose => ⟨some "verbose", some 'v', none, false⟩
  | .color => ⟨some "color", none, some "COLOR", false⟩
  | .help => ⟨some "help", some 'h', none, false⟩
  | .version => ⟨some "version", some 'V', none, false⟩
  | .inputs => ⟨none, none, some "INPUTS", true⟩
  | .mainClass => ⟨some "main-class", some 'm', some "MAIN_CLASS", false⟩
  | .output => ⟨some "output", some 'o', some "OUTPUT", false⟩
  | .duplicates => ⟨some "duplicates", some 'd', some "DUPLICATES", false⟩
  | .exclude => ⟨some "exclude", some 'x', some "EXCLUDE", true⟩
  | .noDefaultExcludes => ⟨some "no-default-excludes", none, none, false⟩
  | .attributes => ⟨some "attribute", some 'a', some "ATTRIBUTES", true⟩
  | .jobs => ⟨some "jobs", some 'j', some "JOBS", false⟩
  | .config => ⟨some "config", some 'c', some "CONFIG", false⟩
  | .archive => ⟨none, none, some "ARCHIVE", false⟩
  | .directory => ⟨none, none, some "PATH", false⟩

/-- Whether the parameter takes a value. -/
def takesValue (p : Parameter) : Bool :=
  p.form.value.isSome

/-- Whether the parameter can be given more than once. -/
def repeats (p : Parameter) : Bool :=
  p.form.repeats

/-- Whether the parameter has to be given. -/
def isRequired (p : Parameter) : Bool :=
  p == .archive

/-- How a parameter is shown: an option by its long name, one that need not be given between square
brackets. -/
def shown (p : Parameter) : String :=
  match p.form.long, p.form.value with
  | some long, some value => "--" ++ long ++ " <" ++ value ++ ">"
  | some long, none => "--" ++ long
  | none, value =>
    let value := value.getD ""
    (if p.isRequired then "<" ++ value ++ ">" else "[" ++ value ++ "]") ++
      (if p.repeats then "..." else "")

end Parameter

/-! ## 2. Values -/

/-- A value that has been checked. -/
inductive Value where
  /-- A flag is there. -/
  | given
  | text (text : String)
  | path (path : Path)
  | policy (policy : DuplicatePolicy)
  | number (number : Nat)
  | pair (pair : Attribute)
  | mode (mode : ColorMode)
  deriving DecidableEq, Repr

namespace Value

/-- The text of a value. -/
def text? : Value → Option String
  | .text s => some s
  | _ => none

/-- The path of a value. -/
def path? : Value → Option Path
  | .path p => some p
  | _ => none

/-- The policy of a value. -/
def policy? : Value → Option DuplicatePolicy
  | .policy p => some p
  | _ => none

/-- The number of a value. -/
def number? : Value → Option Nat
  | .number n => some n
  | _ => none

/-- The attribute of a value. -/
def pair? : Value → Option Attribute
  | .pair a => some a
  | _ => none

/-- The color mode of a value. -/
def mode? : Value → Option ColorMode
  | .mode m => some m
  | _ => none

end Value

/-! ## 3. Faults -/

/-- What can be wrong with a value. -/
inductive ValueFault where
  /-- It is not among the values to choose from. -/
  | notOffered
  | policy (u : DuplicatePolicy.Unknown)
  | number (fault : Text.NumberFault)
  | noEqualsSign (text : String)
  | noAttributeName (text : String)
  deriving DecidableEq, Repr

/-- The wording of a value's fault, where there is more to say than that there is one. -/
def ValueFault.reason? : ValueFault → Option String
  | .notOffered => none
  | .policy u => some u.message
  | .number fault => some fault.reason
  | .noEqualsSign text => some ("expected KEY=VALUE, got '" ++ text ++ "'")
  | .noAttributeName text => some ("empty attribute name in '" ++ text ++ "'")

/-- What can be wrong with the words of the command line. -/
inductive ArgumentError where
  | unexpected (word : String)
  | unknownCommand (word : String)
  | missingValue (p : Parameter)
  | unexpectedValue (p : Parameter) (text : String)
  | invalidValue (p : Parameter) (text : String) (fault : ValueFault)
  | repeated (p : Parameter)
  | missing (ps : List Parameter)
  | missingCommand
  deriving DecidableEq, Repr

/-- What the user has written, set apart. -/
def given (text : String) : Piece := .styled ⟨some .yellow, false⟩ text

/-- The pieces of a fault's wording. -/
def ArgumentError.pieces : ArgumentError → List Piece
  | .unexpected word => [.plain "unexpected argument '", given word, .plain "' found"]
  | .unknownCommand word => [.plain "unrecognized subcommand '", given word, .plain "'"]
  | .missingValue p =>
    [.plain "a value is required for '", strong p.shown, .plain "' but none was supplied"]
  | .unexpectedValue p text =>
    [.plain "unexpected value '", given text, .plain "' for '", strong p.shown,
      .plain "' found; no more were expected"]
  | .invalidValue p text fault =>
    [.plain "invalid value '", given text, .plain "' for '", strong p.shown,
      .plain ("'" ++ ((fault.reason?.map (": " ++ ·)).getD ""))]
  | .repeated p =>
    [.plain "the argument '", strong p.shown, .plain "' cannot be used multiple times"]
  | .missing ps =>
    .plain "the following required arguments were not provided:" ::
      ps.flatMap fun p => [.plain "\n  ", strong p.shown]
  | .missingCommand =>
    [.plain "'", strong Tool.name, .plain "' requires a subcommand but one was not provided"]

/-! ## 4. Reading values -/

/-- Reads an attribute: its name, an equals sign and its value. -/
def readPair (text : String) : Except ValueFault Attribute :=
  match Text.cutAt? (· == '=') text.toList with
  | none => .error (.noEqualsSign text)
  | some (name, value) =>
    let name := Text.trim (String.ofList name)
    if name == "" then .error (.noAttributeName text) else .ok ⟨name, String.ofList value⟩

/-- Reads a path, which cannot be empty. -/
def readPath (p : Parameter) (text : String) : Except ArgumentError Value :=
  if text == "" then .error (.missingValue p) else .ok (.path ⟨text⟩)

/-- Reads a color mode. -/
def readMode (p : Parameter) (text : String) : Except ArgumentError Value :=
  if text == "" then .error (.missingValue p)
  else
    match ColorMode.ofText? text with
    | some mode => .ok (.mode mode)
    | none => .error (.invalidValue p text .notOffered)

/-- Reads the value of a parameter. -/
def Parameter.read (p : Parameter) (text : String) : Except ArgumentError Value :=
  match p with
  | .color => readMode p text
  | .inputs | .output | .config | .archive | .directory => readPath p text
  | .duplicates =>
    (DuplicatePolicy.ofText text).mapError (fun u => .invalidValue p text (.policy u))
      |>.map .policy
  | .jobs =>
    (Text.readNumber text.toList).mapError (fun fault => .invalidValue p text (.number fault))
      |>.map .number
  | .attributes => (readPair text).mapError (.invalidValue p text) |>.map .pair
  | .mainClass | .exclude | .verbose | .help | .version | .noDefaultExcludes => .ok (.text text)

end FatJar.Command
