/-
FatJar.Log.Directive — one rule of a log filter.

A directive is a threshold for the whole program, or the name of a part of it,
then conditions in square brackets, then an equals sign and a threshold; each of
these can be missing. The conditions are the name of a span and, in braces, a
field, which may be followed by an equals sign and a value.

Places in a directive are counted in bytes from its first character that is not
blank, while what stands between two places is cut out of the whole text, blanks
included. So a directive with a blank in front of it has the blank in its name
and lacks its last character, unless the name goes on to the end.

Contents:
1. directives;
2. pieces of a text;
3. reading a directive.
-/
import FatJar.Log.Level
import FatJar.Text.Alphanumeric
import FatJar.Text.Blank
import FatJar.Text.Split

namespace FatJar.Log

/-! ## 1. Directives -/

/-- A field that a message has to have, maybe with a value. -/
structure FieldCondition where
  name : String
  value : Option String
  deriving DecidableEq, Repr

/-- A threshold for the messages that meet the conditions. -/
structure Directive where
  target : Option String
  span : Option String
  fields : List FieldCondition
  threshold : Threshold
  deriving DecidableEq, Repr

/-- The directive for all messages. -/
def Directive.everywhere (threshold : Threshold) : Directive :=
  ⟨none, none, [], threshold⟩

/-- Whether a message alone can meet the conditions. A span or the value of a field is looked up in
the spans around a message, and this program has none. -/
def Directive.ofMessages (d : Directive) : Bool :=
  d.span.isNone && d.fields.all (·.value.isNone)

/-! ## 2. Pieces -/

/-- The characters from a place of a text on; places are counted in bytes. -/
def fromPlace (place : Nat) : List Char → List Char
  | [] => []
  | c :: rest => if place = 0 then c :: rest else fromPlace (place - c.utf8Size) rest

/-- The characters before a place of a text. -/
def upToPlace (place : Nat) : List Char → List Char
  | [] => []
  | c :: rest => if place = 0 then [] else c :: upToPlace (place - c.utf8Size) rest

/-- What stands between two places of a text. -/
def between (start stop : Nat) (text : List Char) : String :=
  String.ofList (upToPlace (stop - start) (fromPlace start text))

/-! ## 3. Reading -/

/-- What is being read, and where it started. -/
inductive Stage where
  | start
  | name (start : Nat)
  | span (start : Nat)
  | field (start : Nat)
  | afterField
  | afterSpan
  | level (start : Nat)
  deriving DecidableEq, Repr

/-- The characters with which the name of a part can start. -/
def isNameStart (c : Char) : Bool :=
  Text.isAlphanumeric c || c == '_' || c == ':' || c == '-'

/-- The condition that a text between braces states. -/
def FieldCondition.ofText? (text : String) : Option FieldCondition :=
  match Text.splitWhere (· == '=') text.toList with
  | [[]] => none
  | name :: value :: _ => some ⟨String.ofList name, some (String.ofList value)⟩
  | pieces => some ⟨String.ofList pieces.flatten, none⟩

/-- Takes the character at a place of a directive. -/
def Directive.step (text : List Char) (d : Directive) (place : Nat) (c : Char) :
    Stage → Option (Directive × Stage)
  | .start =>
    if c == '[' then some (d, .span (place + 1))
    else if isNameStart c then some (d, .name place)
    else none
  | .name start =>
    if c == '=' then some ({ d with target := some (between start place text) }, .level (place + 1))
    else if c == '[' then
      some ({ d with target := some (between start place text) }, .span (place + 1))
    else some (d, .name start)
  | .span start =>
    if c == ']' then some ({ d with span := some (between start place text) }, .afterSpan)
    else if c == '\x7b' then
      if start == place then some (d, .field (place + 1))
      else some ({ d with span := some (between start place text) }, .field (place + 1))
    else some (d, .span start)
  | .field start =>
    if c == '\x7d' then
      (FieldCondition.ofText? (between start place text)).map fun field =>
        ({ d with fields := d.fields ++ [field] }, .afterField)
    else some (d, .field start)
  | .afterField => if c == ']' then some (d, .afterSpan) else none
  | .afterSpan => if c == '=' then some (d, .level (place + 1)) else none
  | .level start => some (d, .level start)

/-- Takes the characters of a directive one after the other. -/
def Directive.steps (text : List Char) (d : Directive) (stage : Stage) (place : Nat) :
    List Char → Option (Directive × Stage)
  | [] => some (d, stage)
  | c :: rest =>
    match d.step text place c stage with
    | none => none
    | some (next, nextStage) => next.steps text nextStage (place + c.utf8Size) rest

/-- What a directive is at the end of its text. A name that is no threshold lets everything of its
part through, and so does a threshold that is left out. -/
def Directive.finish (text : List Char) (d : Directive) : Stage → Option Directive
  | .name start =>
    let name := String.ofList (fromPlace start text)
    match Threshold.ofText? name with
    | some threshold => some { d with threshold }
    | none => some { d with target := some name }
  | .level start =>
    let level := String.ofList (fromPlace start text)
    if level == "" then some d
    else (Threshold.ofText? level).map fun threshold => { d with threshold }
  | .afterSpan => some d
  | .start | .span _ | .field _ | .afterField => none

/-- The directive of a text. -/
def Directive.ofText? (text : List Char) : Option Directive :=
  let start := Directive.everywhere (.upTo .trace)
  match start.steps text .start 0 (Text.trimRight (text.dropWhile Text.isBlank)) with
  | none => none
  | some (d, stage) => d.finish text stage

end FatJar.Log
