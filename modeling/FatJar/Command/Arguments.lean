/-
FatJar.Command.Arguments — what the words of the command line ask for.

Words are read from the left. The value of an option may follow it as a word of
its own; it is checked when the next parameter comes or the words end. A word
that starts with a hyphen is never such a value. After `--` every word stands at
a place of its own. The name of a command ends the options before it, and what
these ask for is checked after the words of the command.

Contents:
1. requests;
2. commands and what they take;
3. progress through the words;
4. single words;
5. all words;
6. from parameters to requests.
-/
import FatJar.Command.Parameter

namespace FatJar.Command

/-! ## 1. Requests -/

/-- What is asked of `bundle`. -/
structure BundleRequest where
  inputs : List Path
  mainClass : Option String
  output : Option Path
  duplicates : Option DuplicatePolicy
  exclude : List String
  noDefaultExcludes : Bool
  attributes : List Attribute
  jobs : Option Nat
  config : Option Path
  deriving DecidableEq, Repr

/-- What is asked for. -/
inductive Request where
  | bundle (request : BundleRequest)
  | inspect (archive : Path)
  | init (directory : Path) (mainClass : Option String)
  deriving DecidableEq, Repr

/-- A request, how much is logged, and when color is used. -/
structure Invocation where
  verbose : Bool
  color : ColorMode
  request : Request
  deriving DecidableEq, Repr

/-! ## 2. Commands -/

/-- Where a word stands: before the name of a command, or after one. -/
inductive Scope where
  | root
  | bundle
  | inspect
  | init
  deriving DecidableEq, Repr

namespace Scope

/-- The name of a command. -/
def name : Scope → String
  | .root => ""
  | .bundle => "bundle"
  | .inspect => "inspect"
  | .init => "init"

/-- The commands. -/
def commands : List Scope := [.bundle, .inspect, .init]

/-- The word that asks for help. -/
def helpWord : String := "help"

/-- The command of a name. -/
def ofText? (word : String) : Option Scope :=
  commands.find? fun scope => scope.name == word

/-- The options of a scope. -/
def options : Scope → List Parameter
  | .root => [.verbose, .color, .help, .version]
  | .bundle =>
    [.mainClass, .output, .duplicates, .exclude, .noDefaultExcludes, .attributes, .jobs, .config,
      .verbose, .color, .help]
  | .inspect => [.verbose, .color, .help]
  | .init => [.mainClass, .verbose, .color, .help]

/-- The parameters of a scope that stand at places of their own. -/
def places : Scope → List Parameter
  | .root => []
  | .bundle => [.inputs]
  | .inspect => [.archive]
  | .init => [.directory]

/-- The option of a long name. -/
def long? (scope : Scope) (name : String) : Option Parameter :=
  scope.options.find? fun p => p.form.long == some name

/-- The option of a short name. -/
def short? (scope : Scope) (c : Char) : Option Parameter :=
  scope.options.find? fun p => p.form.short == some c

end Scope

/-- Why the words do not lead to a request. -/
inductive Halt where
  | fault (e : ArgumentError)
  | help (scope : Scope)
  | version
  | noWords
  deriving DecidableEq, Repr

/-! ## 3. Progress -/

/-- What has been read so far: the values that have been checked, the parameter whose values may
not be complete yet, how many places have been filled, and whether `--` has been read. -/
structure Progress where
  found : List (Parameter × Value)
  pending : Option (Parameter × List String)
  filled : Nat
  trailing : Bool
  deriving DecidableEq, Repr

namespace Progress

/-- Nothing has been read. -/
def start : Progress := ⟨[], none, 0, false⟩

/-- Whether a parameter has been found. -/
def has (s : Progress) (p : Parameter) : Bool :=
  s.found.any fun entry => entry.1 == p

/-- Checks the values of a parameter. -/
def readAll (p : Parameter) : List String → Except ArgumentError (List Value)
  | [] => .ok []
  | text :: rest => do return (← p.read text) :: (← readAll p rest)

/-- Adds a parameter with its values. -/
def accept (s : Progress) (p : Parameter) (texts : List String) :
    Except ArgumentError Progress :=
  if p.takesValue && texts.isEmpty then .error (.missingValue p)
  else if !p.repeats && s.has p then .error (.repeated p)
  else do
    let values ← if p.takesValue then readAll p texts else pure [.given]
    return { s with found := s.found ++ values.map fun value => (p, value) }

/-- Adds the parameter whose values were not complete. -/
def settle (s : Progress) : Except ArgumentError Progress :=
  match s.pending with
  | none => .ok s
  | some (p, texts) => { s with pending := none }.accept p texts

/-- Waits for the value of an option. -/
def await (s : Progress) (p : Parameter) : Except ArgumentError Progress := do
  return { (← s.settle) with pending := some (p, []) }

/-- Adds an option with the value that is attached to it. -/
def attach (s : Progress) (p : Parameter) (text : String) : Except ArgumentError Progress := do
  (← s.settle).accept p [text]

/-- The option that waits for its value. -/
def awaiting? (s : Progress) : Option Parameter :=
  match s.pending with
  | some (p, []) => if s.trailing then none else some p
  | _ => none

/-- Fills a place with a word. Words for a parameter that can be repeated are kept together. -/
def fill (s : Progress) (p : Parameter) (word : String) : Except ArgumentError Progress :=
  match s.pending with
  | some (q, texts) =>
    if q == p && p.repeats then .ok { s with pending := some (p, texts ++ [word]) }
    else step
  | none => step
where
  /-- Fills the place after what was pending has been settled. -/
  step : Except ArgumentError Progress := do
    let s ← s.settle
    return { s with
      pending := some (p, [word])
      filled := if p.repeats then s.filled else s.filled + 1 }

end Progress

/-! ## 4. Words -/

/-- A word by the hyphens at its start. -/
inductive Word where
  | separator
  | long (name : String) (value : Option String)
  | short (names : List Char)
  | plain (text : String)
  deriving DecidableEq, Repr

/-- The kind of a word. -/
def Word.ofText (text : String) : Word :=
  match text.toList with
  | ['-', '-'] => .separator
  | '-' :: '-' :: cs =>
    match Text.cutAt? (· == '=') cs with
    | some (name, value) => .long (String.ofList name) (some (String.ofList value))
    | none => .long (String.ofList cs) none
  | '-' :: c :: cs => .short (c :: cs)
  | _ => .plain text

/-- Takes a flag. -/
def takeFlag (scope : Scope) (s : Progress) (p : Parameter) : Except Halt Progress := do
  let s ← s.settle.mapError .fault
  match p with
  | .help => throw (.help scope)
  | .version => throw .version
  | p => (s.accept p []).mapError .fault

/-- Takes an option by its long name. -/
def takeLong (scope : Scope) (s : Progress) (name : String) (value : Option String) :
    Except Halt Progress :=
  match scope.long? name with
  | none => .error (.fault (.unexpected ("--" ++ name)))
  | some p =>
    match p.takesValue, value with
    | true, some text => (s.attach p text).mapError .fault
    | true, none => (s.await p).mapError .fault
    | false, some text => .error (.fault (.unexpectedValue p text))
    | false, none => takeFlag scope s p

/-- The value attached to a short name; an equals sign may stand between them. -/
def attached : List Char → String
  | '=' :: cs => String.ofList cs
  | cs => String.ofList cs

/-- Takes options by their short names: flags, and at the end an option that takes the rest of the
word as its value, or the next word if nothing is left. -/
def takeShort (scope : Scope) : Progress → List Char → Except Halt Progress
  | s, [] => .ok s
  | s, c :: rest =>
    match scope.short? c with
    | none => .error (.fault (.unexpected (String.ofList ['-', c])))
    | some p =>
      if !p.takesValue then do takeShort scope (← takeFlag scope s p) rest
      else if rest.isEmpty then (s.await p).mapError .fault
      else (s.attach p (attached rest)).mapError .fault

/-- Takes a word that stands at a place of its own. -/
def takePlace (scope : Scope) (s : Progress) (word : String) : Except Halt Progress :=
  match scope.places[s.filled]? with
  | some p => (s.fill p word).mapError .fault
  | none =>
    let isCommand := (Scope.ofText? word).isSome || word == Scope.helpWord
    if scope == .root && !(s.trailing && isCommand) then .error (.fault (.unknownCommand word))
    else .error (.fault (.unexpected word))

/-- Takes a word that is no option: the value that an option waits for, or one with a place. -/
def takePlain (scope : Scope) (s : Progress) (word : String) : Except Halt Progress :=
  match s.awaiting? with
  | some p => .ok { s with pending := some (p, [word]) }
  | none => takePlace scope s word

/-- Takes a word. -/
def takeWord (scope : Scope) (s : Progress) (word : String) : Except Halt Progress :=
  if s.trailing then takePlace scope s word
  else
    match Word.ofText word with
    | .separator => .ok { s with trailing := true }
    | .long name value => takeLong scope s name value
    | .short names => takeShort scope s names
    | .plain text => takePlain scope s text

/-! ## 5. All words -/

/-- Takes the words of a command. -/
def takeWords (scope : Scope) : Progress → List String → Except Halt Progress
  | s, [] => .ok s
  | s, word :: rest => do takeWords scope (← takeWord scope s word) rest

/-- The command of which help is wanted. -/
def helpScope : List String → Except ArgumentError Scope
  | [] => .ok .root
  | word :: rest =>
    match if word == Scope.helpWord then some .root else Scope.ofText? word with
    | none => .error (.unknownCommand word)
    | some scope =>
      match rest with
      | [] => .ok scope
      | other :: _ => .error (.unknownCommand other)

/-- Whether a word can be the name of a command here. -/
def Progress.atCommand (s : Progress) : Bool :=
  !s.trailing && s.awaiting?.isNone

/-- Takes the words before a command and gives the command with the words after it. -/
def takeRoot : Progress → List String → Except Halt (Progress × Option (Scope × List String))
  | s, [] => .ok (s, none)
  | s, word :: rest =>
    if s.atCommand && word == Scope.helpWord then
      match helpScope rest with
      | .ok scope => .error (.help scope)
      | .error e => .error (.fault e)
    else
      match if s.atCommand then Scope.ofText? word else none with
      | some scope => .ok (s, some (scope, rest))
      | none => do takeRoot (← takeWord .root s word) rest

/-! ## 6. Requests from parameters -/

/-- The values of a parameter. -/
def valuesOf {α : Type} (found : List (Parameter × Value)) (p : Parameter)
    (view : Value → Option α) : List α :=
  found.filterMap fun entry => if entry.1 == p then view entry.2 else none

/-- The value of a parameter. -/
def valueOf? {α : Type} (found : List (Parameter × Value)) (p : Parameter)
    (view : Value → Option α) : Option α :=
  (valuesOf found p view).head?

/-- The directory of a project where none is given. -/
def defaultDirectory : Path := ⟨"."⟩

/-- What the parameters of `bundle` ask for. -/
def BundleRequest.ofFound (found : List (Parameter × Value)) : BundleRequest :=
  { inputs := valuesOf found .inputs Value.path?
    mainClass := valueOf? found .mainClass Value.text?
    output := valueOf? found .output Value.path?
    duplicates := valueOf? found .duplicates Value.policy?
    exclude := valuesOf found .exclude Value.text?
    noDefaultExcludes := found.any fun entry => entry.1 == .noDefaultExcludes
    attributes := valuesOf found .attributes Value.pair?
    jobs := valueOf? found .jobs Value.number?
    config := valueOf? found .config Value.path? }

/-- What the parameters of a command ask for. -/
def requestOf (scope : Scope) (found : List (Parameter × Value)) : Except ArgumentError Request :=
  match scope with
  | .root => .error .missingCommand
  | .bundle => .ok (.bundle (.ofFound found))
  | .inspect =>
    match valueOf? found .archive Value.path? with
    | some archive => .ok (.inspect archive)
    | none => .error (.missing [.archive])
  | .init =>
    .ok (.init ((valueOf? found .directory Value.path?).getD defaultDirectory)
      (valueOf? found .mainClass Value.text?))

/-- The request of a command, from the words after its name. -/
def readCommand (scope : Scope) (words : List String) :
    Except Halt (Progress × Request) := do
  let s ← takeWords scope .start words
  let s ← s.settle.mapError .fault
  let request ← (requestOf scope s.found).mapError .fault
  return (s, request)

/-- What the words ask for. An option that is given both before and after the name of the command
counts as it is given after it. -/
def readArguments (words : List String) : Except Halt Invocation := do
  match ← takeRoot .start words with
  | (outer, none) =>
    let outer ← outer.settle.mapError .fault
    if outer.found.isEmpty then throw .noWords else throw (.fault .missingCommand)
  | (outer, some (scope, rest)) =>
    let (inner, request) ← readCommand scope rest
    let outer ← outer.settle.mapError .fault
    let color := (valueOf? inner.found .color Value.mode?).or
      (valueOf? outer.found .color Value.mode?)
    return {
      verbose := inner.has .verbose || outer.has .verbose
      color := color.getD .auto
      request := request }

end FatJar.Command
