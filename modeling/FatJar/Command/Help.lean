/-
FatJar.Command.Help — what the command line says about itself.

Contents:
1. what commands and parameters are for;
2. usage lines;
3. help texts.
-/
import FatJar.Command.Arguments
import FatJar.Text.Displayed

namespace FatJar.Command

/-! ## 1. Purposes -/

/-- What a command is for. -/
def Scope.purpose : Scope → String
  | .root => "Merge archives into a single executable jar"
  | .bundle => "Merge input archives into one executable jar"
  | .inspect => "List the entries and main class of an archive"
  | .init => "Create a " ++ Tool.projectFile

/-- What a parameter is for. -/
def Parameter.purpose : Parameter → String
  | .verbose => "Enable debug logging"
  | .color => "When to use colors [possible values: auto, always, never]"
  | .help => "Print help"
  | .version => "Print version"
  | .inputs =>
    "Input jars or class directories, in merge order (defaults to " ++ Tool.projectFile ++ ")"
  | .mainClass => "Fully-qualified class to run (Main-Class)"
  | .output => "Output jar path"
  | .duplicates => "Duplicate entry policy: first-wins, last-wins or error"
  | .exclude => "Glob pattern of entries to drop (repeatable)"
  | .noDefaultExcludes => "Keep signature files of signed jars"
  | .attributes => "Extra manifest attribute as KEY=VALUE (repeatable)"
  | .jobs => "Number of inputs read in parallel (0 = one per CPU)"
  | .config => "Path to " ++ Tool.projectFile
  | .archive => "Archive to inspect"
  | .directory => "Directory to initialize (defaults to current directory) [default: .]"

/-! ## 2. Usage -/

/-- How a command is called. -/
def Scope.usage (scope : Scope) : String :=
  let words := [Tool.name, scope.name, "[OPTIONS]"] ++ scope.places.map Parameter.shown
  let words := if scope == .root then words ++ ["<COMMAND>"] else words
  "Usage: " ++ " ".intercalate (words.filter (· != ""))

/-! ## 3. Help -/

/-- A parameter with its short name, if it has one. -/
def Parameter.entry (p : Parameter) : String :=
  match p.form.long, p.form.short with
  | none, _ => p.shown
  | some _, some c => String.ofList ['-', c] ++ ", " ++ p.shown
  | some _, none => "    " ++ p.shown

/-- Lines of two columns under a title. -/
def twoColumns (title : String) (rows : List (String × String)) : String :=
  let width := (rows.map fun row => row.1.length).foldl max 0
  let lines := rows.map fun row => "  " ++ row.1 ++ filling width row.1 ++ "  " ++ row.2
  "\n" ++ title ++ ":\n" ++ String.join (lines.map (· ++ "\n"))

/-- The commands and what they are for. -/
def commandRows : List (String × String) :=
  (Scope.commands.map fun scope => (scope.name, scope.purpose)) ++
    [(Scope.helpWord, "Print this message or the help of the given subcommand(s)")]

/-- The parameters and what they are for. -/
def parameterRows (ps : List Parameter) : List (String × String) :=
  ps.map fun p => (p.entry, p.purpose)

/-- The help text of a command. -/
def Scope.help (scope : Scope) : String :=
  scope.purpose ++ "\n\n" ++ scope.usage ++ "\n" ++
    (if scope == .root then twoColumns "Commands" commandRows
      else if scope.places.isEmpty then ""
      else twoColumns "Arguments" (parameterRows scope.places)) ++
    twoColumns "Options" (parameterRows scope.options)

/-- What is said about words that cannot be understood. The words of the user may hold anything, so
all of it is written as a terminal would display it. -/
def ArgumentError.report (e : ArgumentError) : String :=
  Text.displayed <| render true <|
    [alarm "error:", .plain " "] ++ e.pieces ++
      [.plain "\n\nFor more information, try '", strong "--help", .plain "'.\n"]

end FatJar.Command
