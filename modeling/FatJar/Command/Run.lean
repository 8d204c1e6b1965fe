/-
FatJar.Command.Run — running the command line.

A run takes the words of the command line, the settings around it and a file
tree. It gives what is written, what is logged, the code with which it ends, and
the tree as it is afterwards.

Contents:
1. settings and outcomes;
2. outcomes of a command;
3. requests;
4. runs.
-/
import FatJar.Command.Bundle
import FatJar.Command.Help
import FatJar.Command.Inspect
import FatJar.Log.Filter

namespace FatJar.Command

/-! ## 1. Settings and outcomes -/

/-- What a run finds around it: whether the user wants no color at all, the kind of terminal, the
setting of the log, and the number of processors. -/
structure Environment where
  colorRefused : Bool
  terminal : Option String
  logging : Option String
  processors : Nat
  deriving DecidableEq, Repr

/-- What comes of a run. -/
structure Outcome where
  exitCode : Nat
  output : String
  log : List Event
  errors : String
  tree : FileTree
  deriving DecidableEq, Repr

/-! ## 2. Outcomes of a command -/

/-- What a command writes and logs, whether it fails, and the tree that it leaves. -/
structure Effect where
  pieces : List Piece
  events : List Event
  failure : Option Failure
  tree : FileTree
  deriving DecidableEq, Repr

/-- What is written about a failure. -/
def failurePieces : Option Failure → List Piece
  | none => []
  | some f => [alarm "error:", .plain (" " ++ f.message ++ "\n")]

/-- The code with which a command ends. -/
def codeOf : Option Failure → Nat
  | none => 0
  | some f => f.exitCode

/-! ## 3. Requests -/

/-- Runs `bundle`. -/
def runBundle (t : FileTree) (processors : Nat) (r : BundleRequest) : Effect :=
  let events := bundleEvents t processors r
  match bundle t processors r with
  | (.ok (p, report), tree) => ⟨bundleText p report, events, none, tree⟩
  | (.error f, tree) => ⟨[], events, some f, tree⟩

/-- Runs `inspect`. -/
def runInspect (t : FileTree) (archive : Path) : Effect :=
  match inspect t archive with
  | .ok i => ⟨i.report.1, [], i.report.2, t⟩
  | .error f => ⟨[], [], some f, t⟩

/-- Runs `init`. -/
def runInit (t : FileTree) (directory : Path) (mainClass : Option String) : Effect :=
  match Project.init t directory mainClass with
  | (.ok p, tree) => ⟨[success "Created ", .plain p.text, newline], [], none, tree⟩
  | (.error e, tree) => ⟨[], [], some (.init e), tree⟩

/-- Runs what is asked for. -/
def Request.run (t : FileTree) (processors : Nat) : Request → Effect
  | .bundle r => runBundle t processors r
  | .inspect archive => runInspect t archive
  | .init directory mainClass => runInit t directory mainClass

/-! ## 4. Runs -/

/-- The outcome of an invocation. -/
def Invocation.run (i : Invocation) (env : Environment) (t : FileTree) : Outcome :=
  let effect := i.request.run t env.processors
  let colored := i.color.isColored env.colorRefused env.terminal
  let filter := Log.Filter.choose i.verbose env.logging
  { exitCode := codeOf effect.failure
    output := render colored effect.pieces
    log := effect.events.filter fun e => filter.allows e.toMessage
    errors := render colored (failurePieces effect.failure)
    tree := effect.tree }

/-- The outcome of words that do not lead to a request. -/
def Halt.outcome (t : FileTree) : Halt → Outcome
  | .fault e => ⟨2, "", [], e.report, t⟩
  | .help scope => ⟨0, scope.help, [], "", t⟩
  | .version => ⟨0, Tool.signature ++ "\n", [], "", t⟩
  | .noWords => ⟨2, "", [], Scope.root.help, t⟩

/-- Runs the command line. -/
def run (env : Environment) (t : FileTree) (words : List String) : Outcome :=
  match readArguments words with
  | .ok i => i.run env t
  | .error h => h.outcome t

end FatJar.Command
