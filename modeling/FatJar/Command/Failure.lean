/-
FatJar.Command.Failure — why a command fails, and how it ends then.

Contents:
1. failures;
2. their wording;
3. the codes with which a command ends.
-/
import FatJar.Bundle.Error
import FatJar.Project.Init

namespace FatJar.Command

/-! ## 1. Failures -/

/-- Why a command fails. -/
inductive Failure where
  /-- There is neither a main class nor a project. -/
  | noMainClass
  /-- There is neither an output nor a project. -/
  | noOutput
  /-- There is no working directory from which to look for a project. -/
  | noWorkingDirectory (e : FileError)
  | load (path : Path) (e : ProjectConfig.Error)
  | bundle (e : BundleError)
  | read (e : ReadError)
  | manifest (e : Manifest.Error)
  | init (e : Project.InitError)
  deriving DecidableEq, Repr

namespace Failure

/-! ## 2. Wording -/

/-- The message of a failure and the messages of its causes. -/
def messages : Failure → List String
  | .noMainClass => ["no main class: pass --main-class or create a " ++ Tool.projectFile]
  | .noOutput => ["no output path: pass --output or create a " ++ Tool.projectFile]
  | .noWorkingDirectory e => ["cannot determine current directory", e.message]
  | .load path e => ("failed to load " ++ path.text) :: e.message :: e.causes
  | .bundle e => e.message :: e.causes
  | .read e => [e.message]
  | .manifest e => [e.message]
  | .init e => e.message :: e.causes

/-- The wording of a failure. -/
def message (f : Failure) : String :=
  ": ".intercalate f.messages

/-! ## 3. Codes -/

/-- The code for a bundle that is refused or fails. -/
def bundleCode : BundleError.Kind → Nat
  | .invalidArgument => 2
  | .emptyInput => 3
  | .io => 4
  | .duplicateEntry => 5

/-- The code with which the command ends. -/
def exitCode : Failure → Nat
  | .bundle e => bundleCode e.kind
  | .read _ => 4
  | _ => 1

end Failure

end FatJar.Command
