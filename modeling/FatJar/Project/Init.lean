/-
FatJar.Project.Init — starting a project.

A new project is bundled from its compiled classes and its libraries into an
archive named after its directory.

Contents:
1. why a project cannot be started, and how that is said;
2. the configuration of a new project;
3. starting a project.
-/
import FatJar.Project.Root
import FatJar.Project.Store

namespace FatJar.Project

/-! ## 1. Failures -/

/-- Why a project cannot be started. -/
inductive InitError where
  | alreadyExists (directory : Path)
  | system (e : FileError)
  | config (e : ProjectConfig.Error)
  deriving DecidableEq, Repr

/-- The wording of a failure. -/
def InitError.message : InitError → String
  | .alreadyExists directory =>
    "Project already exists: " ++ Tool.projectFile ++ " found in " ++ directory.text
  | .system e => "IO error: " ++ e.message
  | .config e => "Config error: " ++ e.message

/-- The messages of the causes beneath a failure. -/
def InitError.causes : InitError → List String
  | .alreadyExists _ => []
  | .system e => [e.message]
  | .config e => e.message :: e.causes

/-! ## 2. New projects -/

/-- The class that a new project runs where none is given. -/
def defaultMainClass : String := "com.example.Main"

/-- The name of a project in the root directory, which has none itself. -/
def defaultName : String := "app"

/-- The configuration of a new project. -/
def starter (mainClass : Option String) (name : String) : ProjectConfig :=
  .basic (mainClass.getD defaultMainClass) ("build/libs/" ++ name ++ ".jar")
    ["build/classes", "libs"]

/-! ## 3. Starting -/

/-- Checks a configuration and writes it. -/
def writeStarter (t : FileTree) (p : Path) (c : ProjectConfig) :
    Except ProjectConfig.Error FileTree := do
  c.validate
  c.save t p

/-- Starts a project in a directory, which is created if it is missing, and gives the path of its
description. -/
def init (t : FileTree) (directory : Path) (mainClass : Option String) :
    Except InitError Path × FileTree :=
  let p := file directory
  if t.pathExists p then (.error (.alreadyExists directory), t)
  else
    match t.createDirectories directory with
    | (.error e, t) => (.error (.system e), t)
    | (.ok (), t) =>
      let name := (t.resolvedName? directory).getD defaultName
      match writeStarter t p (starter mainClass name) with
      | .error e => (.error (.config e), t)
      | .ok t => (.ok p, t)

end FatJar.Project
