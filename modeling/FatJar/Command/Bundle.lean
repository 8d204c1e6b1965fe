/-
FatJar.Command.Bundle — the command `bundle`.

The project of the working directory, or the one that is named, gives the
settings; what is asked for on the command line comes before them. Inputs that
are given replace those of the project.

Contents:
1. the project;
2. options;
3. the plan: what is bundled where;
4. running the plan;
5. what is written and logged.
-/
import FatJar.Bundle.Event
import FatJar.Command.Arguments
import FatJar.Command.Failure
import FatJar.Project.Root

namespace FatJar.Command

/-! ## 1. The project -/

/-- A configuration and the directory from which its paths are seen. -/
structure LoadedProject where
  config : ProjectConfig
  base : Path
  deriving DecidableEq, Repr

/-- The path of the configuration: the one asked for, or that of the nearest project. A project is
looked for from the working directory, so that has to be there. -/
def configPath? (t : FileTree) (r : BundleRequest) : Except Failure (Option Path) :=
  match r.config with
  | some p => .ok (some p)
  | none => do
    let here ← t.currentDirectory.mapError .noWorkingDirectory
    return (Project.findRoot? t here).map Project.file

/-- Loads a project from its configuration. -/
def loadProject (t : FileTree) (p : Path) : Except Failure LoadedProject :=
  match ProjectConfig.load t p with
  | .error e => .error (.load p e)
  | .ok config => .ok ⟨config, p.parent?.getD ⟨""⟩⟩

/-- Loads the project, if there is one. -/
def findProject (t : FileTree) (r : BundleRequest) : Except Failure (Option LoadedProject) :=
  match configPath? t r with
  | .error e => .error e
  | .ok none => .ok none
  | .ok (some p) => (loadProject t p).map some

/-! ## 2. Options -/

/-- The options of the project, or the default ones. -/
def baseOptions : Option LoadedProject → BundleOptions
  | some project => project.config.toOptions
  | none => .ofEntryPoint ""

/-- The patterns that remain of a list where the default ones are not wanted. -/
def withoutDefaults (patterns : List String) : List String :=
  patterns.filter fun pattern => !defaultExcludes.contains pattern

/-- The options with what is asked for on the command line. -/
def BundleRequest.adjust (r : BundleRequest) (o : BundleOptions) : BundleOptions :=
  { entryPoint := r.mainClass.getD o.entryPoint
    policy := r.duplicates.getD o.policy
    exclude := (if r.noDefaultExcludes then withoutDefaults o.exclude else o.exclude) ++ r.exclude
    attributes := o.attributes ++ r.attributes
    jobs := r.jobs.getD o.jobs }

/-- The options for a request. -/
def optionsFor (project : Option LoadedProject) (r : BundleRequest) :
    Except Failure BundleOptions :=
  if project.isNone && r.mainClass.isNone then .error .noMainClass
  else .ok (r.adjust (baseOptions project))

/-! ## 3. The plan -/

/-- What is bundled where. -/
structure BundlePlan where
  bundler : Bundler
  sources : List Source
  output : Path
  deriving DecidableEq, Repr

/-- The paths of the inputs. -/
def inputPaths (project : Option LoadedProject) (r : BundleRequest) : List Path :=
  if !r.inputs.isEmpty then r.inputs
  else
    match project with
    | some project => project.config.inputPaths project.base
    | none => []

/-- The path of the output. -/
def outputPath? (project : Option LoadedProject) (r : BundleRequest) : Option Path :=
  match r.output with
  | some p => some p
  | none => project.map fun project => project.config.outputPath project.base

/-- The plan for a request. -/
def plan (t : FileTree) (r : BundleRequest) : Except Failure BundlePlan := do
  let project ← findProject t r
  let options ← optionsFor project r
  let bundler ← (Bundler.ofOptions options).mapError .bundle
  let sources := (inputPaths project r).map (Source.ofPath t)
  if sources.isEmpty then .error (.bundle .emptyInput)
  else
    match outputPath? project r with
    | none => .error .noOutput
    | some output => .ok ⟨bundler, sources, output⟩

/-! ## 4. Running -/

/-- Makes the bundle that is asked for. -/
def bundle (t : FileTree) (processors : Nat) (r : BundleRequest) :
    Except Failure (BundlePlan × BundleReport) × FileTree :=
  match plan t r with
  | .error e => (.error e, t)
  | .ok p =>
    match p.bundler.bundle t processors p.sources p.output with
    | (.error e, t) => (.error (.bundle e), t)
    | (.ok report, t) => (.ok (p, report), t)

/-! ## 5. Messages -/

/-- What is written about a bundle. -/
def bundleText (p : BundlePlan) (r : BundleReport) : List Piece :=
  [success "Bundled ", strong r.output.text, newline] ++
    field "inputs" (toString p.sources.length) ++
    field "entries" (toString r.entries) ++
    field "duplicates" (toString r.stats.duplicatesResolved ++ " resolved (" ++
      p.bundler.options.policy.name ++ ")") ++
    field "excluded" (toString r.stats.excluded) ++
    field "sha256" (Digest.hex r.checksum)

/-- The event of loading the project. -/
def loadingEvents (t : FileTree) (r : BundleRequest) : List Event :=
  match configPath? t r with
  | .ok (some p) => [.loading p]
  | _ => []

/-- What the log says about a bundle. -/
def bundleEvents (t : FileTree) (processors : Nat) (r : BundleRequest) : List Event :=
  loadingEvents t r ++
    match plan t r with
    | .error _ => []
    | .ok p => p.bundler.events t processors p.sources p.output

end FatJar.Command
