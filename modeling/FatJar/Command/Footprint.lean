/-
FatJar.Command.Footprint — the part of the file tree that a request looks at.

A run needs no more of the file tree than its footprint. The inputs of a project
are known only once its configuration is, so the footprint of a tree that holds
the configurations is larger than that of the empty tree.
-/
import FatJar.Command.Bundle

namespace FatJar.Command

/-- The paths that are looked at with all that is below them, and those of which only matters what
stands there. -/
structure Footprint where
  whole : List Path
  edges : List Path
  deriving DecidableEq, Repr

/-- The paths where a configuration may be. -/
def configPaths (t : FileTree) (r : BundleRequest) : List Path :=
  match r.config with
  | some p => [p]
  | none => t.workingPath.ancestors.map Project.file

/-- The footprint of a request, as far as the tree tells. -/
def Request.footprint (t : FileTree) : Request → Footprint
  | .bundle r =>
    let project := match findProject t r with
      | .ok project => project
      | .error _ => none
    ⟨configPaths t r ++ inputPaths project r,
      ((outputPath? project r).map Path.ancestors).getD []⟩
  | .inspect archive => ⟨[archive], []⟩
  | .init directory _ => ⟨[], Project.file directory :: directory.ancestors⟩

end FatJar.Command
