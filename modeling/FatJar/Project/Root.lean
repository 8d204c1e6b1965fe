/-
FatJar.Project.Root — where the project of a directory is.

The project of a directory is described in the nearest directory above it, or in
itself. The directories above are read off the path as it is written.
-/
import FatJar.FileTree.Basic
import FatJar.Tool

namespace FatJar.Project

/-- The path of the description of a project in a directory. -/
def file (directory : Path) : Path :=
  directory.join ⟨Tool.projectFile⟩

/-- Whether a directory holds the description of a project. -/
def isRoot (t : FileTree) (directory : Path) : Bool :=
  t.pathExists (file directory)

/-- The nearest directory, from the given one upward, that holds the description of a project. -/
def findRoot? (t : FileTree) (directory : Path) : Option Path :=
  directory.ancestors.find? (isRoot t)

end FatJar.Project
