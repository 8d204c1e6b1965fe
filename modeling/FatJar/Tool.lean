/-
FatJar.Tool — the names under which the tool presents itself.
-/

namespace FatJar.Tool

/-- The name of the command. -/
def name : String := "jarpack"

/-- The version of the command. -/
def version : String := "0.2.0"

/-- What `--version` answers and what a written manifest gives as its creator. -/
def signature : String := name ++ " " ++ version

/-- The file that describes a project. -/
def projectFile : String := name ++ ".toml"

end FatJar.Tool
