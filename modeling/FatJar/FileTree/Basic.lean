/-
FatJar.FileTree.Basic — a tree of files, directories and links.

The tree is a list of places with what stands there. A place is the list of
names that leads to it from the root, which is always a directory. A path is
resolved step by step, and links are followed where they are met.

Contents:
1. nodes, places and trees;
2. what can fail, and how that is said;
3. looking at places;
4. resolving paths;
5. questions about paths.
-/
import FatJar.FileTree.Path
import FatJar.Text.Utf8

namespace FatJar

/-! ## 1. Nodes, places and trees -/

/-- What stands at a place. -/
inductive Node where
  | file (content : Bytes)
  | directory
  | link (target : String)
  deriving DecidableEq, Repr

/-- The names that lead from the root to a place. -/
abbrev Place := List String

/-- A file tree, seen from a directory in it. That directory may have been removed: then nothing
stands at its place, and relative paths lead nowhere. -/
structure FileTree where
  nodes : List (Place × Node)
  workingDirectory : Place
  deriving DecidableEq, Repr

/-! ## 2. Failures -/

/-- Why the system refuses an operation on a path. -/
inductive FileError where
  | notFound
  | busy
  | alreadyExists
  | notDirectory
  | isDirectory
  | invalid
  | nameTooLong
  | notEmpty
  | tooManyLinks
  /-- There is a zero byte in the path, so that the system is not even asked. -/
  | zeroByte
  deriving DecidableEq, Repr

/-- The number that the system gives to a failure. -/
def FileError.code? : FileError → Option Nat
  | .notFound => some 2
  | .busy => some 16
  | .alreadyExists => some 17
  | .notDirectory => some 20
  | .isDirectory => some 21
  | .invalid => some 22
  | .nameTooLong => some 36
  | .notEmpty => some 39
  | .tooManyLinks => some 40
  | .zeroByte => none

/-- What a failure is called. -/
def FileError.description : FileError → String
  | .notFound => "No such file or directory"
  | .busy => "Device or resource busy"
  | .alreadyExists => "File exists"
  | .notDirectory => "Not a directory"
  | .isDirectory => "Is a directory"
  | .invalid => "Invalid argument"
  | .nameTooLong => "File name too long"
  | .notEmpty => "Directory not empty"
  | .tooManyLinks => "Too many levels of symbolic links"
  | .zeroByte => "file name contained an unexpected NUL byte"

/-- The wording of a failure. -/
def FileError.message (e : FileError) : String :=
  match e.code? with
  | some code => e.description ++ " (os error " ++ toString code ++ ")"
  | none => e.description

namespace FileTree

/-! ## 3. Places -/

/-- What stands at a place. -/
def node? (t : FileTree) (place : Place) : Option Node :=
  if place.isEmpty then some .directory
  else (t.nodes.find? fun entry => entry.1 == place).map (·.2)

/-- The names of what stands in a directory, in the order in which it was put there. -/
def names (t : FileTree) (place : Place) : List String :=
  t.nodes.filterMap fun entry => if entry.1.dropLast == place then entry.1.getLast? else none

/-- Puts a node at a place, instead of what stood there. -/
def put (t : FileTree) (place : Place) (node : Node) : FileTree :=
  if t.nodes.any (·.1 == place) then
    { t with nodes := t.nodes.map fun entry => if entry.1 == place then (place, node) else entry }
  else { t with nodes := t.nodes ++ [(place, node)] }

/-- Removes what stands at a place. -/
def remove (t : FileTree) (place : Place) : FileTree :=
  { t with nodes := t.nodes.filter fun entry => entry.1 != place }

/-! ## 4. Resolving paths -/

/-- The most bytes in a name. -/
def maxName : Nat := 255

/-- The most bytes in a path. -/
def maxPath : Nat := 4095

/-- The most links that are followed for one path. -/
def maxLinks : Nat := 40

/-- Whether a name is too long. -/
def isLong (name : String) : Bool :=
  maxName < name.utf8ByteSize

/-- Where a relative or an absolute path starts. -/
def start (place : Place) (p : Path) : Place :=
  if p.isAbsolute then [] else place

/-- Takes steps from a place, following at most `links` links. The last step leads to something
that exists. -/
def walk (t : FileTree) (links : Nat) (place : Place) (steps : List String) :
    Except FileError Place :=
  match steps with
  | [] => .ok place
  | name :: rest =>
    match t.node? place with
    | none => .error .notFound
    | some (.file _) | some (.link _) => .error .notDirectory
    | some .directory =>
      if name == "." then walk t links place rest
      else if name == ".." then walk t links place.dropLast rest
      else if isLong name then .error .nameTooLong
      else
        match t.node? (place ++ [name]) with
        | none => .error .notFound
        | some (.link target) =>
          match links with
          | 0 => .error .tooManyLinks
          | fewer + 1 => walk t fewer (start place ⟨target⟩) (Path.steps ⟨target⟩ ++ rest)
        | some _ => walk t links (place ++ [name]) rest
termination_by (links, steps.length)

/-- A path that can be followed at all: it has no zero byte, is not empty and not too long. -/
def checkPath (p : Path) : Except FileError Unit :=
  if p.hasZero then .error .zeroByte
  else if p.text == "" then .error .notFound
  else if maxPath < p.text.utf8ByteSize then .error .nameTooLong
  else .ok ()

/-- The place to which a path leads, with all links followed. -/
def resolve (t : FileTree) (p : Path) : Except FileError Place := do
  checkPath p
  t.walk maxLinks (start t.workingDirectory p) p.steps

/-! ## 5. Questions about paths -/

/-- Whether the path leads to something. -/
def pathExists (t : FileTree) (p : Path) : Bool :=
  match t.resolve p with
  | .ok _ => true
  | .error _ => false

/-- Whether the path leads to a directory. -/
def isDirectory (t : FileTree) (p : Path) : Bool :=
  match t.resolve p with
  | .ok place => t.node? place == some .directory
  | .error _ => false

/-- The content of the file to which the path leads. -/
def read (t : FileTree) (p : Path) : Except FileError Bytes := do
  match t.node? (← t.resolve p) with
  | some (.file content) => .ok content
  | some .directory => .error .isDirectory
  | _ => .error .notFound

/-- The names in the directory to which the path leads. -/
def list (t : FileTree) (p : Path) : Except FileError (List String) := do
  let place ← t.resolve p
  match t.node? place with
  | some .directory => .ok (t.names place)
  | _ => .error .notDirectory

/-- The name of the place to which the path leads; the root has none. -/
def resolvedName? (t : FileTree) (p : Path) : Option String :=
  match t.resolve p with
  | .ok place => place.getLast?
  | .error _ => none

/-- The working directory as an absolute path. -/
def workingPath (t : FileTree) : Path :=
  ⟨"/" ++ "/".intercalate t.workingDirectory⟩

/-- The path of the working directory, if it is still there. -/
def currentDirectory (t : FileTree) : Except FileError Path :=
  if t.node? t.workingDirectory == some .directory then .ok t.workingPath
  else .error .notFound

end FileTree

end FatJar
