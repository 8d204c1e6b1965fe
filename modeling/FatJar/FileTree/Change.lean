/-
FatJar.FileTree.Change — operations that change a file tree.

An operation that fails leaves the tree as it was, with one exception: creating
a directory with all those above it may fail after some of them have been
created, so it gives back a tree in any case.

Contents:
1. the last step of a path;
2. directories;
3. files;
4. replacing a file in one move.
-/
import FatJar.FileTree.Basic
import FatJar.Tool

namespace FatJar.FileTree

/-! ## 1. The last step -/

/-- The last step of a path that is to be created, removed or replaced. -/
inductive LastStep where
  /-- The root itself. -/
  | root
  /-- The directory in which it is taken. -/
  | here
  /-- The directory above. -/
  | up
  /-- A name, after which a slash may stand. -/
  | name (name : String) (slash : Bool)
  deriving DecidableEq, Repr

/-- The last step of a path. -/
def lastStep (p : Path) : LastStep :=
  match p.parts.getLast? with
  | none => .root
  | some last =>
    if last == "." then .here
    else if last == ".." then .up
    else .name last p.endsInSlash

/-- The directory in which the last step of a path, relative to `place`, is taken. -/
def holder (t : FileTree) (links : Nat) (place : Place) (p : Path) : Except FileError Place := do
  checkPath p
  let found ← t.walk links (start place p) p.parts.dropLast
  if t.node? found == some .directory then .ok found else .error .notDirectory

/-! ## 2. Directories -/

/-- Creates a directory in one that exists. -/
def createDirectory (t : FileTree) (p : Path) : Except FileError FileTree := do
  let place ← t.holder maxLinks t.workingDirectory p
  match lastStep p with
  | .name name _ =>
    if isLong name then .error .nameTooLong
    else if (t.node? (place ++ [name])).isSome then .error .alreadyExists
    else .ok (t.put (place ++ [name]) .directory)
  | _ => .error .alreadyExists

/-- Creates the first of the paths as a directory; the others are the directories above it, which
are created first where they are missing. -/
def createFrom (t : FileTree) : List Path → Except FileError Unit × FileTree
  | [] => (.error .notFound, t)
  | p :: above =>
    if p.text == "" then (.ok (), t)
    else
      match t.createDirectory p with
      | .ok t => (.ok (), t)
      | .error .notFound =>
        match t.createFrom above with
        | (.error e, t) => (.error e, t)
        | (.ok (), t) => settle t (t.createDirectory p) p
      | .error e => settle t (.error e) p
where
  /-- A directory that is already there is as good as a new one. -/
  settle (t : FileTree) (made : Except FileError FileTree) (p : Path) :
      Except FileError Unit × FileTree :=
    match made with
    | .ok t => (.ok (), t)
    | .error e => if t.isDirectory p then (.ok (), t) else (.error e, t)

/-- Creates a directory and those above it that are missing. -/
def createDirectories (t : FileTree) (p : Path) : Except FileError Unit × FileTree :=
  t.createFrom p.ancestors

/-- Removes a directory that is empty. -/
def removeDirectory (t : FileTree) (p : Path) : Except FileError FileTree := do
  let place ← t.holder maxLinks t.workingDirectory p
  match lastStep p with
  | .root => .error .busy
  | .here => .error .invalid
  | .up => .error .notEmpty
  | .name name _ =>
    if isLong name then .error .nameTooLong
    else
      match t.node? (place ++ [name]) with
      | none => .error .notFound
      | some .directory =>
        if (t.names (place ++ [name])).isEmpty then .ok (t.remove (place ++ [name]))
        else .error .notEmpty
      | some _ => .error .notDirectory

/-! ## 3. Files -/

/-- Takes steps to the place of a file that is to be written, following at most `links` links. The
last step may lead to nothing yet. A link there is followed, so that a link to nothing leads to its
target. A slash at the end asks for a directory, whatever stands there. -/
def writePlace (t : FileTree) (links : Nat) (place : Place) (steps : List String)
    (last : LastStep) : Except FileError Place :=
  match t.node? place with
  | none => .error .notFound
  | some (.file _) | some (.link _) => .error .notDirectory
  | some .directory =>
    match steps with
    | [] =>
      match last with
      | .name name false =>
        if isLong name then .error .nameTooLong
        else
          match t.node? (place ++ [name]) with
          | some .directory => .error .isDirectory
          | some (.link target) =>
            match links with
            | 0 => .error .tooManyLinks
            | fewer + 1 =>
              writePlace t fewer (start place ⟨target⟩) (Path.parts ⟨target⟩).dropLast
                (lastStep ⟨target⟩)
          | some (.file _) | none => .ok (place ++ [name])
      | _ => .error .isDirectory
    | name :: rest =>
      if name == "." then writePlace t links place rest last
      else if name == ".." then writePlace t links place.dropLast rest last
      else if isLong name then .error .nameTooLong
      else
        match t.node? (place ++ [name]) with
        | none => .error .notFound
        | some (.link target) =>
          match links with
          | 0 => .error .tooManyLinks
          | fewer + 1 =>
            writePlace t fewer (start place ⟨target⟩) (Path.steps ⟨target⟩ ++ rest) last
        | some _ => writePlace t links (place ++ [name]) rest last
termination_by (links, steps.length)

/-- Writes a file, creating it if it is not there. -/
def write (t : FileTree) (p : Path) (content : Bytes) : Except FileError FileTree := do
  checkPath p
  let place ← t.writePlace maxLinks (start t.workingDirectory p) p.parts.dropLast (lastStep p)
  return t.put place (.file content)

/-! ## 4. Replacing a file in one move -/

/-- A name for a temporary file. -/
def temporaryName (n : Nat) : String :=
  "." ++ Tool.name ++ "-" ++ toString n ++ ".tmp"

/-- Creates a file of a new name in a directory and gives its place. -/
def createTemporary (t : FileTree) (directory : Path) (content : Bytes) :
    Except FileError (Place × FileTree) := do
  let place ← t.resolve directory
  if t.node? place != some .directory then .error .notDirectory
  else
    let free := (List.range (t.nodes.length + 1)).find? fun n =>
      (t.node? (place ++ [temporaryName n])).isNone
    match free with
    | none => .error .alreadyExists
    | some n =>
      let place := place ++ [temporaryName n]
      .ok (place, t.put place (.file content))

/-- Moves the file at a place to a path, over a file or a link that stands there. -/
def moveFile (t : FileTree) (source : Place) (p : Path) : Except FileError FileTree := do
  if p.hasZero then .error .invalid
  else
    let place ← t.holder maxLinks t.workingDirectory p
    match lastStep p with
    | .name name slash =>
      if isLong name then .error .nameTooLong
      else if slash then .error .notDirectory
      else if t.node? (place ++ [name]) == some .directory then .error .isDirectory
      else
        match t.node? source with
        | some node => .ok ((t.remove source).put (place ++ [name]) node)
        | none => .error .notFound
    | _ => .error .busy

end FatJar.FileTree
