/-
FatJar.Bundle.Bundler — options that have been checked.

The entry point is checked first, then the attributes in their order, then the
patterns in theirs; the first fault is the one that is reported.

Contents:
1. the entry point;
2. attributes;
3. patterns;
4. the bundler.
-/
import FatJar.Bundle.Error
import FatJar.Bundle.Options
import FatJar.Glob.Match
import FatJar.Text.Blank

namespace FatJar

/-- Options that have been checked, with the patterns and the manifest made from them. -/
structure Bundler where
  options : BundleOptions
  excludes : List Glob.Pattern
  manifest : Manifest
  deriving DecidableEq, Repr

namespace Bundler

/-! ## 1. The entry point -/

/-- An entry point is a text of one line that neither starts nor ends in white space. -/
def isEntryPoint (s : String) : Bool :=
  !(Text.blank s || Text.trim s != s || s.toList.any Manifest.isForbidden)

/-! ## 2. Attributes -/

/-- Sets the attributes one after the other; those that the tool sets itself are refused. -/
def addAttributes (m : Manifest) : List Attribute → Except Manifest.Error Manifest
  | [] => .ok m
  | a :: rest =>
    if Manifest.isManaged a.name then .error (.managed a.name)
    else do addAttributes (← m.set a.name a.value) rest

/-- The manifest of a bundle. -/
def manifestOf (options : BundleOptions) : Except Manifest.Error Manifest := do
  addAttributes (← Manifest.executable options.entryPoint) options.attributes

/-! ## 3. Patterns -/

/-- Reads patterns, or gives the first that is faulty. -/
def compileAll : List String → Except BundleError (List Glob.Pattern)
  | [] => .ok []
  | text :: rest =>
    match Glob.Pattern.compile text with
    | .error e => .error (.invalidPattern text e)
    | .ok pattern => do return pattern :: (← compileAll rest)

/-! ## 4. The bundler -/

/-- Checks options. -/
def ofOptions (options : BundleOptions) : Except BundleError Bundler :=
  if !isEntryPoint options.entryPoint then .error (.invalidEntryPoint options.entryPoint)
  else do
    let manifest ← (manifestOf options).mapError BundleError.manifest
    let excludes ← compileAll options.exclude
    return { options, excludes, manifest }

/-- Whether an entry of the name is left out. -/
def isExcluded (b : Bundler) (name : String) : Bool :=
  b.excludes.any (·.matches name)

end Bundler

end FatJar
