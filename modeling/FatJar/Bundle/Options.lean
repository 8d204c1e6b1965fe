/-
FatJar.Bundle.Options — what is asked of a bundle.
-/
import FatJar.Bundle.Policy
import FatJar.Manifest.Basic

namespace FatJar

/-- The patterns for the signature files of signed archives: signatures do not survive merging. -/
def defaultExcludes : List String :=
  ["META-INF/*.SF", "META-INF/*.DSA", "META-INF/*.RSA", "META-INF/*.EC"]

/-- The entry point of a bundle, how duplicates are treated, which entries are left out, the
attributes added to the manifest, and how many inputs are read at once (0 for one per processor). -/
structure BundleOptions where
  entryPoint : String
  policy : DuplicatePolicy
  exclude : List String
  attributes : List Attribute
  jobs : Nat
  deriving DecidableEq, Repr

/-- The options for an entry point where nothing else is asked. -/
def BundleOptions.ofEntryPoint (entryPoint : String) : BundleOptions :=
  { entryPoint, policy := .default, exclude := defaultExcludes, attributes := [], jobs := 1 }

end FatJar
