/-
FatJar.Project.Config — the description of a project.

A project says which inputs are bundled, in which order, where the bundle goes
and which class it runs. Optional settings are kept apart from their defaults:
an empty list of patterns is not the same as none given.

Contents:
1. attributes by name;
2. configurations;
3. what can be wrong with one, and how that is said;
4. checking;
5. options and paths.
-/
import FatJar.Bundle.Bundler
import FatJar.FileTree.Path

namespace FatJar

/-! ## 1. Attributes by name -/

/-- Attributes in the order of their names, each name once. -/
structure AttributeMap where
  entries : List Attribute
  sorted : entries.Pairwise fun a b => a.name < b.name
  deriving DecidableEq, Repr

namespace AttributeMap

/-- No attributes. -/
def empty : AttributeMap := ⟨[], List.Pairwise.nil⟩

/-- Puts an attribute in its place; it replaces one of the same name. -/
def place (a : Attribute) : List Attribute → List Attribute
  | [] => [a]
  | b :: rest =>
    if a.name < b.name then a :: b :: rest
    else if a.name == b.name then a :: rest
    else b :: place a rest

/-- What is in the list after an attribute has been put in its place. -/
theorem mem_place {a c : Attribute} {l : List Attribute} (h : c ∈ place a l) : c = a ∨ c ∈ l := by
  induction l with
  | nil => simpa [place] using h
  | cons b rest ih =>
    unfold place at h
    split at h
    · simpa using h
    · split at h
      · rcases List.mem_cons.1 h with rfl | h
        · exact .inl rfl
        · exact .inr (List.mem_cons_of_mem b h)
      · rcases List.mem_cons.1 h with rfl | h
        · exact .inr List.mem_cons_self
        · rcases ih h with rfl | h
          · exact .inl rfl
          · exact .inr (List.mem_cons_of_mem b h)

/-- Putting an attribute in its place keeps the order. -/
theorem place_sorted {a : Attribute} {l : List Attribute}
    (h : l.Pairwise fun a b => a.name < b.name) :
    (place a l).Pairwise fun a b => a.name < b.name := by
  induction l with
  | nil => simp [place]
  | cons b rest ih =>
    obtain ⟨hb, hrest⟩ := List.pairwise_cons.1 h
    unfold place
    split
    · rename_i hlt
      refine List.pairwise_cons.2 ⟨?_, h⟩
      intro c hc
      rcases List.mem_cons.1 hc with rfl | hc
      · exact hlt
      · exact String.lt_trans hlt (hb c hc)
    · rename_i hnlt
      split
      · rename_i heq
        have heq : a.name = b.name := by simpa using heq
        refine List.pairwise_cons.2 ⟨?_, hrest⟩
        intro c hc
        rw [heq]
        exact hb c hc
      · rename_i hne
        have hne : a.name ≠ b.name := by simpa using hne
        refine List.pairwise_cons.2 ⟨?_, ih hrest⟩
        intro c hc
        rcases mem_place hc with rfl | hc
        · exact Decidable.byContradiction fun hba =>
            hne (String.le_antisymm (String.not_lt.1 hba) (String.not_lt.1 hnlt))
        · exact hb c hc

/-- Sets an attribute. -/
def insert (m : AttributeMap) (a : Attribute) : AttributeMap :=
  ⟨place a m.entries, place_sorted m.sorted⟩

/-- Each name stands once. -/
theorem nodup_names (m : AttributeMap) : (m.entries.map (·.name)).Nodup := by
  rw [List.Nodup, List.pairwise_map]
  refine m.sorted.imp ?_
  intro a b hlt heq
  rw [heq] at hlt
  exact String.lt_irrefl b.name hlt

/-- The attributes of a list; of several of one name the last counts. -/
def ofList (attributes : List Attribute) : AttributeMap :=
  attributes.foldl insert empty

end AttributeMap

/-! ## 2. Configurations -/

/-- The description of a project. -/
structure ProjectConfig where
  mainClass : String
  output : String
  duplicates : DuplicatePolicy
  inputs : List String
  exclude : Option (List String)
  jobs : Option Nat
  manifest : AttributeMap
  deriving DecidableEq, Repr

namespace ProjectConfig

/-- The configuration that says no more than it has to. -/
def basic (mainClass output : String) (inputs : List String) : ProjectConfig :=
  { mainClass, output, duplicates := .default, inputs, exclude := none, jobs := none,
    manifest := .empty }

/-! ## 3. Faults -/

/-- What can be wrong with the settings of a project. -/
inductive Fault where
  | blankMainClass
  | blankOutput
  | noInputs
  | badPattern (pattern : String) (e : Glob.Error)
  | badName (name : String)
  | managedName (name : String)
  deriving DecidableEq, Repr

/-- The wording of a fault. -/
def Fault.reason : Fault → String
  | .blankMainClass => "main-class cannot be empty"
  | .blankOutput => "output cannot be empty"
  | .noInputs => "inputs cannot be empty"
  | .badPattern pattern e =>
    "Invalid exclude pattern " ++ Text.quoted pattern ++ ": " ++ e.message
  | .badName name => "Invalid manifest attribute name: " ++ name
  | .managedName name =>
    "Manifest attribute " ++ name ++ " is set by " ++ Tool.name ++ " and cannot be configured"

/-- Why a configuration cannot be read, checked or written. -/
inductive Error where
  | system (e : FileError)
  | notText
  | unparsable
  | unwritable
  | invalid (fault : Fault)
  deriving DecidableEq, Repr

/-- The wording of the cause beneath an error. What the TOML library says of a text that it cannot
read, or of a number that it cannot write, is longer; here only its first words are kept. -/
def Error.cause : Error → String
  | .system e => e.message
  | .notText => "stream did not contain valid UTF-8"
  | .unparsable => "TOML parse error"
  | .unwritable => "out-of-range value"
  | .invalid fault => fault.reason

/-- The wording of an error. -/
def Error.message : Error → String
  | .system e => "Failed to read config file: " ++ e.message
  | .notText => "Failed to read config file: " ++ Error.cause .notText
  | .unparsable => "Failed to parse config: " ++ Error.cause .unparsable
  | .unwritable => "Failed to serialize config: " ++ Error.cause .unwritable
  | .invalid fault => "Invalid config: " ++ fault.reason

/-- The messages of the causes beneath an error. -/
def Error.causes : Error → List String
  | .invalid _ => []
  | e => [e.cause]

/-! ## 4. Checking -/

/-- The first pattern that cannot be read. -/
def patternFault? : List String → Option Fault
  | [] => none
  | pattern :: rest =>
    match Glob.Pattern.compile pattern with
    | .error e => some (.badPattern pattern e)
    | .ok _ => patternFault? rest

/-- The first attribute that cannot be set. -/
def attributeFault? : List Attribute → Option Fault
  | [] => none
  | a :: rest =>
    if !Manifest.isName a.name then some (.badName a.name)
    else if Manifest.isManaged a.name then some (.managedName a.name)
    else attributeFault? rest

/-- The first fault of a configuration. -/
def fault? (c : ProjectConfig) : Option Fault :=
  if Text.blank c.mainClass then some .blankMainClass
  else if Text.blank c.output then some .blankOutput
  else if c.inputs.isEmpty then some .noInputs
  else
    match patternFault? (c.exclude.getD []) with
    | some fault => some fault
    | none => attributeFault? c.manifest.entries

/-- Checks a configuration. -/
def validate (c : ProjectConfig) : Except Error Unit :=
  match c.fault? with
  | some fault => .error (.invalid fault)
  | none => .ok ()

/-! ## 5. Options and paths -/

/-- The options that a configuration asks for. -/
def toOptions (c : ProjectConfig) : BundleOptions :=
  { entryPoint := c.mainClass
    policy := c.duplicates
    exclude := c.exclude.getD defaultExcludes
    attributes := c.manifest.entries
    jobs := c.jobs.getD 1 }

/-- A path of a configuration, seen from the directory of the project. -/
def resolvePath (base : Path) (text : String) : Path :=
  base.join ⟨text⟩

/-- The paths of the inputs. -/
def inputPaths (c : ProjectConfig) (base : Path) : List Path :=
  c.inputs.map (resolvePath base)

/-- The path of the output. -/
def outputPath (c : ProjectConfig) (base : Path) : Path :=
  resolvePath base c.output

end ProjectConfig

end FatJar
