/-
FatJar.Log.Filter — which messages of the log are shown.

A filter is a list of directives with commas between them. Of the directives
that fit a message the most specific one decides; a message that none fits is
not shown.

Contents:
1. messages and filters;
2. reading a filter;
3. how specific a directive is;
4. what a filter lets through;
5. which filter is used.
-/
import FatJar.Log.Directive

namespace FatJar.Log

/-! ## 1. Messages and filters -/

/-- What a filter asks about a message: the part of the program that it comes from, the names of its
fields, and how important it is. -/
structure Message where
  target : String
  fields : List String
  level : Level
  deriving DecidableEq, Repr

/-- Directives in the order in which they are given. -/
structure Filter where
  directives : List Directive
  deriving DecidableEq, Repr

/-- The filter with one threshold for everything. -/
def Filter.everywhere (threshold : Threshold) : Filter :=
  ⟨[.everywhere threshold]⟩

/-! ## 2. Reading -/

/-- The directives, or none if one of them cannot be read. -/
def directives? : List (List Char) → Option (List Directive)
  | [] => some []
  | piece :: rest => do return (← Directive.ofText? piece) :: (← directives? rest)

/-- The filter of a text. -/
def Filter.ofText? (text : String) : Option Filter := do
  let pieces := (Text.splitWhere (· == ',') text.toList).filter fun piece => !piece.isEmpty
  return ⟨← directives? pieces⟩

/-! ## 3. Specificity -/

namespace Directive

/-- The length of the name in a directive; a directive without a name comes before all others. -/
def reach (d : Directive) : Nat :=
  match d.target with
  | none => 0
  | some target => target.utf8ByteSize + 1

/-- Orders directives from the general to the specific: by the length of the name, then by the
number of fields, then by the name and the fields themselves. -/
def compareSpecificity (a b : Directive) : Ordering :=
  (compare a.reach b.reach).then <|
    (compare a.fields.length b.fields.length).then <|
      (compare (a.target.getD "") (b.target.getD "")).then <|
        compare (a.fields.map (·.name)) (b.fields.map (·.name))

/-- The more specific of two directives; of two equally specific ones the later. -/
def closer (earlier later : Directive) : Directive :=
  if earlier.compareSpecificity later == .gt then earlier else later

end Directive

/-! ## 4. Showing -/

/-- Whether a directive speaks of a message. -/
def Directive.fits (d : Directive) (m : Message) : Bool :=
  d.ofMessages && (d.target.getD "").toList.isPrefixOf m.target.toList &&
    d.fields.all fun field => m.fields.contains field.name

/-- The threshold for a message. -/
def Filter.threshold (f : Filter) (m : Message) : Threshold :=
  match f.directives.filter (·.fits m) with
  | [] => .off
  | d :: rest => (rest.foldl Directive.closer d).threshold

/-- Whether a message is shown. -/
def Filter.allows (f : Filter) (m : Message) : Bool :=
  (f.threshold m).allows m.level

/-! ## 5. Choosing -/

/-- Shows warnings and what is more important. -/
def Filter.default : Filter := .everywhere (.upTo .warn)

/-- The filter for a run: all but traces if the run is verbose, else the filter that was set, if it
can be read. -/
def Filter.choose (verbose : Bool) (setting : Option String) : Filter :=
  if verbose then .everywhere (.upTo .debug)
  else ((setting.bind Filter.ofText?).getD .default)

end FatJar.Log
