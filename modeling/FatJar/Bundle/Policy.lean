/-
FatJar.Bundle.Policy — what happens when two inputs bring a file of one name.
-/
import FatJar.Text.Case

namespace FatJar

/-- What happens when two inputs bring a file of one name. -/
inductive DuplicatePolicy where
  | firstWins
  | lastWins
  | error
  deriving DecidableEq, Repr

namespace DuplicatePolicy

/-- The policy that holds where none is chosen. -/
def default : DuplicatePolicy := .firstWins

/-- The name of a policy. -/
def name : DuplicatePolicy → String
  | .firstWins => "first-wins"
  | .lastWins => "last-wins"
  | .error => "error"

/-- Policy names are compared in small letters, with a hyphen for an underscore. -/
def normalize (text : String) : String :=
  String.ofList ((Text.lowercase text).toList.map fun c => if c == '_' then '-' else c)

/-- A text, as normalized, that names no policy. -/
structure Unknown where
  text : String
  deriving DecidableEq, Repr

/-- The wording for an unknown policy. -/
def Unknown.message (u : Unknown) : String :=
  "unknown duplicate policy '" ++ u.text ++ "' (expected first-wins, last-wins or error)"

/-- The policy that a text names. -/
def ofText (text : String) : Except Unknown DuplicatePolicy :=
  let key := normalize text
  if ["first-wins", "first", "exclude"].contains key then .ok .firstWins
  else if ["last-wins", "last"].contains key then .ok .lastWins
  else if ["error", "fail"].contains key then .ok .error
  else .error ⟨key⟩

end DuplicatePolicy

end FatJar
