/-
FatJar.Text.Case — comparison that ignores the case of ASCII letters.

Attribute names and the two manifest entry names are compared this way;
letters outside ASCII stay distinct.
-/

namespace FatJar.Text

/-- The text with the ASCII capitals replaced by small letters. -/
def lowercase (s : String) : String :=
  String.ofList (s.toList.map Char.toLower)

/-- Equality up to the case of ASCII letters. -/
def sameIgnoringCase (s t : String) : Bool :=
  lowercase s == lowercase t

end FatJar.Text
