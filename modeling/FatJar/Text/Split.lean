/-
FatJar.Text.Split — cutting a list at its separators.

Manifest lines, entry names, file paths and filter directives are all lists of
pieces with a separator between them. A list without a separator is one piece,
so there is always a first piece, and the empty list is one empty piece.
-/

namespace FatJar.Text

variable {α : Type}

/-- Puts an element in front of the first piece. -/
def extendFirst (a : α) : List (List α) → List (List α)
  | [] => [[a]]
  | piece :: pieces => (a :: piece) :: pieces

/-- The pieces between the elements that are separators. -/
def splitWhere (isSeparator : α → Bool) : List α → List (List α)
  | [] => [[]]
  | a :: rest =>
    if isSeparator a then [] :: splitWhere isSeparator rest
    else extendFirst a (splitWhere isSeparator rest)

/-- The part before the first separator and the part after it, or none without one. -/
def cutAt? (isSeparator : α → Bool) : List α → Option (List α × List α)
  | [] => none
  | a :: rest =>
    if isSeparator a then some ([], rest)
    else (cutAt? isSeparator rest).map fun parts => (a :: parts.1, parts.2)

/-- There is always a first piece. -/
theorem splitWhere_ne_nil (p : α → Bool) (xs : List α) : splitWhere p xs ≠ [] := by
  induction xs with
  | nil => simp [splitWhere]
  | cons a rest ih =>
    by_cases h : p a
    · simp [splitWhere, h]
    · simp only [splitWhere, h, Bool.false_eq_true, if_false]
      cases splitWhere p rest <;> simp [extendFirst]

end FatJar.Text
