/-
FatJar.Glob.Pattern — wildcard patterns over entry names.

A pattern is read once into tokens. `?` stands for one character, `*` for any
sequence, both across slashes; `[...]` and `[!...]` for one character in or
outside a set; `**`, as a whole component, for any directories. Positions in
faults count characters.

Contents:
1. tokens, patterns and faults;
2. character sets;
3. reading a pattern.
-/
import FatJar.Text.Split

namespace FatJar.Glob

/-! ## 1. Tokens, patterns and faults -/

/-- One element of a pattern. -/
inductive Token where
  /-- The character itself. -/
  | literal (c : Char)
  /-- Any one character. -/
  | anyChar
  /-- Any sequence of characters. -/
  | anySequence
  /-- Nothing, any text that ends in a slash, or all the text that is left. -/
  | anyDirectories
  /-- A character in one of the ranges, or in none of them if the set is negated. -/
  | charSet (negated : Bool) (ranges : List (Char × Char))
  deriving DecidableEq, Repr

/-- A pattern that has been read. -/
structure Pattern where
  tokens : List Token
  deriving DecidableEq, Repr

/-- What can be wrong with a pattern. -/
inductive Fault where
  | tooManyStars
  | notWholeComponent
  | badSet
  deriving DecidableEq, Repr

/-- A fault and the position of the character near which it stands. -/
structure Error where
  position : Nat
  fault : Fault
  deriving DecidableEq, Repr

/-- The wording of a fault. -/
def Fault.reason : Fault → String
  | .tooManyStars => "wildcards are either regular `*` or recursive `**`"
  | .notWholeComponent => "recursive wildcards must form a single path component"
  | .badSet => "invalid range pattern"

/-- The wording of an error. -/
def Error.message (e : Error) : String :=
  "Pattern syntax error near position " ++ toString e.position ++ ": " ++ e.fault.reason

/-! ## 2. Character sets -/

/-- The ranges of a set: `a-c` is a range, any other character a range of its own. -/
def ranges : List Char → List (Char × Char)
  | low :: '-' :: high :: rest => (low, high) :: ranges rest
  | c :: rest => (c, c) :: ranges rest
  | [] => []

/-- The set after an opening bracket, the number of characters up to its closing bracket and
what follows that. A bracket that would close an empty set belongs to the set. -/
def charSet? : List Char → Option (Token × Nat × List Char)
  | '!' :: c :: rest =>
    (Text.cutAt? (· == ']') rest).map fun (inside, after) =>
      (.charSet true (ranges (c :: inside)), inside.length + 3, after)
  | '!' :: [] => none
  | c :: rest =>
    (Text.cutAt? (· == ']') rest).map fun (inside, after) =>
      (.charSet false (ranges (c :: inside)), inside.length + 2, after)
  | [] => none

/-- What follows the first separator is shorter than the whole. -/
theorem cutAt?_length {p : Char → Bool} {cs before after : List Char}
    (h : Text.cutAt? p cs = some (before, after)) : after.length < cs.length := by
  induction cs generalizing before with
  | nil => simp [Text.cutAt?] at h
  | cons c rest ih =>
    simp only [Text.cutAt?] at h
    split at h
    · cases h
      simp
    · cases hr : Text.cutAt? p rest with
      | none => simp [hr] at h
      | some parts =>
        rw [hr] at h
        simp only [Option.map_some, Option.some.injEq, Prod.mk.injEq] at h
        have shorter : after.length < rest.length := by
          apply ih
          rw [hr, ← h.2]
        simp only [List.length_cons]
        omega

/-- What follows a set is shorter than what follows its opening bracket. -/
theorem charSet?_length {cs after : List Char} {t : Token} {n : Nat}
    (h : charSet? cs = some (t, n, after)) : after.length < cs.length := by
  unfold charSet? at h
  split at h
  · simp only [Option.map_eq_some_iff] at h
    obtain ⟨parts, hp, he⟩ := h
    cases he
    have := cutAt?_length hp
    simp only [List.length_cons]
    omega
  · cases h
  · simp only [Option.map_eq_some_iff] at h
    obtain ⟨parts, hp, he⟩ := h
    cases he
    have := cutAt?_length hp
    simp only [List.length_cons]
    omega
  · cases h

/-! ## 3. Reading a pattern -/

/-- Reads the tokens from position `pos` on; `fresh` says that a component starts there. -/
def tokensFrom (pos : Nat) (fresh : Bool) (cs : List Char) : Except Error (List Token) :=
  match cs with
  | [] => .ok []
  | '?' :: rest => do return .anyChar :: (← tokensFrom (pos + 1) false rest)
  | '*' :: '*' :: '*' :: _ => .error ⟨pos + 2, .tooManyStars⟩
  | '*' :: '*' :: rest =>
    if !fresh then .error ⟨pos - 1, .notWholeComponent⟩
    else match rest with
      | [] => .ok [.anyDirectories]
      | '/' :: rest => do return .anyDirectories :: (← tokensFrom (pos + 3) true rest)
      | _ => .error ⟨pos + 2, .notWholeComponent⟩
  | '*' :: rest => do return .anySequence :: (← tokensFrom (pos + 1) false rest)
  | '[' :: rest =>
    match h : charSet? rest with
    | none => .error ⟨pos, .badSet⟩
    | some (token, width, after) =>
      have := charSet?_length h
      do return token :: (← tokensFrom (pos + 1 + width) false after)
  | c :: rest => do return .literal c :: (← tokensFrom (pos + 1) (c == '/') rest)
termination_by cs.length
decreasing_by all_goals simp_all <;> omega

/-- Reads a pattern. -/
def Pattern.compile (text : String) : Except Error Pattern := do
  return ⟨← tokensFrom 0 true text.toList⟩

end FatJar.Glob
