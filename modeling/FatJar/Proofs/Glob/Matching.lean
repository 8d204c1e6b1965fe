/-
FatJar.Proofs.Glob.Matching — what a pattern matches.

A pattern matches a name if the name can be cut into one piece for each token, in
their order, so that every token stands for its piece (`Matches`). Matching computes
the answers for all ends of the name at once, and the row of a token in front of
others is right whenever theirs is (`Answers`). So a pattern matches as it reads,
however many wildcards there are in it (`Pattern.matches_iff`), and one with a single
`*` among plain characters asks for a start and an end (`matches_star_iff`).

Contents:
1. what tokens stand for;
2. rows of answers;
3. the row of each token;
4. patterns;
5. one wildcard among plain characters.
-/
import FatJar.Glob.Match

namespace FatJar.Glob

variable {t : Token} {tokens : List Token} {text : List Char} {row : List Bool}
  {P Q : List Char → Prop}

/-! ## 1. What tokens stand for -/

/-- The token can stand for the piece when `rest` is left behind it. -/
def Token.Covers : Token → (piece rest : List Char) → Prop
  | .anySequence, _, _ => True
  | .anyDirectories, piece, rest => piece = [] ∨ piece.getLast? = some '/' ∨ rest = []
  | t, piece, _ => ∃ c, piece = [c] ∧ t.accepts c = true

/-- The text is made of one piece for each of the tokens. -/
inductive Matches : List Token → List Char → Prop
  | nil : Matches [] []
  | cons {t : Token} {tokens : List Token} {piece rest : List Char} (hpiece : t.Covers piece rest)
      (hrest : Matches tokens rest) : Matches (t :: tokens) (piece ++ rest)

theorem matches_nil_iff : Matches [] text ↔ text = [] := by
  constructor
  · intro h
    cases h
    rfl
  · rintro rfl
    exact .nil

theorem matches_cons_iff :
    Matches (t :: tokens) text ↔
      ∃ piece rest, text = piece ++ rest ∧ t.Covers piece rest ∧ Matches tokens rest := by
  constructor
  · intro h
    cases h with
    | cons hpiece hrest => exact ⟨_, _, rfl, hpiece, hrest⟩
  · rintro ⟨piece, rest, rfl, hpiece, hrest⟩
    exact .cons hpiece hrest

/-! ## 2. Rows of answers -/

/-- The row answers, for each end of the text from the longest on, whether it has the property. -/
inductive Answers (P : List Char → Prop) : List Char → List Bool → Prop
  | last {b : Bool} (hb : b = true ↔ P []) : Answers P [] [b]
  | cons {c : Char} {rest : List Char} {b : Bool} {later : List Bool}
      (hb : b = true ↔ P (c :: rest)) (hlater : Answers P rest later) :
      Answers P (c :: rest) (b :: later)

theorem Answers.first_iff (h : Answers P text row) : first row = true ↔ P text := by
  cases h with
  | last hb => exact hb
  | cons hb _ => exact hb

theorem Answers.congr (h : Answers P text row) (hsame : ∀ s, P s ↔ Q s) : Answers Q text row := by
  induction h with
  | last hb => exact .last (hb.trans (hsame _))
  | cons hb _ ih => exact .cons (hb.trans (hsame _)) ih

/-! ## 3. The row of each token -/

theorem answers_emptyRow (text : List Char) : Answers (· = []) text (emptyRow text) := by
  induction text with
  | nil => exact .last (by simp)
  | cons c rest ih => exact .cons (by simp) ih

theorem Answers.charRow (h : Answers P text row) (t : Token) :
    Answers (fun s => ∃ c rest, s = c :: rest ∧ t.accepts c = true ∧ P rest) text
      (charRow t text row) := by
  induction h with
  | last hb => exact .last (by simp)
  | cons hb hlater ih => exact .cons (by simp [hlater.first_iff, and_assoc]) ih

theorem Answers.sequenceRow (h : Answers P text row) :
    Answers (fun s => ∃ piece rest, s = piece ++ rest ∧ P rest) text (sequenceRow row) := by
  induction h with
  | last hb => exact .last (by simp [Glob.sequenceRow, first, hb, and_assoc])
  | @cons c rest b later hb hlater ih =>
    refine .cons ?_ ih
    rw [Bool.or_eq_true, hb, ih.first_iff]
    constructor
    · rintro (hhere | ⟨piece, after, rfl, hafter⟩)
      · exact ⟨[], c :: rest, rfl, hhere⟩
      · exact ⟨c :: piece, after, rfl, hafter⟩
    · rintro ⟨piece, after, hsplit, hafter⟩
      cases piece with
      | nil => exact .inl (hsplit ▸ hafter)
      | cons d piece => exact .inr ⟨piece, after, (List.cons.inj hsplit).2, hafter⟩

/-- The ends that are looked at start after a slash, except for the empty one. -/
theorem Answers.laterComponent_iff (h : Answers P text row) :
    laterComponent text row = true ↔ ∃ piece rest, text = piece ++ rest ∧ piece ≠ [] ∧
      (piece.getLast? = some '/' ∨ rest = []) ∧ P rest := by
  induction h with
  | last hb => simp [laterComponent]
  | @cons c rest b later hb hlater ih =>
    rw [laterComponent, Bool.or_eq_true, Bool.and_eq_true, hlater.first_iff, ih]
    constructor
    · rintro (⟨hend, hafter⟩ | ⟨piece, after, rfl, hne, hend, hafter⟩)
      · exact ⟨[c], rest, rfl, nofun, by simpa using hend, hafter⟩
      · refine ⟨c :: piece, after, rfl, nofun, ?_, hafter⟩
        rwa [List.getLast?_cons_of_ne_nil hne]
    · rintro ⟨piece, after, hsplit, hne, hend, hafter⟩
      cases piece with
      | nil => exact absurd rfl hne
      | cons d piece =>
        obtain ⟨rfl, rfl⟩ := List.cons.inj hsplit
        cases piece with
        | nil => exact .inl ⟨by simpa using hend, hafter⟩
        | cons d piece => exact .inr ⟨d :: piece, after, rfl, nofun, hend, hafter⟩

theorem Answers.directoriesRow (h : Answers P text row) :
    Answers (fun s => ∃ piece rest, s = piece ++ rest ∧ Token.Covers .anyDirectories piece rest ∧
      P rest) text (directoriesRow text row) := by
  induction h with
  | last hb => exact .last (by simp [hb, and_assoc, Token.Covers])
  | @cons c rest b later hb hlater ih =>
    refine .cons ?_ ih
    rw [Bool.or_eq_true, hb, (Answers.cons hb hlater).laterComponent_iff]
    constructor
    · rintro (hhere | ⟨piece, after, hsplit, -, hend, hafter⟩)
      · exact ⟨[], c :: rest, rfl, .inl rfl, hhere⟩
      · exact ⟨piece, after, hsplit, .inr hend, hafter⟩
    · rintro ⟨piece, after, hsplit, hpiece, hafter⟩
      by_cases hne : piece = []
      · subst hne
        exact .inl (hsplit ▸ hafter)
      · exact .inr ⟨piece, after, hsplit, hne, hpiece.resolve_left hne, hafter⟩

/-! ## 4. Patterns -/

/-- A token that stands for one character takes the first one. -/
theorem exists_accepts_iff (hcovers : ∀ piece rest, t.Covers piece rest ↔
      ∃ c, piece = [c] ∧ t.accepts c = true) (text : List Char) :
    (∃ c rest, text = c :: rest ∧ t.accepts c = true ∧ Matches tokens rest) ↔
      Matches (t :: tokens) text := by
  rw [matches_cons_iff]
  constructor
  · rintro ⟨c, rest, rfl, hc, hrest⟩
    exact ⟨[c], rest, rfl, (hcovers _ _).mpr ⟨c, rfl, hc⟩, hrest⟩
  · rintro ⟨piece, rest, rfl, hpiece, hrest⟩
    obtain ⟨c, rfl, hc⟩ := (hcovers _ _).mp hpiece
    exact ⟨c, rest, rfl, hc, hrest⟩

/-- The row of a pattern is right for every end of the text. -/
theorem answers_matchRow (tokens : List Token) (text : List Char) :
    Answers (Matches tokens) text (matchRow text tokens) := by
  induction tokens with
  | nil => exact (answers_emptyRow text).congr fun _ => matches_nil_iff.symm
  | cons t tokens ih =>
    cases t with
    | anySequence => exact ih.sequenceRow.congr fun s => by simp [matches_cons_iff, Token.Covers]
    | anyDirectories => exact ih.directoriesRow.congr fun _ => matches_cons_iff.symm
    | literal | anyChar | charSet =>
      exact (ih.charRow _).congr (exists_accepts_iff fun _ _ => Iff.rfl)

/-- A pattern matches the names that are made of one piece for each of its tokens. -/
theorem Pattern.matches_iff (p : Pattern) (name : String) :
    p.matches name = true ↔ Matches p.tokens name.toList :=
  (answers_matchRow p.tokens name.toList).first_iff

/-! ## 5. One wildcard among plain characters -/

theorem matches_literals_append (start : List Char) :
    Matches (start.map .literal ++ tokens) text ↔
      ∃ rest, text = start ++ rest ∧ Matches tokens rest := by
  induction start generalizing text with
  | nil => simp
  | cons c start ih =>
    rw [List.map_cons, List.cons_append, ← exists_accepts_iff fun _ _ => Iff.rfl]
    simp only [Token.accepts, beq_iff_eq, ih]
    constructor
    · rintro ⟨d, rest, rfl, rfl, after, rfl, hafter⟩
      exact ⟨after, rfl, hafter⟩
    · rintro ⟨after, rfl, hafter⟩
      exact ⟨c, start ++ after, rfl, rfl, after, rfl, hafter⟩

/-- A pattern with one `*` asks for a start and an end, with anything between them. -/
theorem matches_star_iff (start ending : List Char) :
    Matches (start.map .literal ++ .anySequence :: ending.map .literal) text ↔
      ∃ middle, text = start ++ middle ++ ending := by
  have hending : ∀ rest, Matches (ending.map .literal) rest ↔ rest = ending := fun rest => by
    rw [← List.append_nil (ending.map _), matches_literals_append]
    simp [matches_nil_iff]
  rw [matches_literals_append]
  constructor
  · rintro ⟨rest, rfl, hrest⟩
    obtain ⟨middle, after, rfl, -, hafter⟩ := matches_cons_iff.mp hrest
    rw [(hending after).mp hafter]
    exact ⟨middle, (List.append_assoc ..).symm⟩
  · rintro ⟨middle, rfl⟩
    exact ⟨middle ++ ending, List.append_assoc .., .cons trivial ((hending ending).mpr rfl)⟩

end FatJar.Glob
