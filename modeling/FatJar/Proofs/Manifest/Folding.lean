/-
FatJar.Proofs.Manifest.Folding — reading folded lines.

A logical line can be cut anywhere after its first byte, each cut followed by a
line end and a space, and every line end can be LF or CRLF. `ofBytes_folded`
says that the reader undoes all of this: what it makes of the bytes depends on
the logical lines and on the numbers of the physical lines at which they start.

A line that ends in a bare LF must not have a carriage return before it, since
that would be taken as part of the end. Before a CRLF it may have any number of
them. This is the only condition on the bytes of a line besides that they hold
no line feed.

Contents:
1. physical lines and folded lines;
2. physical lines are read back one by one (`sectionLines_fileLines`);
3. folded lines are joined again (`joinLines_folded`);
4. `ofBytes_folded`.
-/
import FatJar.Manifest.Reader
import FatJar.Proofs.Text.Split

namespace FatJar.Manifest

/-! ## 1. Physical lines and folded lines -/

/-- How a physical line ends. -/
inductive LineEnding where
  | lf
  | crlf
  deriving DecidableEq, Repr

/-- The bytes that end a line. -/
def LineEnding.bytes : LineEnding → Bytes
  | .lf => [0x0a]
  | .crlf => [0x0d, 0x0a]

/-- A physical line: what it holds and how it ends. -/
structure FileLine where
  text : Bytes
  ending : LineEnding
  deriving DecidableEq, Repr

namespace FileLine

/-- The line as it stands in a file. -/
def bytes (l : FileLine) : Bytes :=
  l.text ++ l.ending.bytes

/-- The line after the space that makes it a continuation. -/
def continued (l : FileLine) : FileLine :=
  { l with text := 0x20 :: l.text }

/-- The end of the line can be told from what it holds. -/
structure IsClean (l : FileLine) : Prop where
  noLineFeed : (0x0a : UInt8) ∉ l.text
  noReturn : l.ending = .lf → l.text.getLast? ≠ some 0x0d

end FileLine

/-- A logical line in pieces: its first physical line, and what the continuations hold after their
space. -/
structure FoldedLine where
  first : FileLine
  more : List FileLine
  deriving DecidableEq, Repr

namespace FoldedLine

/-- The physical lines. -/
def fileLines (f : FoldedLine) : List FileLine :=
  f.first :: f.more.map FileLine.continued

/-- The logical line. -/
def logical (f : FoldedLine) : Bytes :=
  f.first.text ++ f.more.flatMap (·.text)

/-- The first physical line is neither the end of a section nor a continuation, and every line
end can be told. -/
structure IsClean (f : FoldedLine) : Prop where
  first_ne_nil : f.first.text ≠ []
  first_ne_space : f.first.text.head? ≠ some 0x20
  clean : ∀ l ∈ f.fileLines, l.IsClean

/-- Only a first line that is empty makes an empty line. -/
theorem IsClean.text_ne_nil {f : FoldedLine} (h : f.IsClean) :
    ∀ l ∈ f.fileLines, l.text ≠ [] := by
  intro l hl
  rcases List.mem_cons.mp hl with rfl | hl
  · exact h.first_ne_nil
  · obtain ⟨piece, -, rfl⟩ := List.mem_map.mp hl
    exact List.cons_ne_nil _ _

end FoldedLine

/-- A section of folded lines, the line end that makes the empty line after it, and the rest. -/
def sectionBytes (folded : List FoldedLine) (blank : LineEnding) (rest : Bytes) : Bytes :=
  (folded.flatMap FoldedLine.fileLines).flatMap FileLine.bytes ++ (blank.bytes ++ rest)

/-- The logical lines with the numbers at which they start, the first at `n`. -/
def numberFolded (n : Nat) : List FoldedLine → List NumberedLine
  | [] => []
  | f :: rest => ⟨n, f.logical⟩ :: numberFolded (n + f.fileLines.length) rest

/-! ## 2. Physical lines -/

/-- A carriage return at the end is dropped. -/
theorem stripReturn_append_return (line : Bytes) : stripReturn (line ++ [0x0d]) = line := by
  induction line with
  | nil => rfl
  | cons b rest ih =>
    cases rest with
    | nil => rfl
    | cons c rest =>
      rw [List.cons_append, List.cons_append, stripReturn, ← List.cons_append, ih]
      exact fun h => by cases h

/-- A line that does not end in a carriage return stays as it is. -/
theorem stripReturn_of_getLast? {line : Bytes} (h : line.getLast? ≠ some 0x0d) :
    stripReturn line = line := by
  induction line with
  | nil => rfl
  | cons b rest ih =>
    cases rest with
    | nil =>
      have hb : (b == 0x0d) = false := by simpa using h
      rw [stripReturn, hb]
      rfl
    | cons c rest =>
      rw [stripReturn, ih (by simpa using h)]
      exact fun h => by cases h

/-- The lines that the reader sees in some bytes. -/
def seenLines (bytes : Bytes) : List Bytes :=
  (Text.splitWhere (· == 0x0a) bytes).map stripReturn

/-- A physical line is the first that the reader sees. -/
theorem seenLines_append {l : FileLine} (h : l.IsClean) (rest : Bytes) :
    seenLines (l.bytes ++ rest) = l.text :: seenLines rest := by
  have htext : ∀ b ∈ l.text, (b == 0x0a) = false := by
    intro b hb
    have hne : b ≠ 0x0a := fun heq => h.noLineFeed (heq ▸ hb)
    simpa using hne
  cases hend : l.ending with
  | lf =>
    have hbytes : l.bytes ++ rest = l.text ++ 0x0a :: rest := by
      simp [FileLine.bytes, hend, LineEnding.bytes]
    rw [seenLines, hbytes, Text.splitWhere_append_cons htext rfl, List.map_cons,
      stripReturn_of_getLast? (h.noReturn hend)]
    rfl
  | crlf =>
    have hbytes : l.bytes ++ rest = (l.text ++ [0x0d]) ++ 0x0a :: rest := by
      simp [FileLine.bytes, hend, LineEnding.bytes]
    have htext' : ∀ b ∈ l.text ++ [0x0d], (b == 0x0a) = false := by
      intro b hb
      rcases List.mem_append.mp hb with hb | hb
      · exact htext b hb
      · rw [List.mem_singleton.mp hb]
        rfl
    rw [seenLines, hbytes, Text.splitWhere_append_cons htext' rfl, List.map_cons,
      stripReturn_append_return]
    rfl

/-- The section that the reader sees is the lines up to the empty one. -/
theorem sectionLines_fileLines {lines : List FileLine} (blank : LineEnding) (rest : Bytes)
    (hclean : ∀ l ∈ lines, l.IsClean) (hne : ∀ l ∈ lines, l.text ≠ []) :
    sectionLines (lines.flatMap FileLine.bytes ++ (blank.bytes ++ rest)) =
      number 1 (lines.map (·.text)) := by
  have hseen : (seenLines (lines.flatMap FileLine.bytes ++ (blank.bytes ++ rest))).takeWhile
      (fun line => !line.isEmpty) = lines.map (·.text) := by
    induction lines with
    | nil =>
      -- the empty line is a physical line too, and the first that is not taken
      have hblank : FileLine.IsClean ⟨[], blank⟩ := ⟨List.not_mem_nil, by simp⟩
      rw [List.flatMap_nil, List.nil_append]
      exact congrArg _ (seenLines_append hblank rest)
    | cons l others ih =>
      have hl : l.text.isEmpty = false := by
        rw [List.isEmpty_eq_false_iff]
        exact hne l List.mem_cons_self
      rw [List.flatMap_cons, List.append_assoc, seenLines_append (hclean l List.mem_cons_self),
        List.takeWhile_cons, hl,
        ih (fun l hl => hclean l (List.mem_cons_of_mem _ hl))
          (fun l hl => hne l (List.mem_cons_of_mem _ hl))]
      rfl
  rw [sectionLines]
  exact congrArg (number 1) hseen

/-! ## 3. Logical lines -/

theorem number_append (n : Nat) (xs ys : List Bytes) :
    number n (xs ++ ys) = number n xs ++ number (n + xs.length) ys := by
  induction xs generalizing n with
  | nil => rfl
  | cons x rest ih =>
    rw [List.cons_append, number, number, ih, List.cons_append, List.length_cons,
      Nat.add_right_comm n 1, Nat.add_assoc n]

/-- Continuations wait, without their spaces, for the line that they continue. -/
theorem joinLines_continued (n : Nat) (pieces : List FileLine) (after : List NumberedLine)
    (hafter : (joinLines after).1 = []) :
    joinLines (number n ((pieces.map FileLine.continued).map (·.text)) ++ after) =
      (pieces.flatMap (·.text), (joinLines after).2) := by
  induction pieces generalizing n with
  | nil =>
    rw [List.flatMap_nil, ← hafter]
    rfl
  | cons piece rest ih =>
    have hcont : NumberedLine.isContinuation ⟨n, 0x20 :: piece.text⟩ = true := rfl
    simp only [List.map_cons, number, List.cons_append, joinLines, FileLine.continued]
    rw [ih (n + 1)]
    simp only [hcont, if_true, List.tail_cons, List.flatMap_cons]

/-- Folded lines are joined again. -/
theorem joinLines_folded (n : Nat) (folded : List FoldedLine) (h : ∀ f ∈ folded, f.IsClean) :
    joinLines (number n ((folded.flatMap FoldedLine.fileLines).map (·.text))) =
      ([], numberFolded n folded) := by
  induction folded generalizing n with
  | nil => rfl
  | cons f rest ih =>
    have hf : f.IsClean := h f List.mem_cons_self
    have hrest := ih (n + f.fileLines.length) fun g hg => h g (List.mem_cons_of_mem f hg)
    have hfirst : NumberedLine.isContinuation ⟨n, f.first.text⟩ = false := by
      simpa [NumberedLine.isContinuation] using hf.first_ne_space
    have hlen : n + 1 + ((f.more.map FileLine.continued).map (·.text)).length =
        n + f.fileLines.length := by
      simp only [List.length_map, FoldedLine.fileLines, List.length_cons]
      omega
    rw [List.flatMap_cons, List.map_append, FoldedLine.fileLines, List.map_cons,
      List.cons_append, number, number_append, hlen, joinLines,
      joinLines_continued _ _ _ (by rw [hrest])]
    simp only [hfirst, hrest, Bool.false_eq_true, if_false]
    rfl

/-- The logical lines of folded lines. -/
theorem logicalLines_folded (folded : List FoldedLine) (h : ∀ f ∈ folded, f.IsClean) :
    logicalLines (number 1 ((folded.flatMap FoldedLine.fileLines).map (·.text))) =
      .ok (numberFolded 1 folded) := by
  rw [logicalLines, joinLines_folded 1 folded h]
  cases folded with
  | nil => rfl
  | cons f rest =>
    have hfirst : NumberedLine.isContinuation ⟨1, f.first.text⟩ = false := by
      simpa [NumberedLine.isContinuation] using (h f List.mem_cons_self).first_ne_space
    simp only [List.flatMap_cons, FoldedLine.fileLines, List.cons_append, List.map_cons, number,
      List.head?_cons, hfirst, Bool.false_eq_true, if_false]

/-! ## 4. Manifests -/

/-- **Reading undoes folding.** The manifest in folded lines is made of the attributes of the
logical lines, whatever the line ends and whatever follows the empty line. -/
theorem ofBytes_folded (folded : List FoldedLine) (blank : LineEnding) (rest : Bytes)
    (h : ∀ f ∈ folded, f.IsClean) :
    ofBytes (sectionBytes folded blank rest) =
      (attributesOf (numberFolded 1 folded)).map Manifest.mk := by
  have hclean : ∀ l ∈ folded.flatMap FoldedLine.fileLines, l.IsClean := by
    intro l hl
    obtain ⟨f, hf, hl⟩ := List.mem_flatMap.mp hl
    exact (h f hf).clean l hl
  have hne : ∀ l ∈ folded.flatMap FoldedLine.fileLines, l.text ≠ [] := by
    intro l hl
    obtain ⟨f, hf, hl⟩ := List.mem_flatMap.mp hl
    exact (h f hf).text_ne_nil l hl
  rw [ofBytes, sectionBytes, sectionLines_fileLines blank rest hclean hne,
    logicalLines_folded folded h]
  cases hattr : attributesOf (numberFolded 1 folded) with
  | error e => simp [hattr, bind, Except.bind, Except.map]
  | ok attributes => simp [hattr, bind, Except.bind, Except.map, pure, Except.pure]

end FatJar.Manifest
