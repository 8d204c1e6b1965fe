/-
FatJar.Proofs.Manifest.LogicalLine — what the reader makes of each logical line.

`ofBytes_folded` says that reading depends on the logical lines and the numbers
at which they start. Here the outcome is spelled out. `Reads` says which lines
are attributes and `Fails` what is wrong with the others, both in terms of text
that is written as bytes, without the reader: a line has no text at all, or a
text without a colon, or a text whose first colon follows something that is no
name.

A manifest is read exactly when all lines are attributes, and otherwise the first
line that is none decides (`ofBytes_of_logicalLines`). Lines may be cut anywhere,
also inside a character: no piece has to be a text, only the whole line.

Contents:
1. lines that are attributes, and lines that are not;
2. one line;
3. all the lines of a section;
4. folded sections.
-/
import FatJar.Proofs.Manifest.RoundTrip
import Mathlib.Data.List.Forall2

namespace FatJar.Manifest

open Outcome

/-! ## 1. Attributes and faults -/

/-- The line holds the attribute: its name, a colon, and its value after at most one space. -/
inductive Reads : Bytes → Attribute → Prop
  | spaced (name value : String) (hname : isName name = true) :
    Reads (Text.encode (name ++ ": " ++ value)) ⟨name, value⟩
  | bare (name value : String) (hname : isName name = true)
    (hvalue : value.toList.head? ≠ some ' ') :
    Reads (Text.encode (name ++ ":" ++ value)) ⟨name, value⟩

/-- What is wrong with a line that starts at physical line `n`. -/
inductive Fails (n : Nat) : Bytes → Error → Prop
  | encoding (line : Bytes) (h : ∀ text, Text.encode text ≠ line) : Fails n line .encoding
  | noColon (text : String) (h : ':' ∉ text.toList) :
    Fails n (Text.encode text) (.malformed n .noColon)
  | badName (name value : String) (hcolon : ':' ∉ name.toList) (hname : isName name = false) :
    Fails n (Text.encode (name ++ ":" ++ value)) (.malformed n (.badName name))

/-! ## 2. One line -/

/-- A text is cut at its first colon. -/
theorem cutAt?_colon {name : String} (value : String) (h : ':' ∉ name.toList) :
    Text.cutAt? (· == ':') (name ++ ":" ++ value).toList = some (name.toList, value.toList) := by
  rw [Text.cutAt?_eq_some_iff]
  refine ⟨?_, ':', rfl, by simp⟩
  intro c hc
  rw [beq_eq_false_iff_ne]
  rintro rfl
  exact h hc

theorem eq_of_cutAt?_colon {text : String} {before after : List Char}
    (h : Text.cutAt? (· == ':') text.toList = some (before, after)) :
    ':' ∉ before ∧ text = String.ofList before ++ ":" ++ String.ofList after := by
  obtain ⟨hbefore, a, ha, htext⟩ := Text.cutAt?_eq_some_iff.mp h
  have ha' : a = ':' := by simpa using ha
  subst ha'
  refine ⟨fun hmem => by simpa using hbefore ':' hmem, ?_⟩
  rw [← String.toList_inj, htext]
  simp

theorem stripSpace_cons (cs : List Char) : stripSpace (' ' :: cs) = cs := rfl

theorem stripSpace_of_head? {cs : List Char} (h : cs.head? ≠ some ' ') : stripSpace cs = cs := by
  unfold stripSpace
  split
  · simp at h
  · rfl

/-- A line with a text, a colon and a name before it. -/
theorem readAttribute_of_isName {n : Nat} {name value : String} (hname : isName name = true) :
    readAttribute ⟨n, Text.encode (name ++ ":" ++ value)⟩ =
      .ok ⟨name, String.ofList (stripSpace value.toList)⟩ := by
  have hcolon : ':' ∉ name.toList := fun hmem => by
    simpa using ne_colon_of_isName hname ':' hmem
  simp only [readAttribute, Text.decode?_encode, cutAt?_colon value hcolon, String.ofList_toList,
    hname, if_true]

theorem readAttribute_of_reads {n : Nat} {line : Bytes} {a : Attribute} (h : Reads line a) :
    readAttribute ⟨n, line⟩ = .ok a := by
  cases h with
  | spaced name value hname =>
    have hline : name ++ ": " ++ value = name ++ ":" ++ (" " ++ value) := by
      rw [← String.toList_inj]
      simp
    rw [hline, readAttribute_of_isName hname]
    simp [stripSpace_cons]
  | bare name value hname hvalue =>
    rw [readAttribute_of_isName hname, stripSpace_of_head? hvalue, String.ofList_toList]

theorem readAttribute_of_fails {n : Nat} {line : Bytes} {e : Error} (h : Fails n line e) :
    readAttribute ⟨n, line⟩ = .error e := by
  cases h with
  | encoding line h =>
    have hdecode : Text.decode? line = none := by
      rw [Option.eq_none_iff_forall_ne_some]
      intro text htext
      exact h text (Text.encode_of_decode? htext)
    simp [readAttribute, hdecode]
  | noColon text h =>
    have hcut : Text.cutAt? (· == ':') text.toList = none := by
      rw [Text.cutAt?_eq_none_iff]
      intro c hc
      rw [beq_eq_false_iff_ne]
      rintro rfl
      exact h hc
    simp [readAttribute, hcut]
  | badName name value hcolon hname =>
    simp only [readAttribute, Text.decode?_encode, cutAt?_colon value hcolon, String.ofList_toList,
      hname, Bool.false_eq_true, if_false]

/-- Every line holds an attribute or has a fault. -/
theorem reads_or_fails (n : Nat) (line : Bytes) :
    (∃ a, Reads line a) ∨ ∃ e, Fails n line e := by
  by_cases htext : ∃ text, Text.encode text = line
  · obtain ⟨text, rfl⟩ := htext
    cases hcut : Text.cutAt? (· == ':') text.toList with
    | none =>
      refine .inr ⟨_, .noColon text fun hmem => ?_⟩
      simpa using Text.cutAt?_eq_none_iff.mp hcut ':' hmem
    | some parts =>
      obtain ⟨before, after⟩ := parts
      obtain ⟨hcolon, rfl⟩ := eq_of_cutAt?_colon hcut
      cases hname : isName (String.ofList before) with
      | false => exact .inr ⟨_, .badName _ _ (by simpa using hcolon) hname⟩
      | true =>
        by_cases hspace : after.head? = some ' '
        · obtain ⟨rest, rfl⟩ : ∃ rest, after = ' ' :: rest := by
            cases after with
            | nil => cases hspace
            | cons c rest => exact ⟨rest, by simpa using hspace⟩
          have hline : String.ofList before ++ ":" ++ String.ofList (' ' :: rest) =
              String.ofList before ++ ": " ++ String.ofList rest := by
            rw [← String.toList_inj]
            simp
          rw [hline]
          exact .inl ⟨_, .spaced _ _ hname⟩
        · exact .inl ⟨_, .bare _ _ hname (by simpa using hspace)⟩
  · exact .inr ⟨_, .encoding line fun text heq => htext ⟨text, heq⟩⟩

theorem readAttribute_eq_ok_iff {line : NumberedLine} {a : Attribute} :
    readAttribute line = .ok a ↔ Reads line.text a := by
  refine ⟨fun h => ?_, readAttribute_of_reads⟩
  rcases reads_or_fails line.number line.text with ⟨a', ha'⟩ | ⟨e, he⟩
  · have heq := (readAttribute_of_reads (n := line.number) ha').symm.trans h
    cases heq
    exact ha'
  · have heq := (readAttribute_of_fails he).symm.trans h
    cases heq

theorem readAttribute_eq_error_iff {line : NumberedLine} {e : Error} :
    readAttribute line = .error e ↔ Fails line.number line.text e := by
  refine ⟨fun h => ?_, readAttribute_of_fails⟩
  rcases reads_or_fails line.number line.text with ⟨a, ha⟩ | ⟨e', he'⟩
  · have heq := (readAttribute_of_reads (n := line.number) ha).symm.trans h
    cases heq
  · have heq := (readAttribute_of_fails he').symm.trans h
    cases heq
    exact he'

/-! ## 3. All lines -/

theorem attributesOf_eq_ok_iff (n : Nat) (folded : List FoldedLine) {attributes : List Attribute} :
    attributesOf (numberFolded n folded) = .ok attributes ↔
      List.Forall₂ Reads (folded.map (·.logical)) attributes := by
  induction folded generalizing n attributes with
  | nil =>
    simp only [numberFolded, attributesOf, Except.ok.injEq, List.map_nil,
      List.forall₂_nil_left_iff]
    exact eq_comm
  | cons f rest ih =>
    simp only [numberFolded, attributesOf, bind_eq_ok, readAttribute_eq_ok_iff, ih, List.map_cons,
      List.forall₂_cons_left_iff]
    constructor
    · rintro ⟨a, ha, others, hothers, heq⟩
      cases heq
      exact ⟨a, others, ha, hothers, rfl⟩
    · rintro ⟨a, others, ha, hothers, rfl⟩
      exact ⟨a, ha, others, hothers, rfl⟩

/-- The first line that is no attribute decides, at the number where it starts. -/
theorem attributesOf_eq_error_iff (n : Nat) (folded : List FoldedLine) {e : Error} :
    attributesOf (numberFolded n folded) = .error e ↔
      ∃ front f others, folded = front ++ f :: others ∧
        (∀ g ∈ front, ∃ a, Reads g.logical a) ∧
        Fails (n + (front.flatMap FoldedLine.fileLines).length) f.logical e := by
  induction folded generalizing n with
  | nil => simp [numberFolded, attributesOf]
  | cons f rest ih =>
    rw [numberFolded, attributesOf]
    constructor
    · intro h
      cases hline : readAttribute ⟨n, f.logical⟩ with
      | error e' =>
        rw [hline] at h
        cases h
        exact ⟨[], f, rest, rfl, by simp, readAttribute_eq_error_iff.mp hline⟩
      | ok a =>
        have hrest : attributesOf (numberFolded (n + f.fileLines.length) rest) = .error e := by
          rw [hline] at h
          cases hothers : attributesOf (numberFolded (n + f.fileLines.length) rest) with
          | error e' =>
            rw [hothers] at h
            exact h
          | ok others =>
            rw [hothers] at h
            cases h
        obtain ⟨front, g, others, rfl, hfront, hfails⟩ := (ih _).mp hrest
        refine ⟨f :: front, g, others, rfl, ?_, ?_⟩
        · intro l hl
          rcases List.mem_cons.mp hl with rfl | hl
          · exact ⟨a, readAttribute_eq_ok_iff.mp hline⟩
          · exact hfront l hl
        · simpa [Nat.add_assoc] using hfails
    · rintro ⟨front, g, others, hfolded, hfront, hfails⟩
      cases front with
      | nil =>
        cases hfolded
        have hline : readAttribute ⟨n, f.logical⟩ = .error e := readAttribute_of_fails hfails
        rw [hline]
        rfl
      | cons first front =>
        cases hfolded
        obtain ⟨a, ha⟩ := hfront f List.mem_cons_self
        have hrest := (ih (n + f.fileLines.length)).mpr ⟨front, g, others, rfl,
          fun l hl => hfront l (List.mem_cons_of_mem f hl), by
            simpa [Nat.add_assoc] using hfails⟩
        rw [readAttribute_of_reads ha, hrest]
        rfl

theorem exists_forall₂_reads_iff (lines : List Bytes) :
    (∃ attributes, List.Forall₂ Reads lines attributes) ↔ ∀ line ∈ lines, ∃ a, Reads line a := by
  induction lines with
  | nil => simp
  | cons line rest ih =>
    simp only [List.forall₂_cons_left_iff, List.forall_mem_cons, ← ih]
    constructor
    · rintro ⟨_, a, others, ha, hothers, -⟩
      exact ⟨⟨a, ha⟩, others, hothers⟩
    · rintro ⟨⟨a, ha⟩, others, hothers⟩
      exact ⟨a :: others, a, others, ha, hothers, rfl⟩

/-! ## 4. Folded sections -/

/-- A logical line in pieces, of which the first is not empty. The line has neither carriage
returns nor line feeds, and it does not start with a space. -/
structure FoldedLine.IsPlain (f : FoldedLine) : Prop where
  first_ne_nil : f.first.text ≠ []
  noReturn : (0x0d : UInt8) ∉ f.logical
  noLineFeed : (0x0a : UInt8) ∉ f.logical
  noSpace : f.logical.head? ≠ some 0x20

namespace FoldedLine

theorem mem_logical_of_mem {f : FoldedLine} {l : FileLine} (hl : l ∈ f.fileLines) :
    ∀ b ∈ l.text, b = 0x20 ∨ b ∈ f.logical := by
  intro b hb
  rcases List.mem_cons.mp hl with rfl | hl
  · exact .inr (List.mem_append_left _ hb)
  · obtain ⟨piece, hpiece, rfl⟩ := List.mem_map.mp hl
    rcases List.mem_cons.mp hb with rfl | hb
    · exact .inl rfl
    · exact .inr (List.mem_append_right _ (List.mem_flatMap.mpr ⟨piece, hpiece, hb⟩))

theorem IsPlain.isClean {f : FoldedLine} (h : f.IsPlain) : f.IsClean where
  first_ne_nil := h.first_ne_nil
  first_ne_space := by
    have hspace := h.noSpace
    rw [logical, List.head?_append_of_ne_nil _ h.first_ne_nil] at hspace
    exact hspace
  clean := by
    intro l hl
    refine ⟨fun hmem => ?_, fun _ hlast => ?_⟩
    · rcases mem_logical_of_mem hl _ hmem with heq | hmem
      · exact absurd heq (by decide)
      · exact h.noLineFeed hmem
    · rcases mem_logical_of_mem hl _ (List.mem_of_getLast? hlast) with heq | hmem
      · exact absurd heq (by decide)
      · exact h.noReturn hmem

end FoldedLine

/-- **What a folded section is read as.** Take logical lines without carriage returns and line
feeds, cut each of them anywhere after its first byte, end every physical line as you like, and put
anything behind the empty line. The manifest has one attribute for each logical line, in their
order, if every line holds one. Otherwise reading fails with the fault of the first line that holds
none, at the number of the physical line where it starts. So nothing counts but the logical lines
and the numbers at which they start. -/
theorem ofBytes_of_logicalLines (folded : List FoldedLine) (blank : LineEnding) (rest : Bytes)
    (h : ∀ f ∈ folded, f.IsPlain) :
    (∀ m, ofBytes (sectionBytes folded blank rest) = .ok m ↔
      List.Forall₂ Reads (folded.map (·.logical)) m.attributes) ∧
    ((∃ m, ofBytes (sectionBytes folded blank rest) = .ok m) ↔
      ∀ f ∈ folded, ∃ a, Reads f.logical a) ∧
    (∀ e, ofBytes (sectionBytes folded blank rest) = .error e ↔
      ∃ front f others, folded = front ++ f :: others ∧
        (∀ g ∈ front, ∃ a, Reads g.logical a) ∧
        Fails (1 + (front.flatMap FoldedLine.fileLines).length) f.logical e) ∧
    (∀ other blank' rest', (∀ f ∈ other, f.IsPlain) →
      numberFolded 1 other = numberFolded 1 folded →
      ofBytes (sectionBytes other blank' rest') = ofBytes (sectionBytes folded blank rest)) := by
  have hread := fun folded blank rest (h : ∀ f ∈ folded, FoldedLine.IsPlain f) =>
    ofBytes_folded folded blank rest fun f hf => (h f hf).isClean
  have hok : ∀ m, ofBytes (sectionBytes folded blank rest) = .ok m ↔
      List.Forall₂ Reads (folded.map (·.logical)) m.attributes := by
    intro m
    rw [hread folded blank rest h, ← attributesOf_eq_ok_iff 1]
    cases m
    cases attributesOf (numberFolded 1 folded) <;> simp [Except.map]
  refine ⟨hok, ?_, ?_, ?_⟩
  · have hall := exists_forall₂_reads_iff (folded.map (·.logical))
    simp only [List.forall_mem_map] at hall
    rw [← hall]
    constructor
    · rintro ⟨m, hm⟩
      exact ⟨m.attributes, (hok m).mp hm⟩
    · rintro ⟨attributes, hattributes⟩
      exact ⟨⟨attributes⟩, (hok ⟨attributes⟩).mpr hattributes⟩
  · intro e
    rw [hread folded blank rest h, ← attributesOf_eq_error_iff]
    cases attributesOf (numberFolded 1 folded) <;> simp [Except.map]
  · intro other blank' rest' hother hnumbered
    rw [hread other blank' rest' hother, hread folded blank rest h, hnumbered]

/-- Three logical lines. The second has a character that is cut in two, with an empty piece in
between, and the third has no colon. -/
def cutLines : List FoldedLine :=
  [⟨⟨[0x41, 0x3a], .lf⟩, [⟨[0x20, 0x62], .crlf⟩]⟩,
   ⟨⟨[0x43, 0x3a, 0xc3], .crlf⟩, [⟨[], .lf⟩, ⟨[0xa9], .crlf⟩]⟩,
   ⟨⟨[0x64], .lf⟩, []⟩]

theorem isPlain_of_mem_cutLines : ∀ f ∈ cutLines, f.IsPlain := by
  intro f hf
  simp only [cutLines, List.mem_cons, List.not_mem_nil, or_false] at hf
  rcases hf with rfl | rfl | rfl <;>
    exact ⟨by decide, by decide, by decide, by decide⟩

/-- The whole of them is refused at the sixth physical line; the first two are read, whatever the
pieces. -/
theorem ofBytes_of_logicalLines_cut :
    (∀ f ∈ cutLines, f.IsPlain) ∧
    ofBytes (sectionBytes cutLines .crlf [0xff]) = .error (.malformed 6 .noColon) ∧
    ofBytes (sectionBytes (cutLines.take 2) .lf []) = .ok ⟨[⟨"A", "b"⟩, ⟨"C", "é"⟩]⟩ := by
  have hfirst : Reads [0x41, 0x3a, 0x20, 0x62] ⟨"A", "b"⟩ := .spaced "A" "b" (by decide)
  have hsecond : Reads [0x43, 0x3a, 0xc3, 0xa9] ⟨"C", "é"⟩ := .bare "C" "é" (by decide) (by decide)
  have hthird : Fails 6 [0x64] (.malformed 6 .noColon) := .noColon "d" (by decide)
  refine ⟨isPlain_of_mem_cutLines, ?_, ?_⟩
  · refine ((ofBytes_of_logicalLines cutLines .crlf [0xff] isPlain_of_mem_cutLines).2.2.1 _).mpr
      ⟨cutLines.take 2, ⟨⟨[0x64], .lf⟩, []⟩, [], rfl, ?_, hthird⟩
    simp only [cutLines, List.take_succ_cons, List.take_zero, List.forall_mem_cons]
    exact ⟨⟨_, hfirst⟩, ⟨_, hsecond⟩, by simp⟩
  · have hplain : ∀ f ∈ cutLines.take 2, f.IsPlain :=
      fun f hf => isPlain_of_mem_cutLines f (List.mem_of_mem_take hf)
    exact ((ofBytes_of_logicalLines _ .lf [] hplain).1 _).mpr (.cons hfirst (.cons hsecond .nil))

end FatJar.Manifest
