/-
FatJar.Proofs.Manifest.PhysicalLine — the physical lines of a written manifest.

Each attribute is a block of lines: one that starts with its name, a colon and a
space, and continuations that start with a space. A line has room for 72 bytes,
and a character takes four at the most, so a line that is continued has 69 bytes
or more (`Filled`). A name has 70 bytes at the most, so that it always stands on
the first line with its colon and space.

Contents:
1. the bytes of a line;
2. lines that are filled (`filled_wrapFrom`);
3. what the first line starts with, and what the lines hold;
4. blocks;
5. the lines of a manifest (`toBytes_physicalLines`).
-/
import FatJar.Proofs.Manifest.RoundTrip
import Mathlib.Algebra.Order.Ring.Nat
import Mathlib.Data.List.Forall2

namespace FatJar.Manifest

variable {used : Nat} {line : List Char} {wrapped : List (List Char)} {a : Attribute}

/-! ## 1. Bytes -/

/-- How many bytes the characters of a line take. -/
def width (line : List Char) : Nat :=
  (line.map Char.utf8Size).sum

@[simp]
theorem width_cons (c : Char) (line : List Char) : width (c :: line) = c.utf8Size + width line :=
  rfl

theorem width_append (line more : List Char) : width (line ++ more) = width line + width more := by
  rw [width, List.map_append, List.sum_append]
  rfl

/-- A physical line as bytes, without its end. -/
def textBytes (line : List Char) : Bytes :=
  Text.encode (String.ofList line)

theorem textBytes_toList (s : String) : textBytes s.toList = Text.encode s := by
  rw [textBytes, String.ofList_toList]

theorem textBytes_append (line more : List Char) :
    textBytes (line ++ more) = textBytes line ++ textBytes more := by
  rw [textBytes, String.ofList_append, Text.encode_append]
  rfl

theorem textBytes_space (piece : List Char) : textBytes (' ' :: piece) = 0x20 :: textBytes piece :=
  textBytes_append [' '] piece

theorem textBytes_flatten (pieces : List (List Char)) :
    textBytes pieces.flatten = pieces.flatMap textBytes := by
  induction pieces with
  | nil => rfl
  | cons piece rest ih => rw [List.flatten_cons, textBytes_append, ih, List.flatMap_cons]

theorem length_textBytes (line : List Char) : (textBytes line).length = width line := by
  rw [textBytes, Text.encode_ofList, List.length_flatMap]
  simp only [String.length_utf8EncodeChar]
  rfl

/-! ## 2. Filled lines -/

/-- Lines with `used` bytes already in the first: every one fits, one that is continued has no room
for four more bytes, and a continuation is a space and at least one character. -/
inductive Filled : Nat → List (List Char) → Prop
  | last {used : Nat} {line : List Char} (hfits : used + width line ≤ maxLineBytes) :
      Filled used [line]
  | continued {used : Nat} {line piece : List Char} {c : Char} {more : List (List Char)}
      (hfits : used + width line ≤ maxLineBytes) (hfull : maxLineBytes < used + width line + 4)
      (hmore : Filled 0 ((' ' :: c :: piece) :: more)) :
      Filled used (line :: (' ' :: c :: piece) :: more)

/-- A character that is put in front takes its bytes from those already used. -/
theorem Filled.extendFirst {c : Char} (h : Filled (used + c.utf8Size) wrapped) :
    Filled used (Text.extendFirst c wrapped) := by
  cases h with
  | last hfits =>
    rw [Nat.add_assoc] at hfits
    exact .last hfits
  | continued hfits hfull hmore =>
    rw [Nat.add_assoc] at hfits
    rw [Nat.add_assoc used] at hfull
    exact .continued hfits hfull hmore

/-- Wrapping fills its lines. -/
theorem filled_wrapFrom (cs : List Char) (hused : used ≤ maxLineBytes) :
    Filled used (wrapFrom used cs) := by
  induction cs generalizing used with
  | nil => exact .last hused
  | cons c rest ih =>
    have hc := c.utf8Size_le_four
    rw [wrapFrom]
    split
    · rename_i hfits
      exact (ih hfits).extendFirst
    · rename_i hfull
      -- the new line starts with the space and the character that did not fit
      have hnext : Filled (0 + ' '.utf8Size + c.utf8Size) (wrapFrom (1 + c.utf8Size) rest) :=
        ih (show 1 + c.utf8Size ≤ 72 by omega)
      have hspace := hnext.extendFirst.extendFirst
      obtain ⟨piece, more, hwrap, -⟩ := wrapFrom_eq (1 + c.utf8Size) rest
      rw [hwrap] at hspace ⊢
      exact .continued hused (by simp only [width, List.map_nil, List.sum_nil]; omega) hspace

/-- Every line fits. -/
theorem Filled.fits (h : Filled used wrapped) : ∀ line ∈ wrapped, width line ≤ maxLineBytes := by
  induction h with
  | last hfits =>
    intro line hline
    rw [List.mem_singleton.mp hline]
    omega
  | continued hfits _ _ ih =>
    intro line hline
    rcases List.mem_cons.mp hline with rfl | hline
    · omega
    · exact ih line hline

/-- Every line that is continued is full up to three bytes. -/
theorem Filled.full (h : Filled used wrapped) :
    ∀ line ∈ wrapped.dropLast, maxLineBytes < used + width line + 4 := by
  induction h with
  | last => exact nofun
  | continued _ hfull _ ih =>
    intro line hline
    rw [List.dropLast_cons_of_ne_nil (by simp)] at hline
    rcases List.mem_cons.mp hline with rfl | hline
    · exact hfull
    · have := ih line hline
      omega

/-- Every line but the first is a space and at least one character. -/
theorem Filled.continuation (h : Filled used wrapped) :
    ∀ line ∈ wrapped.tail, ∃ c piece, line = ' ' :: c :: piece := by
  induction h with
  | last => exact nofun
  | continued _ _ _ ih =>
    intro line hline
    rcases List.mem_cons.mp hline with rfl | hline
    · exact ⟨_, _, rfl⟩
    · exact ih line hline

/-! ## 3. What stands on the lines -/

/-- What fits on the first line stays together there. -/
theorem wrapFrom_append (xs ys : List Char) (hfits : used + width xs ≤ maxLineBytes) :
    ∃ rest more, wrapFrom used (xs ++ ys) = (xs ++ rest) :: more := by
  induction xs generalizing used with
  | nil =>
    obtain ⟨first, more, hwrap, -⟩ := wrapFrom_eq used ys
    exact ⟨first, _, hwrap⟩
  | cons c xs ih =>
    rw [width_cons, ← Nat.add_assoc] at hfits
    obtain ⟨rest, more, hwrap⟩ := ih hfits
    refine ⟨rest, more, ?_⟩
    rw [List.cons_append, wrapFrom, if_pos (by omega), hwrap]
    rfl

/-- The characters of the lines are those that are wrapped, and spaces. -/
theorem mem_of_mem_wrapFrom {cs : List Char} (hline : line ∈ wrapFrom used cs) {c : Char}
    (hc : c ∈ line) : c = ' ' ∨ c ∈ cs := by
  obtain ⟨first, more, hwrap, hcs⟩ := wrapFrom_eq used cs
  rw [hwrap] at hline
  rw [← hcs, List.mem_append, List.mem_flatten]
  rcases List.mem_cons.mp hline with rfl | hline
  · exact .inr (.inl hc)
  · obtain ⟨piece, hpiece, rfl⟩ := List.mem_map.mp hline
    rcases List.mem_cons.mp hc with rfl | hc
    · exact .inl rfl
    · exact .inr (.inr ⟨piece, hpiece, hc⟩)

/-- A character of a name takes one byte. -/
theorem utf8Size_of_isNameChar {c : Char} (h : isNameChar c = true) : c.utf8Size = 1 := by
  have hascii : c.toNat < 0x80 := by
    have hle (last : Char) (hlast : last.toNat < 0x80) (h : c.val ≤ last.val) : c.toNat < 0x80 :=
      Nat.lt_of_le_of_lt h hlast
    rw [isNameChar, Char.isAlphanum] at h
    simp only [Bool.or_eq_true, beq_iff_eq] at h
    rcases h with ((h | h) | rfl) | rfl
    · rcases Bool.or_eq_true_iff.mp h with h | h
      · exact hle 'Z' (by decide) (of_decide_eq_true h).2
      · exact hle 'z' (by decide) (of_decide_eq_true (Bool.and_eq_true_iff.mp h).2)
    · exact hle '9' (by decide) (of_decide_eq_true (Bool.and_eq_true_iff.mp h).2)
    · decide
    · decide
  rw [← String.length_utf8EncodeChar, Text.utf8EncodeChar_ascii hascii]
  rfl

/-- A name has no more bytes than a name may have characters. -/
theorem width_name {name : String} (h : isName name = true) :
    width name.toList ≤ maxNameLength := by
  simp only [isName, Bool.and_eq_true, decide_eq_true_eq] at h
  obtain ⟨⟨-, hlength⟩, hall⟩ := h
  have hwidth : name.toList.map Char.utf8Size = List.replicate name.toList.length 1 :=
    List.eq_replicate_iff.mpr ⟨List.length_map _, fun n hn => by
      obtain ⟨c, hc, rfl⟩ := List.mem_map.mp hn
      exact utf8Size_of_isNameChar (List.all_eq_true.mp hall c hc)⟩
  rw [width, hwidth, List.sum_replicate_nat, Nat.mul_one]
  exact hlength

/-! ## 4. Blocks -/

/-- The physical lines of one attribute, without their ends. -/
structure LineBlock where
  first : Bytes
  more : List Bytes
  deriving DecidableEq, Repr

/-- The lines of a block, one after the other. -/
def LineBlock.lines (b : LineBlock) : List Bytes :=
  b.first :: b.more

/-- The block writes the attribute: its first line starts with the whole name, a colon and a
space, and its other lines are a space and something more. A line that is followed by another one
of the block has 69 bytes or more, and without the spaces the lines are the logical line. -/
structure LineBlock.Writes (b : LineBlock) (a : Attribute) : Prop where
  header : Text.encode (a.name ++ ": ") <+: b.first
  continuation : ∀ line ∈ b.more, ∃ byte text, line = 0x20 :: byte :: text
  full : ∀ line ∈ b.lines.dropLast, 69 ≤ line.length
  joined : b.first ++ b.more.flatMap List.tail = Text.encode (logicalLine a)

/-- What stands before a line end: at most 72 bytes that are a text of their own and hold no part of
a line end. -/
structure IsPhysicalLine (line : Bytes) : Prop where
  length_le : line.length ≤ 72
  isText : ∃ text, Text.decode? line = some text
  noReturn : (0x0d : UInt8) ∉ line
  noLineFeed : (0x0a : UInt8) ∉ line

/-- The block of an attribute. -/
def lineBlock (a : Attribute) : LineBlock :=
  match physicalLines a with
  | [] => ⟨[], []⟩
  | first :: more => ⟨textBytes first, more.map textBytes⟩

theorem lines_lineBlock (a : Attribute) :
    (lineBlock a).lines = (physicalLines a).map textBytes := by
  obtain ⟨first, more, hwrap, -⟩ := wrapFrom_eq 0 (logicalLine a).toList
  rw [lineBlock, physicalLines, hwrap]
  rfl

/-- The first line has room for a valid name with its colon and space. -/
theorem header_fits (hname : isName a.name = true) :
    0 + width (a.name ++ ": ").toList ≤ maxLineBytes := by
  have hwidth := width_name hname
  have hcolon : width (": ").toList = 2 := by decide
  rw [String.toList_append, width_append, hcolon]
  simp only [maxNameLength] at hwidth
  simp only [maxLineBytes]
  omega

/-- The block of a valid name writes its attribute. -/
theorem writes_lineBlock (hname : isName a.name = true) : (lineBlock a).Writes a where
  header := by
    have hline : (logicalLine a).toList = (a.name ++ ": ").toList ++ a.value.toList :=
      String.toList_append
    obtain ⟨rest, more, hwrap⟩ := wrapFrom_append _ a.value.toList (header_fits hname)
    rw [lineBlock, physicalLines, hline, hwrap]
    exact ⟨textBytes rest, by rw [← textBytes_toList, ← textBytes_append]⟩
  continuation := by
    intro line hline
    have hmore : (lineBlock a).more = (physicalLines a).tail.map textBytes :=
      (congrArg List.tail (lines_lineBlock a)).trans List.map_tail.symm
    rw [hmore] at hline
    obtain ⟨chars, hchars, rfl⟩ := List.mem_map.mp hline
    obtain ⟨c, piece, rfl⟩ := (filled_wrapFrom _ (Nat.zero_le _)).continuation chars hchars
    cases hbytes : textBytes (c :: piece) with
    | nil => exact absurd hbytes Text.encode_ne_nil
    | cons byte text => exact ⟨byte, text, by rw [textBytes_space, hbytes]⟩
  full := by
    intro line hline
    rw [lines_lineBlock, ← List.map_dropLast] at hline
    obtain ⟨chars, hchars, rfl⟩ := List.mem_map.mp hline
    have hfull := (filled_wrapFrom _ (Nat.zero_le _)).full chars hchars
    rw [length_textBytes]
    simp only [maxLineBytes] at hfull
    omega
  joined := by
    obtain ⟨first, more, hwrap, hchars⟩ := wrapFrom_eq 0 (logicalLine a).toList
    rw [lineBlock, physicalLines, hwrap, ← textBytes_toList, ← hchars, textBytes_append,
      textBytes_flatten]
    simp only [List.map_map, List.flatMap_map, Function.comp_def, textBytes_space, List.tail_cons]

theorem not_mem_logicalLine {c : Char} (hname : isName a.name = true)
    (hvalue : isValue a.value = true) (hc : isForbidden c = true) :
    c ∉ (logicalLine a).toList := by
  have hforbidden : c = '\r' ∨ c = '\n' ∨ c = '\x00' := by
    simpa [isForbidden, or_assoc] using hc
  simp only [isName, Bool.and_eq_true] at hname
  intro hmem
  simp only [logicalLine, String.toList_append, List.mem_append] at hmem
  rcases hmem with (hmem | hmem) | hmem
  · have hchar := List.all_eq_true.mp hname.2 c hmem
    rcases hforbidden with rfl | rfl | rfl <;> exact absurd hchar (by decide)
  · rcases hforbidden with rfl | rfl | rfl <;> exact absurd hmem (by decide)
  · exact not_mem_of_isValue hvalue hc hmem

/-- No byte of a line is that of a forbidden character. -/
theorem not_mem_textBytes {b : UInt8} {c : Char} (hname : isName a.name = true)
    (hvalue : isValue a.value = true) (hb : b.toNat < 0x80) (hbc : c.toNat = b.toNat)
    (hc : isForbidden c = true) (hline : line ∈ physicalLines a) : b ∉ textBytes line := by
  rw [textBytes, Text.mem_encode_iff hb hbc, String.toList_ofList]
  intro hmem
  rcases mem_of_mem_wrapFrom hline hmem with rfl | hmem
  · exact absurd hc (by decide)
  · exact not_mem_logicalLine hname hvalue hc hmem

/-- The lines of an attribute whose name and value are valid. -/
theorem isPhysicalLine_of_mem {bytes : Bytes} (hname : isName a.name = true)
    (hvalue : isValue a.value = true) (h : bytes ∈ (lineBlock a).lines) :
    IsPhysicalLine bytes := by
  rw [lines_lineBlock] at h
  obtain ⟨line, hline, rfl⟩ := List.mem_map.mp h
  refine ⟨?_, ⟨String.ofList line, Text.decode?_encode _⟩, ?_, ?_⟩
  · rw [length_textBytes]
    exact (filled_wrapFrom _ (Nat.zero_le _)).fits line hline
  · exact not_mem_textBytes (c := '\r') hname hvalue (by decide) (by decide) (by decide) hline
  · exact not_mem_textBytes (c := '\n') hname hvalue (by decide) (by decide) (by decide) hline

theorem LineBlock.Writes.ne_nil {b : LineBlock} (h : b.Writes a) : [] ∉ b.lines := by
  intro hmem
  rcases List.mem_cons.mp hmem with hfirst | hmore
  · have hnil := List.prefix_nil.mp (hfirst ▸ h.header)
    rw [Text.encode_append] at hnil
    exact absurd (List.append_eq_nil_iff.mp hnil).2 (by decide)
  · obtain ⟨_, _, hcons⟩ := h.continuation [] hmore
    cases hcons

/-! ## 5. Manifests -/

/-- **The shape of a written manifest.** Whatever attributes have been set, each call refused or
not, the bytes are lines that end in CRLF, and the ends cannot be anywhere else. Every line is a
text of its own of 72 bytes at the most, and only the last one is empty. The others are one block
for each attribute, in their order. -/
theorem toBytes_physicalLines (settings : List Attribute) :
    ∃ blocks : List LineBlock,
      (ofSettings settings).toBytes =
        (blocks.flatMap LineBlock.lines ++ [[]]).flatMap (· ++ lineEnd) ∧
      (∀ line ∈ blocks.flatMap LineBlock.lines ++ [[]], IsPhysicalLine line) ∧
      [] ∉ blocks.flatMap LineBlock.lines ∧
      List.Forall₂ LineBlock.Writes blocks (ofSettings settings).attributes := by
  have hvalid := ofSettings_valid settings
  refine ⟨(ofSettings settings).attributes.map lineBlock, ?_, ?_, ?_, ?_⟩
  · simp only [toBytes, List.flatMap_append, List.flatMap_assoc, List.flatMap_map, lines_lineBlock]
    rfl
  · intro line hline
    rcases List.mem_append.mp hline with hline | hline
    · rw [List.flatMap_map] at hline
      obtain ⟨a, ha, hline⟩ := List.mem_flatMap.mp hline
      exact isPhysicalLine_of_mem (hvalid a ha).1 (hvalid a ha).2 hline
    · rw [List.mem_singleton.mp hline]
      exact ⟨Nat.zero_le _, ⟨"", rfl⟩, List.not_mem_nil, List.not_mem_nil⟩
  · intro hnil
    rw [List.flatMap_map] at hnil
    obtain ⟨a, ha, hline⟩ := List.mem_flatMap.mp hnil
    exact (writes_lineBlock (hvalid a ha).1).ne_nil hline
  · rw [List.forall₂_map_left_iff, List.forall₂_same]
    exact fun a ha => writes_lineBlock (hvalid a ha).1

end FatJar.Manifest
