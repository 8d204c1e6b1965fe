/-
FatJar.Proofs.Manifest.RoundTrip — a written manifest is read back as it was.

`ofBytes_toBytes` holds for every manifest whose attribute names are valid and
whose values hold no line feed. Values may hold carriage returns and NULs, start
with spaces, be empty or of any length, and names may be repeated. Every
manifest that can be made is of this kind: setting an attribute checks more, and
what is read from bytes has been cut at the line feeds. So
`ofBytes_toBytes_of_reachable` has no condition on the attributes.

Contents:
1. wrapping is folding: `foldedLine a` are the physical lines of an attribute;
2. the attribute of a logical line;
3. sound manifests and how they arise;
4. the round trip.
-/
import FatJar.Manifest.Printer
import FatJar.Proofs.Manifest.Folding
import FatJar.Proofs.Manifest.Setting
import FatJar.Proofs.Outcome
import FatJar.Proofs.Text.Utf8
import Mathlib.Data.List.Basic

namespace FatJar.Manifest

open Outcome

/-! ## 1. Wrapping is folding -/

/-- Wrapped lines are the characters in pieces, with a space before every piece but the first. -/
theorem wrapFrom_eq (used : Nat) (cs : List Char) :
    ∃ (first : List Char) (more : List (List Char)),
      wrapFrom used cs = first :: more.map (' ' :: ·) ∧ first ++ more.flatten = cs := by
  induction cs generalizing used with
  | nil => exact ⟨[], [], rfl, rfl⟩
  | cons c rest ih =>
    rw [wrapFrom]
    split
    · obtain ⟨first, more, hwrap, hcs⟩ := ih (used + c.utf8Size)
      refine ⟨c :: first, more, ?_, ?_⟩
      · rw [hwrap]
        rfl
      · rw [List.cons_append, hcs]
    · obtain ⟨first, more, hwrap, hcs⟩ := ih (1 + c.utf8Size)
      refine ⟨[], (c :: first) :: more, ?_, ?_⟩
      · rw [hwrap]
        rfl
      · rw [List.nil_append, List.flatten_cons, List.cons_append, hcs]

/-- The first character stays on the first line. -/
theorem wrapFrom_zero_cons (c : Char) (cs : List Char) :
    ∃ (first : List Char) (more : List (List Char)),
      wrapFrom 0 (c :: cs) = (c :: first) :: more.map (' ' :: ·) ∧ first ++ more.flatten = cs := by
  have hfits : 0 + c.utf8Size ≤ maxLineBytes := by
    have := c.utf8Size_le_four
    simp only [maxLineBytes]
    omega
  obtain ⟨first, more, hwrap, hcs⟩ := wrapFrom_eq (0 + c.utf8Size) cs
  refine ⟨first, more, ?_, hcs⟩
  rw [wrapFrom, if_pos hfits, hwrap]
  rfl

/-- A piece of a wrapped line, as bytes. -/
def fragment (cs : List Char) : FileLine :=
  ⟨Text.encode (String.ofList cs), .crlf⟩

/-- The physical lines of an attribute as a folded line. -/
def foldedLine (a : Attribute) : FoldedLine :=
  match physicalLines a with
  | [] => ⟨fragment [], []⟩
  | first :: more => ⟨fragment first, more.map fun line => fragment line.tail⟩

/-- A continuation is written after a space. -/
theorem lineBytes_space (cs : List Char) :
    lineBytes (' ' :: cs) = (fragment cs).continued.bytes := by
  rw [lineBytes, Text.encode_ofList, List.flatMap_cons, ← Text.encode_ofList]
  rfl

/-- A piece without a line feed can be told from its line end. -/
theorem fragment_isClean {cs : List Char} (h : '\n' ∉ cs) : (fragment cs).IsClean where
  noLineFeed := by
    rw [fragment, Text.lineFeed_mem_encode, String.toList_ofList]
    exact h
  noReturn := fun hend => by cases hend

/-- So can a continuation. -/
theorem continued_isClean {cs : List Char} (h : '\n' ∉ cs) :
    (fragment cs).continued.IsClean where
  noLineFeed := by
    intro hmem
    rcases List.mem_cons.mp hmem with heq | hmem
    · exact absurd heq (by decide)
    · exact (fragment_isClean h).noLineFeed hmem
  noReturn := fun hend => by cases hend

/-- What a logical line of a sound attribute looks like: it starts with a character of the name
and holds no line feed. -/
theorem logicalLine_eq_cons {a : Attribute} (hname : isName a.name = true)
    (hvalue : '\n' ∉ a.value.toList) :
    ∃ c cs, (logicalLine a).toList = c :: cs ∧ c ≠ ' ' ∧ '\n' ∉ c :: cs := by
  simp only [isName, Bool.and_eq_true, Bool.not_eq_true', decide_eq_true_eq] at hname
  obtain ⟨⟨hne, -⟩, hall⟩ := hname
  rw [List.all_eq_true] at hall
  have hline : (logicalLine a).toList = a.name.toList ++ ':' :: ' ' :: a.value.toList := by
    simp [logicalLine]
  cases hchars : a.name.toList with
  | nil =>
    rw [hchars] at hne
    cases hne
  | cons c cs =>
    rw [hchars] at hall hline
    refine ⟨c, cs ++ ':' :: ' ' :: a.value.toList, hline, ?_, ?_⟩
    · rintro rfl
      exact absurd (hall ' ' List.mem_cons_self) (by decide)
    · intro hmem
      rw [← List.cons_append] at hmem
      rcases List.mem_append.mp hmem with hmem | hmem
      · exact absurd (hall '\n' hmem) (by decide)
      · simp only [List.mem_cons] at hmem
        rcases hmem with heq | heq | hmem
        · exact absurd heq (by decide)
        · exact absurd heq (by decide)
        · exact hvalue hmem

/-- The physical lines of a sound attribute: pieces of its logical line, the first of which starts
with no space. -/
theorem physicalLines_eq {a : Attribute} (hname : isName a.name = true)
    (hvalue : '\n' ∉ a.value.toList) :
    ∃ (c : Char) (first : List Char) (more : List (List Char)),
      physicalLines a = (c :: first) :: more.map (' ' :: ·) ∧
      c :: first ++ more.flatten = (logicalLine a).toList ∧ c ≠ ' ' ∧
      '\n' ∉ c :: first ∧ ∀ piece ∈ more, '\n' ∉ piece := by
  obtain ⟨c, cs, hline, hc, hfree⟩ := logicalLine_eq_cons hname hvalue
  obtain ⟨first, more, hwrap, hcs⟩ := wrapFrom_zero_cons c cs
  have hpieces : c :: first ++ more.flatten = (logicalLine a).toList := by
    rw [hline, List.cons_append, hcs]
  refine ⟨c, first, more, ?_, hpieces, hc, ?_, ?_⟩
  · rw [physicalLines, hline, hwrap]
  · intro hmem
    apply hfree
    rw [← hline, ← hpieces]
    exact List.mem_append_left _ hmem
  · intro piece hpiece hmem
    apply hfree
    rw [← hline, ← hpieces]
    exact List.mem_append_right _ (List.mem_flatten.mpr ⟨piece, hpiece, hmem⟩)

/-- The folded line of a sound attribute. -/
theorem foldedLine_spec {a : Attribute} (hname : isName a.name = true)
    (hvalue : '\n' ∉ a.value.toList) :
    (foldedLine a).IsClean ∧ (foldedLine a).logical = Text.encode (logicalLine a) ∧
      (physicalLines a).flatMap lineBytes =
        (foldedLine a).fileLines.flatMap FileLine.bytes := by
  obtain ⟨c, first, more, hlines, hpieces, hc, hfirst, hmore⟩ := physicalLines_eq hname hvalue
  have hfold : foldedLine a = ⟨fragment (c :: first), more.map fragment⟩ := by
    simp only [foldedLine, hlines, List.map_map]
    rfl
  rw [hfold, hlines]
  refine ⟨⟨?_, ?_, ?_⟩, ?_, ?_⟩
  · exact Text.encode_ne_nil
  · exact Text.head?_encode_ne_space hc
  · intro l hl
    rcases List.mem_cons.mp hl with rfl | hl
    · exact fragment_isClean hfirst
    · rw [List.map_map] at hl
      obtain ⟨piece, hpiece, rfl⟩ := List.mem_map.mp hl
      exact continued_isClean (hmore piece hpiece)
  · rw [Text.encode_eq_flatMap (logicalLine a), ← hpieces, List.flatMap_append,
      ← List.flatMap_id, List.flatMap_assoc]
    simp only [FoldedLine.logical, fragment, Text.encode_ofList, List.flatMap_map, id_eq]
  · simp only [FoldedLine.fileLines, List.flatMap_cons, List.flatMap_map, lineBytes_space]
    rfl

/-! ## 2. The attribute of a logical line -/

/-- No character of a name is a colon. -/
theorem ne_colon_of_isName {name : String} (h : isName name = true) :
    ∀ c ∈ name.toList, (c == ':') = false := by
  simp only [isName, Bool.and_eq_true] at h
  intro c hc
  rw [beq_eq_false_iff_ne]
  rintro rfl
  exact absurd (List.all_eq_true.mp h.2 ':' hc) (by decide)

/-- The logical line of an attribute is read as the attribute. -/
theorem readAttribute_logicalLine {a : Attribute} (n : Nat) (hname : isName a.name = true) :
    readAttribute ⟨n, Text.encode (logicalLine a)⟩ = .ok a := by
  have hcut : Text.cutAt? (· == ':') (logicalLine a).toList =
      some (a.name.toList, ' ' :: a.value.toList) := by
    have hline : (logicalLine a).toList = a.name.toList ++ ':' :: ' ' :: a.value.toList := by
      simp [logicalLine]
    rw [hline]
    exact Text.cutAt?_append_cons (ne_colon_of_isName hname) rfl
  simp only [readAttribute, Text.decode?_encode, hcut, String.ofList_toList, hname, if_true,
    stripSpace]

/-- The logical lines of attributes are read as the attributes, wherever they start. -/
theorem attributesOf_folded (n : Nat) (attributes : List Attribute)
    (h : ∀ a ∈ attributes, isName a.name = true ∧ '\n' ∉ a.value.toList) :
    attributesOf (numberFolded n (attributes.map foldedLine)) = .ok attributes := by
  induction attributes generalizing n with
  | nil => rfl
  | cons a rest ih =>
    obtain ⟨hname, hvalue⟩ := h a List.mem_cons_self
    have hrest := ih (n + (foldedLine a).fileLines.length)
      fun b hb => h b (List.mem_cons_of_mem a hb)
    rw [List.map_cons, numberFolded, attributesOf, (foldedLine_spec hname hvalue).2.1,
      readAttribute_logicalLine n hname, hrest]
    rfl

/-! ## 3. Sound manifests -/

/-- A manifest of valid names, and of values without a line feed. -/
def IsSound (m : Manifest) : Prop :=
  ∀ a ∈ m.attributes, isName a.name = true ∧ '\n' ∉ a.value.toList

/-- The empty manifest is sound. -/
theorem isSound_empty : IsSound empty := by
  intro a ha
  cases ha

/-- Setting an attribute keeps a manifest sound. -/
theorem IsSound.set {m m' : Manifest} {name value : String} (hm : IsSound m)
    (h : m.set name value = .ok m') : IsSound m' := by
  obtain ⟨hname, hvalue, rfl⟩ := set_eq_ok_iff.mp h
  exact forall_put (N := fun name => isName name = true) (V := fun value => '\n' ∉ value.toList)
    hname (not_mem_of_isValue hvalue (by decide)) hm

/-- The manifest of an executable archive is sound. -/
theorem isSound_executable {mainClass : String} {m : Manifest}
    (h : executable mainClass = .ok m) : IsSound m := by
  obtain ⟨m₁, h₁, h⟩ := bind_eq_ok.mp h
  obtain ⟨m₂, h₂, h₃⟩ := bind_eq_ok.mp h
  exact ((isSound_empty.set h₁).set h₂).set h₃

/-! What is read has been cut at the line feeds, so no byte of a line is one. -/

theorem mem_of_mem_stripReturn {line : Bytes} : ∀ b ∈ stripReturn line, b ∈ line := by
  induction line with
  | nil => exact fun b hb => hb
  | cons c rest ih =>
    intro b hb
    cases rest with
    | nil =>
      rw [stripReturn] at hb
      split at hb
      · cases hb
      · exact hb
    | cons d rest =>
      rw [stripReturn] at hb
      · rcases List.mem_cons.mp hb with rfl | hb
        · exact List.mem_cons_self
        · exact List.mem_cons_of_mem c (ih b hb)
      · exact fun h => by cases h

theorem text_mem_of_mem_number {n : Nat} {lines : List Bytes} {line : NumberedLine}
    (h : line ∈ number n lines) : line.text ∈ lines := by
  induction lines generalizing n with
  | nil => cases h
  | cons l rest ih =>
    rcases List.mem_cons.mp h with rfl | h
    · exact List.mem_cons_self
    · exact List.mem_cons_of_mem l (ih h)

/-- No line of a section holds a line feed. -/
theorem lineFeed_not_mem_sectionLines {bytes : Bytes} {line : NumberedLine}
    (h : line ∈ sectionLines bytes) : (0x0a : UInt8) ∉ line.text := by
  have hline := List.takeWhile_subset _ (text_mem_of_mem_number h)
  obtain ⟨piece, hpiece, hstrip⟩ := List.mem_map.mp hline
  intro hmem
  rw [← hstrip] at hmem
  have hfree := (Text.mem_of_mem_splitWhere hpiece _ (mem_of_mem_stripReturn _ hmem)).2
  exact absurd hfree (by decide)

/-- Joining lines brings no line feed. -/
theorem lineFeed_not_mem_joinLines {lines : List NumberedLine}
    (h : ∀ line ∈ lines, (0x0a : UInt8) ∉ line.text) :
    (0x0a : UInt8) ∉ (joinLines lines).1 ∧
      ∀ line ∈ (joinLines lines).2, (0x0a : UInt8) ∉ line.text := by
  induction lines with
  | nil => exact ⟨List.not_mem_nil, fun line hline => by cases hline⟩
  | cons line rest ih =>
    obtain ⟨hwaiting, hjoined⟩ := ih fun l hl => h l (List.mem_cons_of_mem line hl)
    have hline := h line List.mem_cons_self
    simp only [joinLines]
    split
    · refine ⟨?_, hjoined⟩
      intro hmem
      rcases List.mem_append.mp hmem with hmem | hmem
      · exact hline (List.mem_of_mem_tail hmem)
      · exact hwaiting hmem
    · refine ⟨List.not_mem_nil, ?_⟩
      intro l hl
      rcases List.mem_cons.mp hl with rfl | hl
      · intro hmem
        rcases List.mem_append.mp hmem with hmem | hmem
        · exact hline hmem
        · exact hwaiting hmem
      · exact hjoined l hl

/-- The attribute of a line without a line feed is sound. -/
theorem readAttribute_sound {line : NumberedLine} {a : Attribute}
    (hline : (0x0a : UInt8) ∉ line.text) (h : readAttribute line = .ok a) :
    isName a.name = true ∧ '\n' ∉ a.value.toList := by
  unfold readAttribute at h
  split at h
  · cases h
  · rename_i text hdecode
    have htext : '\n' ∉ text.toList := by
      rw [← Text.lineFeed_mem_encode, Text.encode_of_decode? hdecode]
      exact hline
    split at h
    · cases h
    · rename_i name value hcut
      split at h
      · rename_i hname
        cases h
        obtain ⟨colon, -, hchars⟩ := Text.eq_of_cutAt? hcut
        refine ⟨hname, ?_⟩
        intro hmem
        have hvalue : '\n' ∈ value := by
          rw [String.toList_ofList] at hmem
          unfold stripSpace at hmem
          split at hmem
          · exact List.mem_cons_of_mem _ hmem
          · exact hmem
        apply htext
        rw [hchars]
        exact List.mem_append_right _ (List.mem_cons_of_mem _ hvalue)
      · cases h

/-- The attributes of lines without a line feed are sound. -/
theorem attributesOf_sound {lines : List NumberedLine} {attributes : List Attribute}
    (hlines : ∀ line ∈ lines, (0x0a : UInt8) ∉ line.text)
    (h : attributesOf lines = .ok attributes) :
    ∀ a ∈ attributes, isName a.name = true ∧ '\n' ∉ a.value.toList := by
  induction lines generalizing attributes with
  | nil =>
    cases h
    intro a ha
    cases ha
  | cons line rest ih =>
    obtain ⟨first, hfirst, h⟩ := bind_eq_ok.mp h
    obtain ⟨others, hothers, h⟩ := bind_eq_ok.mp h
    cases h
    intro a ha
    rcases List.mem_cons.mp ha with rfl | ha
    · exact readAttribute_sound (hlines line List.mem_cons_self) hfirst
    · exact ih (fun l hl => hlines l (List.mem_cons_of_mem line hl)) hothers a ha

/-- A manifest that has been read is sound. -/
theorem isSound_ofBytes {bytes : Bytes} {m : Manifest} (h : ofBytes bytes = .ok m) :
    IsSound m := by
  obtain ⟨lines, hlines, h⟩ := bind_eq_ok.mp h
  obtain ⟨attributes, hattributes, h⟩ := bind_eq_ok.mp h
  cases h
  refine attributesOf_sound ?_ hattributes
  have hsection := lineFeed_not_mem_joinLines
    fun line (hline : line ∈ sectionLines bytes) => lineFeed_not_mem_sectionLines hline
  unfold logicalLines at hlines
  split at hlines
  · cases hlines
    exact fun line hline => by cases hline
  · split at hlines
    · cases hlines
    · cases hlines
      exact hsection.2

/-! ## 4. The round trip -/

/-- **A sound manifest is read back from its bytes.** -/
theorem ofBytes_toBytes {m : Manifest} (hm : IsSound m) : ofBytes m.toBytes = .ok m := by
  have hbytes : m.toBytes = sectionBytes (m.attributes.map foldedLine) .crlf [] := by
    rw [toBytes, sectionBytes, List.append_nil]
    congr 1
    rw [List.flatMap_assoc, List.flatMap_map]
    apply List.flatMap_congr
    intro a ha
    obtain ⟨hname, hvalue⟩ := hm a ha
    exact (foldedLine_spec hname hvalue).2.2
  have hclean : ∀ f ∈ m.attributes.map foldedLine, f.IsClean := by
    intro f hf
    obtain ⟨a, ha, rfl⟩ := List.mem_map.mp hf
    obtain ⟨hname, hvalue⟩ := hm a ha
    exact (foldedLine_spec hname hvalue).1
  rw [hbytes, ofBytes_folded _ _ _ hclean, attributesOf_folded 1 m.attributes hm]
  rfl

/-- The manifests that can be made. -/
inductive Reachable : Manifest → Prop
  | empty : Reachable empty
  | executable {mainClass : String} {m : Manifest} (h : executable mainClass = .ok m) :
    Reachable m
  | read {bytes : Bytes} {m : Manifest} (h : ofBytes bytes = .ok m) : Reachable m
  | set {m : Manifest} (name value : String) (h : Reachable m) :
    Reachable (m.setOrKeep name value)

/-- Every manifest that can be made is sound. -/
theorem Reachable.isSound {m : Manifest} (h : Reachable m) : IsSound m := by
  induction h with
  | empty => exact isSound_empty
  | executable h => exact isSound_executable h
  | read h => exact isSound_ofBytes h
  | set name value _ ih => exact setOrKeep_cases ih fun m' hset => ih.set hset

/-- **Every manifest that can be made is read back from its bytes**, with the same names, values
and order. -/
theorem ofBytes_toBytes_of_reachable {m : Manifest} (h : Reachable m) :
    ofBytes m.toBytes = .ok m :=
  ofBytes_toBytes h.isSound

/-- A name three times, in two spellings: a value with carriage returns, an empty one, and one that
starts with a space and a colon, is cut inside and ends in a NUL. -/
def oddBytes : Bytes :=
  Text.encode "A: x\ry\r\r\na:\r\nA:  : é\n é\x00\r\n\r\nrest"

/-- What is read from them. -/
def oddManifest : Manifest :=
  ⟨[⟨"A", "x\ry\r"⟩, ⟨"a", ""⟩, ⟨"A", " : éé\x00"⟩]⟩

theorem ofBytes_toBytes_odd :
    let m := (oddManifest.setOrKeep "B" (String.ofList (List.replicate 80 'é'))).setOrKeep "C" "\n"
    m.attributes.length = 4 ∧ Reachable m ∧ ofBytes m.toBytes = .ok m := by
  have hread : ofBytes oddBytes = .ok oddManifest := eq_ok_of_toOption (by decide +kernel)
  have hreach :=
    ((Reachable.read hread).set "B" (String.ofList (List.replicate 80 'é'))).set "C" "\n"
  exact ⟨by decide +kernel, hreach, ofBytes_toBytes_of_reachable hreach⟩

end FatJar.Manifest
