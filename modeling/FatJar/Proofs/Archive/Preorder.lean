/-
FatJar.Proofs.Archive.Preorder — the order in which a directory is walked, and
the names that its entries get.

A way below a directory is the list of the names that lead there. In a walk from
the top a way comes right before those that go on from it, and ways that part
come in the order of the names at which they part. So the ways that go on from
one stand together (`exists_block`).

The name of an entry is made of the names on its way, with slashes. Taken apart
at the slashes it gives the way back (`parts_stem_append`).

Contents:
1. the order of ways;
2. what stands together in it;
3. names made of the names on a way.
-/
import FatJar.Proofs.FileTree.Listing
import FatJar.Proofs.Text.ByteOrder
import FatJar.Proofs.Text.Split

namespace FatJar

variable {names names' more more' : List String} {name name' : String}

/-! ## 1. Order -/

/-- One way comes before another: the first name in which they differ has the bytes that come
before, or the other way goes on from it. -/
def Precedes (names names' : List String) : Prop :=
  names.map Text.encode < names'.map Text.encode

theorem precedes_append (hmore : more ≠ []) : Precedes names (names ++ more) := by
  obtain ⟨name, rest, rfl⟩ := List.exists_cons_of_ne_nil hmore
  have hrest : names.map Text.encode ++ [] <
      names.map Text.encode ++ Text.encode name :: rest.map Text.encode :=
    List.append_left_lt (List.nil_lt_cons ..)
  simpa [Precedes] using hrest

/-- Nothing comes before a way from which it goes on, nor before itself. -/
theorem not_precedes_of_isPrefix (h : names <+: names') : ¬ Precedes names' names := by
  intro hprecedes
  obtain ⟨more, rfl⟩ := h
  by_cases hmore : more = []
  · subst hmore
    rw [List.append_nil] at hprecedes
    exact List.lt_irrefl _ hprecedes
  · exact List.lt_asymm hprecedes (precedes_append hmore)

theorem Precedes.ne (h : Precedes names names') : names ≠ names' := fun hsame =>
  not_precedes_of_isPrefix List.prefix_rfl (hsame ▸ h)

theorem precedes_of_lt (h : name < name') :
    Precedes (names ++ [name] ++ more) (names ++ [name'] ++ more') := by
  have hparted : names.map Text.encode ++ Text.encode name :: more.map Text.encode <
      names.map Text.encode ++ Text.encode name' :: more'.map Text.encode :=
    List.append_left_lt (List.cons_lt_cons_iff.mpr (.inl (Text.encode_lt_encode h)))
  simpa [Precedes] using hparted

/-! ## 2. Standing together -/

/-- What comes after a way and before one that goes on from it goes on from it too. -/
theorem Precedes.isPrefix_of_between (hafter : Precedes names names')
    (hbefore : Precedes names' (names ++ more)) : names <+: names' := by
  induction names generalizing names' with
  | nil => exact List.nil_prefix
  | cons name names ih =>
    cases names' with
    | nil => exact absurd hafter (List.not_lt_nil _)
    | cons name' names' =>
      simp only [Precedes, List.cons_append, List.map_cons] at hafter hbefore
      rcases List.cons_lt_cons_iff.mp hafter with hlt | ⟨hsame, hrest⟩
      · rcases List.cons_lt_cons_iff.mp hbefore with hlt' | ⟨hsame, -⟩
        · exact absurd hlt' (List.lt_asymm hlt)
        · exact absurd (hsame ▸ hlt) (List.lt_irrefl _)
      · rcases List.cons_lt_cons_iff.mp hbefore with hlt' | ⟨-, hrest'⟩
        · exact absurd (hsame ▸ hlt') (List.lt_irrefl _)
        · have hname : name = name' := Text.encode_injective hsame
          subst hname
          exact List.cons_prefix_cons.mpr ⟨rfl, ih hrest hrest'⟩

/-- In the order of a walk, those that go on from a way come first among those that come after. -/
theorem exists_block {after : List (List String)} (hafter : ∀ way ∈ after, Precedes names way)
    (hsorted : after.Pairwise Precedes) :
    ∃ block rest, after = block ++ rest ∧ (∀ way ∈ block, names <+: way) ∧
      ∀ way ∈ rest, ¬ names <+: way := by
  induction after with
  | nil => exact ⟨[], [], rfl, nofun, nofun⟩
  | cons next after ih =>
    obtain ⟨hnext, hafter⟩ := List.forall_mem_cons.mp hafter
    obtain ⟨hfirst, hsorted⟩ := List.pairwise_cons.mp hsorted
    by_cases hon : names <+: next
    · obtain ⟨block, rest, rfl, hblock, hrest⟩ := ih hafter hsorted
      exact ⟨next :: block, rest, rfl, List.forall_mem_cons.mpr ⟨hon, hblock⟩, hrest⟩
    · refine ⟨[], next :: after, rfl, nofun, List.forall_mem_cons.mpr ⟨hon, ?_⟩⟩
      -- a way further on lies on the other side of the next one
      intro way hway hfurther
      obtain ⟨more, rfl⟩ := hfurther
      exact hon (hnext.isPrefix_of_between (hfirst _ hway))

/-! ## 3. Names -/

/-- The text with which the names of what is below a way begin. -/
def stem (names : List String) : String :=
  String.join (names.map (· ++ "/"))

theorem stem_append (names more : List String) :
    stem (names ++ more) = stem names ++ stem more := by
  simp [stem]

theorem stem_concat (names : List String) (name : String) :
    stem (names ++ [name]) = stem names ++ name ++ "/" := by
  simp [stem, String.append_assoc]

/-- Joined with slashes, the last name comes after the text for the names before it. -/
theorem intercalate_concat (names : List String) (name : String) :
    "/".intercalate (names ++ [name]) = stem names ++ name := by
  induction names with
  | nil => simp [stem]
  | cons first names ih =>
    rw [List.cons_append, String.intercalate_cons_of_ne_nil (by simp), ih]
    simp [stem, String.append_assoc]

theorem intercalate_append_slash (hne : names ≠ []) :
    "/".intercalate names ++ "/" = stem names := by
  obtain ⟨above, last, rfl⟩ := (List.eq_nil_or_concat names).resolve_left hne
  rw [List.concat_eq_append, intercalate_concat, stem_concat]

theorem FileTree.IsFileName.beq_slash (h : FileTree.IsFileName name) :
    ∀ c ∈ name.toList, (c == '/') = false := fun _ hc =>
  beq_eq_false_iff_ne.mpr fun hslash => h.slash_not_mem (hslash ▸ hc)

/-- Taken apart at the slashes, a name gives the way from which it is made. -/
theorem parts_stem_append (hnames : ∀ name ∈ names, FileTree.IsFileName name) (text : String) :
    Path.parts ⟨stem names ++ text⟩ = names ++ Path.parts ⟨text⟩ := by
  induction names with
  | nil => simp [stem]
  | cons name names ih =>
    obtain ⟨hname, hnames⟩ := List.forall_mem_cons.mp hnames
    have htext : (stem (name :: names) ++ text).toList =
        name.toList ++ '/' :: (stem names ++ text).toList := by
      simp [stem]
    rw [Path.parts, htext, Text.splitWhere_append_cons hname.beq_slash (by simp), List.cons_append,
      ← ih hnames]
    simp [Path.parts, hname.ne_empty]

/-- A text with the name of a file at its end does not end in a slash. -/
theorem getLast?_ne_slash (h : FileTree.IsFileName name) (text : String) :
    (text ++ name).toList.getLast? ≠ some '/' := by
  intro hlast
  obtain ⟨cs, c, hcs⟩ :=
    (List.eq_nil_or_concat name.toList).resolve_left (by simpa using h.ne_empty)
  rw [List.concat_eq_append] at hcs
  rw [String.toList_append, hcs, ← List.append_assoc, List.getLast?_concat] at hlast
  cases hlast
  exact h.slash_not_mem (by simp [hcs])

theorem parts_name (h : FileTree.IsFileName name) : Path.parts ⟨name⟩ = [name] := by
  rw [Path.parts, Text.splitWhere_of_forall h.beq_slash]
  simp [h.ne_empty]

end FatJar
