/-
FatJar.Proofs.Bundle.Unpacking — a bundle is unpacked below one directory.

Entry names are checked once, when an entry is merged, and the check only looks at
the name: it has no `..` between separators of either kind and does not start with
one. From then on a name changes in one way, by the slash that a directory gets
when it is written, and the two members that are put in front have names of their
own. So no member of a bundle leads out of the directory it is unpacked into,
whichever separators the unpacking program knows (`bundle_staysBelow`).

Contents:
1. following a name;
2. names that have been checked;
3. the members of a bundle.
-/
import FatJar.Proofs.Bundle.Delivery
import FatJar.Proofs.Bundle.Staged

namespace FatJar

open Outcome

/-! ## 1. Following a name -/

namespace EntryName

/-- Where a component leads from a place below the directory that is unpacked into. Nothing and `.`
stay there, `..` goes up, and any other goes down. There is no way up from the directory itself. -/
def follow? (place : List (List Char)) (part : List Char) : Option (List (List Char)) :=
  if part == [] || part == ['.'] then some place
  else if part == ['.', '.'] then if place.isEmpty then none else some place.dropLast
  else some (place ++ [part])

/-- A name that is not absolute and does not lead out of the directory at any of its components. -/
structure StaysBelow (isSeparator : Char → Bool) (name : String) : Prop where
  relative : name.toList.head?.any isSeparator = false
  inside : ∀ taken, taken <+: Text.splitWhere isSeparator name.toList →
    ∃ place, taken.foldlM follow? [] = some place

/-- A name that stays below, whether the backslash separates components or belongs to them. -/
structure IsSafe (name : String) : Prop where
  oneSeparator : StaysBelow (· == '/') name
  twoSeparators : StaysBelow isSeparator name

variable {p : Char → Bool} {name : String} {parts : List (List Char)}

/-- Without `..` nothing goes up. -/
theorem exists_foldlM_follow? (h : ['.', '.'] ∉ parts) (place : List (List Char)) :
    ∃ found, parts.foldlM follow? place = some found := by
  induction parts generalizing place with
  | nil => exact ⟨place, rfl⟩
  | cons part rest ih =>
    obtain ⟨hpart, hrest⟩ := not_or.mp (mt List.mem_cons.mpr h)
    have hnext : ∃ next, follow? place part = some next := by
      rw [follow?]
      split
      · exact ⟨place, rfl⟩
      · rw [if_neg (by simpa using Ne.symm hpart)]
        exact ⟨place ++ [part], rfl⟩
    obtain ⟨next, hnext⟩ := hnext
    rw [List.foldlM_cons, hnext]
    exact ih hrest next

theorem staysBelow_of_dots_not_mem (hhead : name.toList.head?.any p = false)
    (hdots : ['.', '.'] ∉ Text.splitWhere p name.toList) : StaysBelow p name where
  relative := hhead
  inside := fun _ htaken => exists_foldlM_follow? (fun hmem => hdots (htaken.mem hmem)) []

/-! ## 2. Names that have been checked -/

/-- What is known of a name without a fault. -/
theorem fault?_eq_none_iff :
    fault? name = none ↔
      name ≠ "" ∧ isAbsolute name = false ∧ ['.', '.'] ∉ EntryName.parts name := by
  rw [fault?]
  by_cases hempty : name = ""
  · simp [hempty]
  · by_cases hslash : name = "/"
    · subst hslash
      decide
    · cases habsolute : isAbsolute name with
      | true => simp [hempty, hslash]
      | false => simp [hempty, hslash]

/-- A check with both separators is enough for a program that knows some of them. -/
theorem staysBelow_of_fault? (hp : ∀ c, p c = true → isSeparator c = true)
    (h : fault? name = none) : StaysBelow p name := by
  obtain ⟨-, habsolute, hdots⟩ := fault?_eq_none_iff.mp h
  refine staysBelow_of_dots_not_mem ?_ fun hmem => hdots ?_
  · rw [isAbsolute] at habsolute
    cases hhead : name.toList.head? with
    | none => rfl
    | some c =>
      rw [hhead] at habsolute
      exact Bool.eq_false_iff.mpr fun hc => Bool.eq_false_iff.mp habsolute (hp c hc)
  · exact Text.mem_splitWhere_of_forall hp hmem (by simp [isSeparator])

/-- A slash after a name without a fault is no fault. -/
theorem fault?_append_slash (h : fault? name = none) : fault? (name ++ "/") = none := by
  obtain ⟨hempty, habsolute, hdots⟩ := fault?_eq_none_iff.mp h
  have hlist : (name ++ "/").toList = name.toList ++ ['/'] := String.toList_append
  refine fault?_eq_none_iff.mpr ⟨?_, ?_, ?_⟩
  · exact fun heq => by simpa [hlist] using congrArg String.toList heq
  · rw [isAbsolute] at habsolute ⊢
    rw [hlist, List.head?_append_of_ne_nil _ (by simpa using hempty)]
    exact habsolute
  · rw [EntryName.parts] at hdots ⊢
    rw [hlist, Text.splitWhere_append_separator _ (by decide), List.mem_append]
    exact not_or.mpr ⟨hdots, by decide⟩

theorem isSafe_of_fault? (h : fault? name = none) : IsSafe name where
  oneSeparator := staysBelow_of_fault? (fun c hc => by rw [beq_iff_eq.mp hc]; rfl) h
  twoSeparators := staysBelow_of_fault? (fun _ hc => hc) h

end EntryName

/-- Writing an entry gives its name no fault. -/
theorem Zip.fault?_writtenName {e : Entry} (h : EntryName.fault? e.name = none) :
    EntryName.fault? (Zip.writtenName e) = none := by
  cases hkind : e.kind with
  | file => rw [Zip.writtenName, hkind, h]
  | directory =>
    rw [Zip.writtenName, hkind]
    simp only [Zip.directoryName]
    split
    · exact h
    · exact EntryName.fault?_append_slash h

/-! ## 3. The members of a bundle -/

/-- What is written is a container in which no name is repeated. -/
theorem MergedArchive.toBytes_eq_ok {m : MergedArchive} {bytes : Bytes}
    (h : m.toBytes = .ok bytes) :
    bytes = Zip.containerBytes m.writtenEntries ∧
      (m.writtenEntries.map Zip.writtenName).Nodup := by
  rw [MergedArchive.toBytes, Zip.write] at h
  split at h
  · cases h
  · rename_i hnone
    cases h
    exact ⟨rfl, ((Zip.repeatedName?_eq_none_iff [] _).mp hnone).1⟩

/-- The container of the merged archive stands at the output, and all its members stay below the
directory that it is unpacked into. Their names are those that a reader lists. -/
structure Unpacks (t' : FileTree) (output : Path) (merged : MergedArchive) : Prop where
  stands : ∃ directory name,
    t'.Stands output (Zip.containerBytes merged.writtenEntries) directory name
  safe : ∀ e ∈ merged.writtenEntries, EntryName.IsSafe (Zip.writtenName e)
  listed : Zip.Fits merged.writtenEntries → ∃ listing,
    Zip.listing (Zip.containerBytes merged.writtenEntries) = .ok listing ∧
      listing.map (·.1) = merged.writtenEntries.map Zip.writtenName

namespace Bundler

variable {b : Bundler} {inputs : List Archive} {m : MergedArchive}

/-- The members that are written have names without a fault. -/
theorem fault?_of_mem_writtenEntries (h : b.merge inputs = .ok m) {e : Entry}
    (he : e ∈ m.writtenEntries) : EntryName.fault? e.name = none := by
  have hdirectory : EntryName.fault? (Entry.directory Manifest.directory).name = none := by decide
  have hpath : EntryName.fault? Manifest.path = none := by decide
  rw [MergedArchive.writtenEntries, List.mem_cons, List.mem_cons, List.mem_map] at he
  rcases he with rfl | rfl | ⟨entry, hentry, rfl⟩
  · exact hdirectory
  · exact hpath
  · exact merge_fault? h hentry

theorem unpacks_of_put {t t' : FileTree} {output : Path} {bytes : Bytes}
    (hmerged : b.merge inputs = .ok m) (hbytes : m.toBytes = .ok bytes)
    (hput : t.putAtomically output bytes = (.ok (), t')) : Unpacks t' output m := by
  obtain ⟨rfl, hnames⟩ := MergedArchive.toBytes_eq_ok hbytes
  refine ⟨FileTree.stands_of_put hput, fun e he => ?_, fun hfits => ?_⟩
  · exact EntryName.isSafe_of_fault?
      (Zip.fault?_writtenName (fault?_of_mem_writtenEntries hmerged he))
  · refine ⟨_, Zip.listing_containerBytes hfits hnames, ?_⟩
    rw [List.map_map]
    rfl

/-- **A bundle is unpacked below one directory.** Whatever the inputs and the options are, what has
been written at the output is the container of the merge, and the name of each of its members is
relative and stays below the directory at every component. This holds of programs that take only
the slash as a separator and of those that take the backslash too. -/
theorem bundle_staysBelow (b : Bundler) (t : FileTree) (processors : Nat) (sources : List Source)
    (archives : List Archive) (output : Path) :
    (∀ report t', b.bundle t processors sources output = (.ok report, t') →
      ∃ inputs merged, Reading.readInputs t processors b.options.jobs sources = .ok inputs ∧
        b.merge inputs = .ok merged ∧ Unpacks t' output merged) ∧
    ∀ report t', b.bundleArchives t archives output = (.ok report, t') →
      ∃ merged, b.merge archives = .ok merged ∧ Unpacks t' output merged := by
  constructor
  · intro report t' h
    obtain ⟨inputs, merged, bytes, hinputs, hmerged, hbytes, hput, -⟩ := bundle_eq_ok h
    exact ⟨inputs, merged, hinputs, hmerged, unpacks_of_put hmerged hbytes hput⟩
  · intro report t' h
    obtain ⟨merged, bytes, hmerged, hbytes, hput, -⟩ := bundleArchives_eq_ok h
    exact ⟨merged, hmerged, unpacks_of_put hmerged hbytes hput⟩

/-- Names with dots, empty components and both separators; the directories have no slash. -/
def crookedInputs : List Archive :=
  [⟨"a.jar", [.file "a\\..b//./c" [1], ⟨"...", .directory, []⟩, ⟨"d\\", .directory, []⟩]⟩]

/-- What they are merged into. -/
def crookedMerged : MergedArchive :=
  ⟨.empty, [⟨"a\\..b//./c", .file, [1], 0⟩, ⟨"...", .directory, [], 0⟩,
    ⟨"d\\", .directory, [], 0⟩], .zero⟩

theorem merge_crookedInputs : bareBundler.merge crookedInputs = .ok crookedMerged :=
  eq_ok_of_toOption (by decide +kernel)

theorem fits_crookedMerged : Zip.Fits crookedMerged.writtenEntries := by
  have hsmall : Zip.Small crookedMerged.writtenEntries := by decide +kernel
  exact hsmall.fits

/-- They are written and listed, and a name that goes up is not merged. -/
theorem bundle_staysBelow_crooked :
    (∃ report t', bareBundler.bundleArchives ⟨[], []⟩ crookedInputs ⟨"o"⟩ = (.ok report, t') ∧
      Unpacks t' ⟨"o"⟩ crookedMerged ∧
      ∃ listing, Zip.listing (Zip.containerBytes crookedMerged.writtenEntries) = .ok listing ∧
        listing.map (·.1) =
          ["META-INF/", "META-INF/MANIFEST.MF", "a\\..b//./c", ".../", "d\\"]) ∧
    ¬ EntryName.IsSafe "a\\..\\..\\b" := by
  have hdistinct : (crookedMerged.writtenEntries.map Zip.writtenName).Nodup := by decide
  have hbytes : crookedMerged.toBytes = .ok (Zip.containerBytes crookedMerged.writtenEntries) := by
    rw [MergedArchive.toBytes, Zip.write_eq_ok hdistinct]
    rfl
  have hput : ∀ bytes, (⟨[], []⟩ : FileTree).putAtomically ⟨"o"⟩ bytes =
      (.ok (), ⟨[(["o"], .file bytes)], []⟩) := by
    intro bytes
    have hhere : FileTree.ReadsAs ⟨"."⟩ ["."] := ⟨rfl, rfl, rfl, rfl⟩
    have hlast : FileTree.lastStep ⟨"o"⟩ = .name "o" false := rfl
    have hdir : FileTree.outputDirectory ⟨"o"⟩ = ⟨"."⟩ := rfl
    have hresolve : FileTree.resolve ⟨[], []⟩ (FileTree.outputDirectory ⟨"o"⟩) = .ok [] := by
      rw [hdir]
      exact hhere.resolve_of_walks (.here rfl .nil)
    exact FileTree.putAtomically_of_free hlast rfl rfl hresolve rfl (by decide) rfl
  have hrun := bundleArchives_of_put merge_crookedInputs hbytes (hput _)
  obtain ⟨merged, hmerged, hunpacks⟩ :=
    (bundle_staysBelow bareBundler ⟨[], []⟩ 1 [] crookedInputs ⟨"o"⟩).2 _ _ hrun
  rw [merge_crookedInputs] at hmerged
  cases hmerged
  obtain ⟨listing, hlisting, hnames⟩ := hunpacks.listed fits_crookedMerged
  refine ⟨⟨_, _, hrun, hunpacks, listing, hlisting, ?_⟩, ?_⟩
  · rw [hnames]
    decide
  · intro hsafe
    obtain ⟨place, hplace⟩ := hsafe.twoSeparators.inside _ List.prefix_rfl
    have hout : (Text.splitWhere EntryName.isSeparator "a\\..\\..\\b".toList).foldlM
        EntryName.follow? [] = none := by decide
    rw [hout] at hplace
    cases hplace

end Bundler

end FatJar
