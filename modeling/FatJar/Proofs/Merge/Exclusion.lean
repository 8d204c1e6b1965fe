/-
FatJar.Proofs.Merge.Exclusion — leaving entries out while merging is taking them
out of the inputs before.

The patterns are asked in the middle of a step, after the name has been checked
and after the manifests have been set aside. An entry that they leave out adds
to its own count and to nothing else, so a merge and the merge of the stripped
inputs without patterns have the same table up to that count. They are followed
side by side, the second run standing still where the first leaves an entry out.
What the first run has seen and the second has not are names that do not come
again, as long as the names in an archive are distinct.

Contents:
1. bundlers without patterns, stripped archives;
2. the count that is forgotten;
3. one entry, one archive, all archives;
4. merging.
-/
import FatJar.Proofs.Merge.Accounting
import FatJar.Proofs.Merge.Validity

namespace FatJar

open Outcome

/-! ## 1. Stripped archives -/

namespace Bundler

/-- The bundler without patterns. -/
def withoutExcludes (b : Bundler) : Bundler :=
  { b with options := { b.options with exclude := [] }, excludes := [] }

/-- The archive without the entries that the patterns leave out. -/
def strip (b : Bundler) (a : Archive) : Archive :=
  { a with entries := a.entries.filter fun e => !b.leavesOut e.name }

/-- It is the bundler of the same options without patterns. -/
theorem ofOptions_withoutExcludes {options : BundleOptions} {b : Bundler}
    (h : ofOptions options = .ok b) :
    ofOptions { options with exclude := [] } = .ok b.withoutExcludes := by
  have hmanifest : manifestOf { options with exclude := [] } = manifestOf options := rfl
  unfold ofOptions at h ⊢
  split at h
  · cases h
  · rename_i hentry
    obtain ⟨manifest, hmade, hrest⟩ := bind_eq_ok.mp h
    obtain ⟨patterns, -, hb⟩ := bind_eq_ok.mp hrest
    cases hb
    rw [if_neg hentry, hmanifest, hmade]
    rfl

end Bundler

/-! ## 2. The forgotten count -/

namespace MergeTable

variable {t : MergeTable}

/-- The table as if nothing had been left out. -/
def forgetExcluded (t : MergeTable) : MergeTable :=
  { t with stats := { t.stats with excluded := 0 } }

/-- Entries are added alike. -/
theorem add_forgetExcluded (policy : DuplicatePolicy) (source : Nat) (e : Entry) :
    t.forgetExcluded.add policy source e = (t.add policy source e).map forgetExcluded := by
  have hfind : t.forgetExcluded.find? e.name = t.find? e.name := rfl
  simp only [add, hfind]
  cases t.find? e.name with
  | none => rfl
  | some earlier => cases e.kind <;> cases policy <;> rfl

end MergeTable

/-- The merged archive as if nothing had been left out. -/
def MergedArchive.forgetExcluded (m : MergedArchive) : MergedArchive :=
  { m with stats := { m.stats with excluded := 0 } }

/-! ## 3. Entries and archives -/

namespace Bundler

variable {b : Bundler} {source : Nat} {label : String} {seen seen' : List String} {t : MergeTable}

/-- An entry that the patterns leave out changes nothing but the count. -/
theorem take_of_leavesOut {e : Entry} (hfault : entryFault? seen e = none)
    (h : b.leavesOut e.name = true) : b.take source label seen e t = .ok t.countExcluded := by
  simp only [leavesOut, Bool.and_eq_true, Bool.not_eq_true'] at h
  simp [take, hfault, h.1.1, h.1.2, h.2]

/-- Any other entry is taken alike without patterns. -/
theorem take_withoutExcludes {e : Entry} (hfault : entryFault? seen e = none)
    (hfault' : entryFault? seen' e = none) (h : b.leavesOut e.name = false) :
    b.withoutExcludes.take source label seen' e t.forgetExcluded =
      (b.take source label seen e t).map MergeTable.forgetExcluded := by
  have hnone : b.withoutExcludes.isExcluded e.name = false := rfl
  simp only [take, hfault, hfault', hnone]
  cases hpath : Manifest.isPath e.name with
  | true => rfl
  | false =>
    cases hdirectory : Manifest.isDirectory e.name with
    | true => rfl
    | false =>
      have hexcluded : b.isExcluded e.name = false := by
        simpa [leavesOut, hpath, hdirectory] using h
      simp only [hexcluded, Bool.false_eq_true, if_false]
      exact MergeTable.add_forgetExcluded _ _ _

/-- Entries without a fault when their turn comes, after entries of the `seen` names. -/
structure Faultless (seen : List String) (entries : List Entry) : Prop where
  names : ∀ e ∈ entries, EntryName.fault? e.name = none
  distinct : (entries.map (·.name)).Nodup
  unseen : ∀ e ∈ entries, e.name ∉ seen

namespace Faultless

variable {e : Entry} {entries : List Entry}

theorem of_isValid {a : Archive} (h : a.IsValid) : Faultless [] a.entries :=
  ⟨h.names, h.distinct, fun _ _ => List.not_mem_nil⟩

theorem entryFault? (h : Faultless seen (e :: entries)) : entryFault? seen e = none := by
  simp [Bundler.entryFault?, h.names e List.mem_cons_self, h.unseen e List.mem_cons_self]

/-- Without its first entry the list is faultless, whether that entry has been seen or not. -/
theorem tail (h : Faultless seen (e :: entries)) :
    Faultless (e.name :: seen) entries ∧ Faultless seen entries := by
  obtain ⟨hfirst, hdistinct⟩ := List.nodup_cons.mp h.distinct
  have hnames : ∀ other ∈ entries, EntryName.fault? other.name = none := fun other hother =>
    h.names other (List.mem_cons_of_mem e hother)
  have hunseen : ∀ other ∈ entries, other.name ∉ seen := fun other hother =>
    h.unseen other (List.mem_cons_of_mem e hother)
  refine ⟨⟨hnames, hdistinct, fun other hother hmem => ?_⟩, hnames, hdistinct, hunseen⟩
  rcases List.mem_cons.mp hmem with hname | hmem
  · exact hfirst (List.mem_map.mpr ⟨other, hother, hname⟩)
  · exact hunseen other hother hmem

end Faultless

/-- The entries of a stripped archive are taken as those of the archive. -/
theorem takeEntries_strip {entries : List Entry} (h : Faultless seen entries)
    (h' : Faultless seen' entries) :
    b.withoutExcludes.takeEntries source label seen'
        (entries.filter fun e => !b.leavesOut e.name) t.forgetExcluded =
      (b.takeEntries source label seen entries t).map MergeTable.forgetExcluded := by
  induction entries generalizing seen seen' t with
  | nil => rfl
  | cons e rest ih =>
    cases hleaves : b.leavesOut e.name with
    | true =>
      -- the second run does not see the name, and it does not come again
      have hrest := ih h.tail.1 h'.tail.2 (t := t.countExcluded)
      rw [takeEntries, take_of_leavesOut h.entryFault? hleaves, List.filter_cons, if_neg]
      · exact hrest
      · simp [hleaves]
    | false =>
      have htake : b.withoutExcludes.take source label seen' e t.forgetExcluded =
          (b.take source label seen e t).map MergeTable.forgetExcluded :=
        take_withoutExcludes h.entryFault? h'.entryFault? hleaves
      rw [List.filter_cons, if_pos (by simp [hleaves]), takeEntries, takeEntries, htake]
      cases b.take source label seen e t with
      | error err => rfl
      | ok next => exact ih h.tail.1 h'.tail.1

/-- Stripped archives are taken as the archives. -/
theorem takeArchives_strip {inputs : List Archive} (hvalid : ∀ a ∈ inputs, a.IsValid) :
    b.withoutExcludes.takeArchives source (inputs.map b.strip) t.forgetExcluded =
      (b.takeArchives source inputs t).map MergeTable.forgetExcluded := by
  induction inputs generalizing source t with
  | nil => rfl
  | cons a rest ih =>
    have hfaultless := Faultless.of_isValid (hvalid a List.mem_cons_self)
    have hentries : b.withoutExcludes.takeEntries source a.label []
          (a.entries.filter fun e => !b.leavesOut e.name) t.forgetExcluded =
        (b.takeEntries source a.label [] a.entries t).map MergeTable.forgetExcluded :=
      takeEntries_strip hfaultless hfaultless
    rw [List.map_cons, takeArchives, takeArchives]
    simp only [strip, hentries]
    cases b.takeEntries source a.label [] a.entries t with
    | error err => rfl
    | ok next => exact ih fun a' ha' => hvalid a' (List.mem_cons_of_mem a ha')

/-! ## 4. Merging -/

variable {inputs : List Archive}

/-- What is left out is what stripping takes out. -/
theorem length_strip (b : Bundler) (inputs : List Archive) :
    ((inputs.map b.strip).flatMap (·.entries)).length +
        (occurrencesFrom 0 inputs).countP (fun o => b.leavesOut o.name) =
      (inputs.flatMap (·.entries)).length := by
  have hkept : (inputs.map b.strip).flatMap (·.entries) =
      (inputs.flatMap (·.entries)).filter fun e => !b.leavesOut e.name := by
    rw [List.flatMap_map, List.filter_flatMap]
    rfl
  rw [countP_occurrencesFrom, hkept,
    List.length_eq_countP_add_countP (fun e : Entry => b.leavesOut e.name)
      (l := inputs.flatMap (·.entries)),
    List.countP_eq_length_filter, Nat.add_comm, List.countP_eq_length_filter]
  simp

/-- **Leaving out is stripping.** Let the names of some archives be safe, and distinct in each. The
bundler of the same options without patterns merges the stripped archives, from which everything is
taken out that the patterns leave out, as the bundler merges the archives: with the same error, or
with the same manifest, the same entries and the same counts of duplicates and of manifests. What
the one has counted as left out is what the others do not have. -/
theorem merge_strip (b : Bundler) (hvalid : ∀ a ∈ inputs, a.IsValid) :
    b.withoutExcludes.merge (inputs.map b.strip) =
      (b.merge inputs).map MergedArchive.forgetExcluded ∧
    (∀ m, b.merge inputs = .ok m →
      ((inputs.map b.strip).flatMap (·.entries)).length + m.stats.excluded =
        (inputs.flatMap (·.entries)).length) ∧
    (∀ options, ofOptions options = .ok b →
      ofOptions { options with exclude := [] } = .ok b.withoutExcludes) := by
  refine ⟨?_, ?_, fun options => ofOptions_withoutExcludes⟩
  · have hrun : b.withoutExcludes.takeArchives 0 (inputs.map b.strip)
          MergeTable.empty.forgetExcluded =
        (b.takeArchives 0 inputs .empty).map MergeTable.forgetExcluded :=
      takeArchives_strip hvalid
    cases inputs with
    | nil => rfl
    | cons a rest =>
      have hstart : MergeTable.empty.forgetExcluded = MergeTable.empty := rfl
      rw [hstart] at hrun
      rw [merge, merge, if_neg (by simp), if_neg (by simp), hrun]
      cases b.takeArchives 0 (a :: rest) .empty with
      | error err => rfl
      | ok t => rfl
  · intro m hm
    rw [← length_strip b inputs, (accounts_of_merge hm).excluded]

/-- Options under which signatures are left out and duplicates are errors. -/
def unsignedOptions : BundleOptions :=
  ⟨"App", .error, ["*.SF"], [], 1⟩

/-- Two inputs with a signature of one name. -/
def signedInputs : List Archive :=
  [⟨"a.jar", [.file "s.SF" [1], .file "x" [2]]⟩,
   ⟨"b.jar", [.file "META-INF/MANIFEST.MF" [9], .file "s.SF" [3]]⟩]

/-- The two signatures would be duplicates, but they are left out, and two of the four entries
remain. -/
theorem merge_strip_signed :
    (∀ a ∈ signedInputs, a.IsValid) ∧
    ∃ b m, ofOptions unsignedOptions = .ok b ∧ b.merge signedInputs = .ok m ∧
      ofOptions { unsignedOptions with exclude := [] } = .ok b.withoutExcludes ∧
      b.withoutExcludes.merge (signedInputs.map b.strip) = .ok m.forgetExcluded ∧
      ((signedInputs.map b.strip).flatMap (·.entries)).length + 2 = 4 := by
  have hvalid : ∀ a ∈ signedInputs, a.IsValid := by decide +kernel
  have hrun : (ofOptions unsignedOptions >>= fun b => b.merge signedInputs).toOption.map
      (·.stats) = some ⟨0, 2, 1⟩ := by decide +kernel
  obtain ⟨m, hm, hstats⟩ := Option.map_eq_some_iff.mp hrun
  obtain ⟨b, hb, hmerge⟩ := bind_eq_ok.mp (eq_ok_of_toOption hm)
  obtain ⟨hstrip, hlength, hoptions⟩ := merge_strip b hvalid
  have htotal := hlength m hmerge
  rw [hmerge] at hstrip
  rw [hstats] at htotal
  exact ⟨hvalid, b, m, hb, hmerge, hoptions _ hb, hstrip, htotal⟩

end Bundler

end FatJar
