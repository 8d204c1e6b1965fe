/-
FatJar.Proofs.Merge.Accounting — what becomes of each entry of the inputs.

An entry of an input is a manifest, the manifest's directory, left out by a
pattern, or it survives. A survivor makes a merged entry if it is the first of
its name. Every later one is a repeat: a file is counted as a duplicate, and a
directory is passed over in silence. `Accounts` states this for the entries that
have been taken so far, every step preserves it, and at the end the counts of a
merge add up to the number of entries (`merge_counts`).

Contents:
1. repeats;
2. sorting entries by their names;
3. the invariant, one step at a time;
4. the counts of a merge.
-/
import FatJar.Proofs.Merge.Policy
import FatJar.Proofs.Merge.Resolution

namespace FatJar

open Outcome

/-! ## 1. Repeats -/

namespace Occurrence

/-- Whether the entry is a directory. -/
def isDirectory (o : Occurrence) : Bool := o.entry.kind == .directory

/-- The occurrences whose name has been `seen` or occurs earlier in the list. -/
def repeatsAfter (seen : List String) : List Occurrence → List Occurrence
  | [] => []
  | o :: rest =>
    if o.name ∈ seen then o :: repeatsAfter (o.name :: seen) rest
    else repeatsAfter (o.name :: seen) rest

/-- The occurrences that are not the first of their name. -/
def repeats (occurrences : List Occurrence) : List Occurrence :=
  repeatsAfter [] occurrences

variable {occurrences : List Occurrence} {o : Occurrence}

theorem repeatsAfter_append (seen : List String) (o : Occurrence) :
    repeatsAfter seen (occurrences ++ [o]) = repeatsAfter seen occurrences ++
      if o.name ∈ seen ∨ o.name ∈ occurrences.map (·.name) then [o] else [] := by
  induction occurrences generalizing seen with
  | nil => simp [repeatsAfter]
  | cons first rest ih =>
    have hseen : (o.name ∈ first.name :: seen ∨ o.name ∈ rest.map (·.name)) ↔
        (o.name ∈ seen ∨ o.name ∈ (first :: rest).map (·.name)) := by
      simp only [List.mem_cons, List.map_cons]
      grind
    simp only [List.cons_append, repeatsAfter, ih, hseen]
    split
    · simp
    · rfl

/-- A further occurrence of a name is a repeat. -/
theorem repeats_append_known (h : o.name ∈ occurrences.map (·.name)) :
    repeats (occurrences ++ [o]) = repeats occurrences ++ [o] := by
  simp [repeats, repeatsAfter_append, h]

/-- The first occurrence of a name is none. -/
theorem repeats_append_new (h : o.name ∉ occurrences.map (·.name)) :
    repeats (occurrences ++ [o]) = repeats occurrences := by
  simp only [repeats, repeatsAfter_append, List.not_mem_nil, false_or, h, if_false,
    List.append_nil]

/-- An occurrence is of the one kind or of the other. -/
theorem length_eq_kinds (occurrences : List Occurrence) :
    occurrences.length = occurrences.countP isFile + occurrences.countP isDirectory := by
  rw [List.length_eq_countP_add_countP isFile]
  congr 1
  apply List.countP_congr
  intro o _
  cases hkind : o.entry.kind <;> simp [isFile, isDirectory, hkind]

end Occurrence

open Occurrence

/-! ## 2. Names -/

/-- No name is both that of the manifest and that of its directory. -/
theorem Manifest.isDirectory_of_isPath {name : String} (h : isPath name = true) :
    isDirectory name = false := by
  have hlower : Text.lowercase name = Text.lowercase path := by
    simpa [isPath, Text.sameIgnoringCase] using h
  rw [isDirectory, Text.sameIgnoringCase, hlower]
  decide

namespace Bundler

/-- Whether a pattern leaves out entries of the name; the manifest and its directory are not looked
at. -/
def leavesOut (b : Bundler) (name : String) : Bool :=
  !Manifest.isPath name && !Manifest.isDirectory name && b.isExcluded name

/-- Every occurrence is a manifest, the manifest's directory, left out, or survives. -/
theorem length_eq_fates (b : Bundler) (occurrences : List Occurrence) :
    occurrences.length =
      occurrences.countP (fun o => Manifest.isPath o.name) +
      occurrences.countP (fun o => Manifest.isDirectory o.name) +
      occurrences.countP (fun o => b.leavesOut o.name) +
      (occurrences.filter fun o => b.survives o.name).length := by
  induction occurrences with
  | nil => rfl
  | cons o rest ih =>
    simp only [List.length_cons, List.countP_cons, List.filter_cons, ih, leavesOut, survives]
    cases hpath : Manifest.isPath o.name with
    | true =>
      simp [Manifest.isDirectory_of_isPath hpath]
      omega
    | false =>
      cases Manifest.isDirectory o.name <;> cases b.isExcluded o.name <;> simp <;> omega

end Bundler

/-! ## 3. The invariant -/

namespace MergeTable

/-- The number of entries of a kind. -/
def ofKind (t : MergeTable) (kind : EntryKind) : Nat :=
  t.entries.countP (·.kind == kind)

variable {t : MergeTable} {kind : EntryKind}

@[simp]
theorem ofKind_append (e : MergedEntry) :
    (t.append e).ofKind kind = t.ofKind kind + if e.kind = kind then 1 else 0 := by
  simp [ofKind, append, List.countP_cons]

/-- Another payload is no other kind. -/
theorem ofKind_replace (name : String) (payload : Bytes) (source : Nat) :
    (t.replace name payload source).ofKind kind = t.ofKind kind := by
  have hshape : ∀ u : MergeTable, u.ofKind kind = u.shape.countP (·.2 == kind) := fun u => by
    simp [ofKind, shape, List.countP_map, Function.comp_def]
  rw [hshape, hshape, SameShape.shape_replace]

/-- The entries of both kinds are all entries. -/
theorem length_eq_ofKind (t : MergeTable) :
    t.entries.length = t.ofKind .file + t.ofKind .directory := by
  rw [List.length_eq_countP_add_countP (fun e : MergedEntry => e.kind == .file)]
  congr 1
  apply List.countP_congr
  intro e _
  cases hkind : e.kind <;> simp

end MergeTable

/-- The table has an entry for each of the occurrences that is no repeat, kind by kind, and has
counted the files among the repeats. -/
structure Settles (occurrences : List Occurrence) (t : MergeTable) : Prop where
  files : occurrences.countP isFile = t.ofKind .file + (repeats occurrences).countP isFile
  directories : occurrences.countP isDirectory =
    t.ofKind .directory + (repeats occurrences).countP isDirectory
  duplicates : t.duplicates = (repeats occurrences).countP isFile

namespace Settles

variable {occurrences : List Occurrence} {o : Occurrence} {t t' : MergeTable}

theorem nil : Settles [] .empty := ⟨rfl, rfl, rfl⟩

/-- An occurrence of a new name makes an entry of its kind. -/
theorem append_new (h : Settles occurrences t) (hnew : o.name ∉ occurrences.map (·.name)) :
    Settles (occurrences ++ [o]) (t.append ⟨o.name, o.entry.kind, o.entry.payload, o.source⟩) := by
  have hfiles := h.files
  have hdirectories := h.directories
  refine ⟨?_, ?_, ?_⟩
  · cases hkind : o.entry.kind <;> simp [repeats_append_new hnew, isFile, hkind] <;> omega
  · cases hkind : o.entry.kind <;> simp [repeats_append_new hnew, isDirectory, hkind] <;> omega
  · rw [repeats_append_new hnew]
    exact h.duplicates

/-- A directory of a known name is a repeat that is not counted. -/
theorem append_directory (h : Settles occurrences t) (hknown : o.name ∈ occurrences.map (·.name))
    (hkind : o.entry.kind = .directory) : Settles (occurrences ++ [o]) t := by
  have hdirectories := h.directories
  refine ⟨?_, ?_, ?_⟩
  · simpa [repeats_append_known hknown, isFile, hkind] using h.files
  · simp [repeats_append_known hknown, isDirectory, hkind]
    omega
  · simpa [repeats_append_known hknown, isFile, hkind] using h.duplicates

/-- A file of a known name is a repeat that is counted; no entry changes its kind. -/
theorem append_file (h : Settles occurrences t) (hknown : o.name ∈ occurrences.map (·.name))
    (hkind : o.entry.kind = .file) (hkept : ∀ kind, t'.ofKind kind = t.ofKind kind)
    (hcounted : t'.duplicates = t.duplicates + 1) : Settles (occurrences ++ [o]) t' := by
  have hfiles := h.files
  have hduplicates := h.duplicates
  refine ⟨?_, ?_, ?_⟩
  · simp [repeats_append_known hknown, isFile, hkind, hkept]
    omega
  · simpa [repeats_append_known hknown, isDirectory, hkind, hkept] using h.directories
  · simp [repeats_append_known hknown, isFile, hkind, hcounted]
    omega

/-- Adding an entry that survives settles one more occurrence. -/
theorem add {policy : DuplicatePolicy} (hadd : t.add policy o.source o.entry = .ok t')
    (htable : Tabulates policy occurrences t.entries) (h : Settles occurrences t) :
    Settles (occurrences ++ [o]) t' := by
  obtain ⟨hnone, rfl⟩ | ⟨hsome, hkind, rfl⟩ | ⟨hsome, hkind, -, rfl⟩ | ⟨hsome, hkind, -, rfl⟩ :=
    MergeTable.add_cases hadd
  · exact h.append_new fun hmem =>
      MergeTable.find?_eq_none_iff.mp hnone (htable.mem_names.mpr hmem)
  · exact h.append_directory (htable.mem_names.mp (MergeTable.find?_isSome_iff.mp hsome)) hkind
  · exact h.append_file (htable.mem_names.mp (MergeTable.find?_isSome_iff.mp hsome)) hkind
      (fun _ => rfl) rfl
  · exact h.append_file (htable.mem_names.mp (MergeTable.find?_isSome_iff.mp hsome)) hkind
      (fun kind => MergeTable.ofKind_replace _ _ _) rfl

end Settles

/-- Only entries and duplicates count for what is settled. -/
theorem Settles.congr {occurrences : List Occurrence} {t t' : MergeTable}
    (h : Settles occurrences t) (hentries : t'.entries = t.entries)
    (hduplicates : t'.duplicates = t.duplicates) : Settles occurrences t' := by
  have hkinds : ∀ kind, t'.ofKind kind = t.ofKind kind := fun kind => by
    rw [MergeTable.ofKind, hentries, MergeTable.ofKind]
  exact ⟨by rw [hkinds, h.files], by rw [hkinds, h.directories], hduplicates.trans h.duplicates⟩

/-- Adding an entry changes no count but that of the duplicates. -/
theorem MergeTable.add_stats {t t' : MergeTable} {policy : DuplicatePolicy} {source : Nat}
    {e : Entry} (h : t.add policy source e = .ok t') :
    t'.stats.manifestsReplaced = t.stats.manifestsReplaced ∧
      t'.stats.excluded = t.stats.excluded := by
  obtain ⟨-, rfl⟩ | ⟨-, -, rfl⟩ | ⟨-, -, -, rfl⟩ | ⟨-, -, -, rfl⟩ := add_cases h <;>
    exact ⟨rfl, rfl⟩

namespace Bundler

variable {b : Bundler} {source : Nat} {label : String} {seen : List String} {e : Entry}
  {t t' : MergeTable}

/-- An entry is counted as a manifest or as left out exactly when its name says so. -/
theorem take_stats (h : b.take source label seen e t = .ok t') :
    t'.stats.manifestsReplaced =
      t.stats.manifestsReplaced + (if Manifest.isPath e.name then 1 else 0) ∧
    t'.stats.excluded = t.stats.excluded + (if b.leavesOut e.name then 1 else 0) := by
  obtain ⟨-, ⟨hpath, rfl⟩ | ⟨hpath, hdirectory, rfl⟩ | ⟨hpath, hdirectory, hexcluded, rfl⟩ |
    ⟨hsurvives, hadd⟩⟩ := take_cases h
  · simp [MergeTable.countManifest, leavesOut, hpath]
  · simp [leavesOut, hpath, hdirectory]
  · simp [MergeTable.countExcluded, leavesOut, hpath, hdirectory, hexcluded]
  · obtain ⟨hpath, hdirectory, hexcluded⟩ := survives_iff.mp hsurvives
    simpa [leavesOut, hpath, hexcluded] using MergeTable.add_stats hadd

/-- An entry that does not survive is no duplicate. -/
theorem take_duplicates_of_not_survives (h : b.take source label seen e t = .ok t')
    (hs : b.survives e.name = false) : t'.duplicates = t.duplicates := by
  obtain ⟨-, ⟨-, rfl⟩ | ⟨-, -, rfl⟩ | ⟨-, -, -, rfl⟩ | ⟨hs', -⟩⟩ := take_cases h
  · rfl
  · rfl
  · rfl
  · rw [hs] at hs'
    cases hs'

end Bundler

/-- The table accounts for the occurrences that have been taken: it has counted the manifests and
what is left out, and has settled what survives. -/
structure Accounts (b : Bundler) (done : List Occurrence) (t : MergeTable) : Prop where
  manifests : t.stats.manifestsReplaced = done.countP fun o => Manifest.isPath o.name
  excluded : t.stats.excluded = done.countP fun o => b.leavesOut o.name
  survivors : Settles (done.filter fun o => b.survives o.name) t

namespace Accounts

variable {b : Bundler} {done : List Occurrence} {t t' : MergeTable}

/-- Taking an entry accounts for one more occurrence. -/
theorem take {source : Nat} {label : String} {seen : List String} {e : Entry}
    (htake : b.take source label seen e t = .ok t')
    (htable : Tabulates b.options.policy (done.filter fun o => b.survives o.name) t.entries)
    (h : Accounts b done t) : Accounts b (done ++ [⟨source, e⟩]) t' := by
  have hname : Occurrence.name ⟨source, e⟩ = e.name := rfl
  obtain ⟨hmanifests, hexcluded⟩ := Bundler.take_stats htake
  refine ⟨?_, ?_, ?_⟩
  · simp [hmanifests, h.manifests, hname, List.countP_cons]
  · simp [hexcluded, h.excluded, hname, List.countP_cons]
  · cases hs : b.survives e.name with
    | false =>
      have hkept := h.survivors.congr (Bundler.take_entries_of_not_survives htake hs)
        (Bundler.take_duplicates_of_not_survives htake hs)
      simpa [hname, hs] using hkept
    | true =>
      have hadded := h.survivors.add (o := ⟨source, e⟩)
        (Bundler.take_eq_add_of_survives htake hs) htable
      simpa [hname, hs] using hadded

end Accounts

/-! ## 4. Merged archives -/

theorem map_entry_occurrencesFrom (source : Nat) (inputs : List Archive) :
    (occurrencesFrom source inputs).map (·.entry) = inputs.flatMap (·.entries) := by
  induction inputs generalizing source with
  | nil => rfl
  | cons a rest ih => simp [occurrencesFrom, ih, Function.comp_def]

/-- Counting by names, it does not matter from which inputs the entries come. -/
theorem countP_occurrencesFrom (p : String → Bool) (inputs : List Archive) :
    (occurrencesFrom 0 inputs).countP (fun o => p o.name) =
      (inputs.flatMap (·.entries)).countP fun e => p e.name := by
  rw [← map_entry_occurrencesFrom 0 inputs, List.countP_map]
  rfl

namespace Bundler

variable {b : Bundler} {inputs : List Archive} {m : MergedArchive}

/-- The table at the end of a merge accounts for all entries of the inputs. -/
theorem accounts_of_merge (h : b.merge inputs = .ok m) :
    Accounts b (occurrencesFrom 0 inputs) ⟨m.entries, m.stats⟩ := by
  have hrun := merge_invariant
    (P := fun done t =>
      Tabulates b.options.policy (done.filter fun o => b.survives o.name) t.entries ∧
        Accounts b done t)
    (fun htake hdone => ⟨Tabulates.take htake hdone.1, Accounts.take htake hdone.1 hdone.2⟩)
    ⟨Tabulates.nil, rfl, rfl, Settles.nil⟩ h
  exact hrun.2

/-- **What becomes of the entries.** The counts of a merge are the number of entries that are
manifests, in any case, the number of those that a pattern leaves out, and the number of files that
survive but are not the first survivor of their name. With the merged entries, the manifests'
directories and the directories that are not the first survivor of their name, this is every entry
of the inputs, once. -/
theorem merge_counts (h : b.merge inputs = .ok m) :
    m.stats.manifestsReplaced =
      (inputs.flatMap (·.entries)).countP (fun e => Manifest.isPath e.name) ∧
    m.stats.excluded = (inputs.flatMap (·.entries)).countP (fun e =>
      !Manifest.isPath e.name && !Manifest.isDirectory e.name && b.isExcluded e.name) ∧
    m.stats.duplicatesResolved = (repeats (b.survivors inputs)).countP isFile ∧
    (inputs.flatMap (·.entries)).length =
      m.entries.length + m.stats.duplicatesResolved + m.stats.excluded +
        m.stats.manifestsReplaced +
        (inputs.flatMap (·.entries)).countP (fun e => Manifest.isDirectory e.name) +
        (repeats (b.survivors inputs)).countP isDirectory := by
  have haccounts := accounts_of_merge h
  have hcount : ∀ p : String → Bool, (inputs.flatMap (·.entries)).countP (fun e => p e.name) =
      (occurrencesFrom 0 inputs).countP (fun o => p o.name) := fun p => by
    rw [← map_entry_occurrencesFrom 0 inputs, List.countP_map]
    rfl
  have hlength : (inputs.flatMap (·.entries)).length = (occurrencesFrom 0 inputs).length := by
    rw [← map_entry_occurrencesFrom 0 inputs, List.length_map]
  have hmanifests := haccounts.manifests
  have hexcluded := haccounts.excluded
  have hduplicates := haccounts.survivors.duplicates
  refine ⟨by rw [hmanifests, hcount], by rw [hexcluded, ← hcount]; rfl, hduplicates, ?_⟩
  have hfates := length_eq_fates b (occurrencesFrom 0 inputs)
  have hkinds := length_eq_kinds (b.survivors inputs)
  have hentries := MergeTable.length_eq_ofKind ⟨m.entries, m.stats⟩
  have hfiles := haccounts.survivors.files
  have hdirectories := haccounts.survivors.directories
  rw [hlength, hcount]
  simp only [survivors, MergeTable.duplicates] at *
  omega

/-- Two inputs with an entry of each sort: the second has a directory, a file and a signature that
add nothing to the first. -/
def mixedInputs : List Archive :=
  [⟨"a.jar", [.directory "Meta-Inf", .file "META-INF/manifest.mf" [9], .directory "d",
    .file "x" [1]]⟩,
   ⟨"b.jar", [.directory "d", .file "x" [2], .file "a.SF" []]⟩]

/-- Of seven entries two are merged; each of the five others is in a count of its own. -/
theorem merge_counts_mixed :
    ∃ m, lastWinsBundler.merge mixedInputs = .ok m ∧ m.entries.map (·.name) = ["d/", "x"] ∧
      m.stats.manifestsReplaced = 1 ∧ m.stats.excluded = 1 ∧ m.stats.duplicatesResolved = 1 ∧
      7 = m.entries.length + m.stats.duplicatesResolved + m.stats.excluded +
        m.stats.manifestsReplaced + 1 + 1 := by
  have hmerge : lastWinsBundler.merge mixedInputs = .ok ⟨lastWinsBundler.manifest,
      [⟨"d/", .directory, [], 0⟩, ⟨"x", .file, [2], 1⟩], ⟨1, 1, 1⟩⟩ :=
    eq_ok_of_toOption (by decide +kernel)
  obtain ⟨hmanifests, hexcluded, hduplicates, htotal⟩ := merge_counts hmerge
  have hskipped : (mixedInputs.flatMap (·.entries)).countP
      (fun e => Manifest.isDirectory e.name) = 1 := by decide +kernel
  have hpassed : (repeats (lastWinsBundler.survivors mixedInputs)).countP isDirectory = 1 := by
    decide +kernel
  rw [hskipped, hpassed] at htotal
  refine ⟨_, hmerge, rfl, ?_, ?_, ?_, htotal⟩
  · rw [hmanifests]
    decide +kernel
  · rw [hexcluded]
    decide +kernel
  · rw [hduplicates]
    decide +kernel

end Bundler

end FatJar
