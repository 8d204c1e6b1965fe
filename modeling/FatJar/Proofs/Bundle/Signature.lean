/-
FatJar.Proofs.Bundle.Signature — signature files are left out by default.

The signatures of a signed archive are files in the manifest's directory, told by
their extension. Each of the patterns that count where none are given is a `*`
between that directory and one of the extensions, and so the names that are left out
are those of signature files, in the directory itself or anywhere below it
(`isExcluded_iff_isSignature`). None of them is the manifest or its directory, which
are looked at before the patterns, and so all of them are counted
(`merge_default_signatures`).

Contents:
1. the names of signature files;
2. the patterns that are read from the defaults;
3. signature files and the manifest;
4. merging.
-/
import FatJar.Proofs.Bundle.Listing
import FatJar.Proofs.Bundle.Options
import FatJar.Proofs.Glob.Matching
import FatJar.Proofs.Merge.Accounting

namespace FatJar

open Outcome

/-! ## 1. Names -/

/-- The extensions of signature files. -/
def signatureEndings : List String := [".SF", ".DSA", ".RSA", ".EC"]

/-- The name of a signature file. -/
def IsSignature (name : String) : Prop :=
  ∃ middle, ∃ ending ∈ signatureEndings, name = "META-INF/" ++ middle ++ ending

theorem isSignature_iff_exists {name : String} :
    IsSignature name ↔ ∃ ending ∈ signatureEndings, ∃ middle : List Char,
      name.toList = "META-INF/".toList ++ middle ++ ending.toList := by
  constructor
  · rintro ⟨middle, ending, hending, rfl⟩
    exact ⟨ending, hending, middle.toList, by simp only [String.toList_append]⟩
  · rintro ⟨ending, hending, middle, hname⟩
    refine ⟨String.ofList middle, ending, hending, String.toList_inj.mp ?_⟩
    simp [hname]

/-- The start of a name and its end can be looked at one after the other. -/
theorem isSignature_iff_prefix {name : String} :
    IsSignature name ↔ "META-INF/".toList <+: name.toList ∧
      ∃ ending ∈ signatureEndings, ending.toList <:+ name.toList.drop 9 := by
  rw [isSignature_iff_exists]
  constructor
  · rintro ⟨ending, hending, middle, hname⟩
    rw [hname, List.append_assoc]
    exact ⟨List.prefix_append .., ending, hending, List.suffix_append ..⟩
  · rintro ⟨⟨rest, hrest⟩, ending, hending, hend⟩
    rw [← hrest] at hend ⊢
    obtain ⟨middle, hmiddle⟩ : ending.toList <:+ rest := hend
    exact ⟨ending, hending, middle, by rw [List.append_assoc, hmiddle]⟩

instance : DecidablePred IsSignature :=
  fun _ => decidable_of_iff' _ isSignature_iff_prefix

/-! ## 2. Patterns -/

/-- The pattern for the signature files with an extension. -/
def signaturePattern (ending : String) : Glob.Pattern :=
  ⟨"META-INF/".toList.map .literal ++ .anySequence :: ending.toList.map .literal⟩

theorem signaturePattern_matches_iff (ending name : String) :
    (signaturePattern ending).matches name = true ↔
      ∃ middle, name.toList = "META-INF/".toList ++ middle ++ ending.toList :=
  (Glob.Pattern.matches_iff _ name).trans (Glob.matches_star_iff _ _)

theorem compileAll_defaultExcludes :
    Bundler.compileAll defaultExcludes = .ok (signatureEndings.map signaturePattern) :=
  eq_ok_of_toOption (by decide +kernel)

namespace Bundler

variable {options : BundleOptions} {b : Bundler}

theorem excludes_of_default (hdefault : options.exclude = defaultExcludes)
    (h : ofOptions options = .ok b) : b.excludes = signatureEndings.map signaturePattern := by
  have hexcludes := compileAll_of_forall₂ (made_of_ofOptions h).excludes
  rw [hdefault, compileAll_defaultExcludes] at hexcludes
  exact (Except.ok.inj hexcludes).symm

theorem isExcluded_iff_isSignature (hdefault : options.exclude = defaultExcludes)
    (h : ofOptions options = .ok b) (name : String) :
    b.isExcluded name = true ↔ IsSignature name := by
  rw [isExcluded, excludes_of_default hdefault h, List.any_map, List.any_eq_true,
    isSignature_iff_exists]
  simp only [Function.comp_apply, signaturePattern_matches_iff]

end Bundler

/-! ## 3. The manifest -/

/-- In any case, what a name ends in is the end of a name that is the same. -/
theorem Text.suffix_of_sameIgnoringCase {name ending other : String}
    (hending : ending.toList <:+ name.toList) (h : sameIgnoringCase name other = true) :
    ending.toList.map Char.toLower <:+ other.toList.map Char.toLower := by
  have hlower : name.toList.map Char.toLower = other.toList.map Char.toLower :=
    String.ofList_injective (beq_iff_eq.mp h)
  rw [← hlower]
  exact hending.map Char.toLower

/-- A signature file is neither the manifest nor its directory. -/
theorem IsSignature.not_manifest {name : String} (h : IsSignature name) :
    Manifest.isPath name = false ∧ Manifest.isDirectory name = false := by
  obtain ⟨ending, hending, middle, hname⟩ := isSignature_iff_exists.mp h
  have hsuffix : ending.toList <:+ name.toList := ⟨_, hname.symm⟩
  have hother : ∀ ending ∈ signatureEndings, ∀ other ∈ [Manifest.path, Manifest.directory],
      ¬ ending.toList.map Char.toLower <:+ other.toList.map Char.toLower := by decide +kernel
  constructor
  · exact Bool.eq_false_iff.mpr fun hpath =>
      hother ending hending _ (by simp) (Text.suffix_of_sameIgnoringCase hsuffix hpath)
  · exact Bool.eq_false_iff.mpr fun hdirectory =>
      hother ending hending _ (by simp) (Text.suffix_of_sameIgnoringCase hsuffix hdirectory)

/-! ## 4. Merging -/

namespace Bundler

variable {options : BundleOptions} {b : Bundler}

/-- **What is left out by default.** With the default patterns a name is left out exactly if it is
that of a signature file. No merged entry has such a name, and the count of what has been left out
is the number of entries of the inputs that have one. -/
theorem merge_default_signatures (hdefault : options.exclude = defaultExcludes)
    (h : ofOptions options = .ok b) :
    (∀ name, b.isExcluded name = true ↔ IsSignature name) ∧
    ∀ inputs m, b.merge inputs = .ok m →
      (∀ e ∈ m.entries, ¬ IsSignature e.name) ∧
      m.stats.excluded = (inputs.flatMap (·.entries)).countP fun e => IsSignature e.name := by
  have hexcluded := isExcluded_iff_isSignature hdefault h
  refine ⟨hexcluded, fun inputs m hmerge => ⟨fun e he hsignature => ?_, ?_⟩⟩
  · obtain ⟨-, -, hkept⟩ := survives_iff.mp (merge_survives hmerge he)
    rw [(hexcluded e.name).mpr hsignature] at hkept
    cases hkept
  · have hleaves : ∀ name, b.leavesOut name = decide (IsSignature name) := by
      intro name
      rw [Bool.eq_iff_iff, decide_eq_true_iff, ← hexcluded name, leavesOut]
      by_cases hsignature : IsSignature name
      · simp [hsignature.not_manifest]
      · simp [Bool.eq_false_iff.mpr (mt (hexcluded name).mp hsignature)]
    rw [(accounts_of_merge hmerge).excluded, countP_occurrencesFrom]
    simp only [hleaves]

/-- An input with signature files in and below the manifest's directory, and with files that are
none: one in small letters, one elsewhere and one that only starts like a signature file. -/
def defaultsInput : Archive :=
  ⟨"a.jar", [.file "META-INF/A.SF" [1], .file "META-INF/sub/b.RSA" [2], .file "META-INF/.EC" [],
    .file "META-INF/a.sf" [3], .file "x/META-INF/A.SF" [4], .file "META-INF/A.SF.txt" []]⟩

/-- Of six files three are left out, the one without a base name among them. -/
theorem merge_default_signatures_mixed :
    (BundleOptions.ofEntryPoint "App").exclude = defaultExcludes ∧
    ∃ b m, ofOptions (.ofEntryPoint "App") = .ok b ∧ b.merge [defaultsInput] = .ok m ∧
      b.isExcluded "META-INF/sub/b.RSA" = true ∧ b.isExcluded "META-INF/a.sf" = false ∧
      (∀ e ∈ m.entries, ¬ IsSignature e.name) ∧ m.stats.excluded = 3 ∧ m.entries.length = 3 := by
  have hrun : (ofOptions (.ofEntryPoint "App") >>= fun b => b.merge [defaultsInput]).toOption.map
      (·.entries.length) = some 3 := by decide +kernel
  obtain ⟨m, hm, hlength⟩ := Option.map_eq_some_iff.mp hrun
  obtain ⟨b, hb, hmerge⟩ := bind_eq_ok.mp (eq_ok_of_toOption hm)
  obtain ⟨hexcluded, hmerged⟩ := merge_default_signatures rfl hb
  obtain ⟨hentries, hcount⟩ := hmerged _ m hmerge
  refine ⟨rfl, b, m, hb, hmerge, ?_, ?_, hentries, ?_, hlength⟩
  · rw [hexcluded]
    decide +kernel
  · rw [Bool.eq_false_iff, Ne, hexcluded]
    decide +kernel
  · rw [hcount]
    decide +kernel

end Bundler

end FatJar
