/-
FatJar.Proofs.Merge.Policy — what the policy for duplicates decides, and what
it does not.

Under `firstWins` and `lastWins` a merge takes the same course: the tables have
the same names and kinds in the same order and the same counts, and only the
payloads and sources differ (`SameShape`). The two runs are followed in lockstep.

Under `error` the run cannot be followed to its end, since it stops at the first
duplicate. But a run that does not stop has met no duplicate, and then the policy
has never been asked: it succeeds exactly when a run under another policy does so
and has counted none (`merge_error_iff`).

Contents:
1. a bundler with another policy;
2. the first and the last one wins;
3. duplicates are errors;
4. the three policies.
-/
import FatJar.Proofs.Merge.Lockstep

namespace FatJar

open Outcome

/-! ## 1. Policies -/

namespace Bundler

/-- The bundler with another policy. -/
def withPolicy (b : Bundler) (policy : DuplicatePolicy) : Bundler :=
  { b with options := { b.options with policy } }

/-- Checking options does not look at the policy. -/
theorem ofOptions_withPolicy (options : BundleOptions) (policy : DuplicatePolicy) :
    ofOptions { options with policy } = (ofOptions options).map (·.withPolicy policy) := by
  have hmanifest : manifestOf { options with policy } = manifestOf options := rfl
  unfold ofOptions
  split
  · rfl
  · rw [hmanifest]
    cases manifestOf options with
    | error e => rfl
    | ok m =>
      cases compileAll options.exclude with
      | error e => rfl
      | ok patterns => rfl

end Bundler

/-! ## 2. The first and the last one wins -/

/-- The names and kinds of a table, in their order. -/
def MergeTable.shape (t : MergeTable) : List (String × EntryKind) :=
  t.entries.map fun e => (e.name, e.kind)

/-- Tables that differ in payloads and sources only. -/
structure SameShape (t u : MergeTable) : Prop where
  shape : t.shape = u.shape
  stats : t.stats = u.stats

namespace SameShape

variable {t u : MergeTable}

theorem names (h : SameShape t u) : t.entries.map (·.name) = u.entries.map (·.name) := by
  have hfst := congrArg (List.map Prod.fst) h.shape
  simpa [MergeTable.shape, Function.comp_def] using hfst

theorem append (h : SameShape t u) (e : MergedEntry) : SameShape (t.append e) (u.append e) where
  shape := by
    have hshape := h.shape
    simp only [MergeTable.shape] at hshape
    simp [MergeTable.shape, MergeTable.append, hshape]
  stats := h.stats

theorem shape_replace (name : String) (payload : Bytes) (source : Nat) :
    (u.replace name payload source).shape = u.shape := by
  simp only [MergeTable.shape, MergeTable.replace, List.map_map]
  apply List.map_congr_left
  intro e _
  simp only [Function.comp_apply]
  split <;> rfl

theorem countDuplicate (h : SameShape t u) : SameShape t.countDuplicate u.countDuplicate where
  shape := h.shape
  stats := by simp [MergeTable.countDuplicate, h.stats]

theorem countDuplicate_replace (h : SameShape t u) (name : String) (payload : Bytes)
    (source : Nat) :
    SameShape t.countDuplicate (u.replace name payload source).countDuplicate where
  shape := by
    rw [show t.countDuplicate.shape = t.shape from rfl, h.shape,
      ← shape_replace name payload source]
    rfl
  stats := h.countDuplicate.stats

theorem add (h : SameShape t u) (source : Nat) (e : Entry) :
    Alike Eq SameShape (t.add .firstWins source e) (u.add .lastWins source e) := by
  refine MergeTable.add_alike h.names (h.append _) h ?_
  intro earlier other ht hu hkind
  simp only [MergeTable.add, ht, hu, hkind]
  exact h.countDuplicate_replace e.name e.payload source

end SameShape

/-- The number of duplicates that a table has counted. -/
def MergeTable.duplicates (t : MergeTable) : Nat := t.stats.duplicatesResolved

namespace Bundler

theorem lockstep_sameShape (b : Bundler) :
    Lockstep (b.withPolicy .firstWins) (b.withPolicy .lastWins) 0 Eq SameShape where
  excluded := fun _ => rfl
  fault := fun _ _ _ => rfl
  countManifest := fun h => ⟨h.shape, by simp [MergeTable.countManifest, h.stats]⟩
  countExcluded := fun h => ⟨h.shape, by simp [MergeTable.countExcluded, h.stats]⟩
  add := fun source e h => h.add source e

/-! ## 3. Duplicates are errors -/

variable {b : Bundler} {policy : DuplicatePolicy} {source : Nat} {label : String}
  {seen : List String} {t t' : MergeTable}

theorem duplicates_le_add {e : Entry} (h : t.add policy source e = .ok t') :
    t.duplicates ≤ t'.duplicates := by
  obtain ⟨-, rfl⟩ | ⟨-, -, rfl⟩ | ⟨-, -, -, rfl⟩ | ⟨-, -, -, rfl⟩ := MergeTable.add_cases h
  · exact Nat.le_refl _
  · exact Nat.le_refl _
  · exact Nat.le_succ _
  · exact Nat.le_succ _

theorem duplicates_le_take {e : Entry} (h : b.take source label seen e t = .ok t') :
    t.duplicates ≤ t'.duplicates := by
  obtain ⟨-, ⟨-, rfl⟩ | ⟨-, -, rfl⟩ | ⟨-, -, -, rfl⟩ | ⟨-, hadd⟩⟩ := take_cases h
  · exact Nat.le_refl _
  · exact Nat.le_refl _
  · exact Nat.le_refl _
  · exact duplicates_le_add hadd

theorem duplicates_le_takeEntries {entries : List Entry}
    (h : b.takeEntries source label seen entries t = .ok t') : t.duplicates ≤ t'.duplicates := by
  induction entries generalizing seen t with
  | nil =>
    cases h
    exact Nat.le_refl _
  | cons e rest ih =>
    obtain ⟨next, htake, hrest⟩ := bind_eq_ok.mp h
    exact Nat.le_trans (duplicates_le_take htake) (ih hrest)

theorem duplicates_le_takeArchives {inputs : List Archive}
    (h : b.takeArchives source inputs t = .ok t') : t.duplicates ≤ t'.duplicates := by
  induction inputs generalizing source t with
  | nil =>
    cases h
    exact Nat.le_refl _
  | cons a rest ih =>
    obtain ⟨next, hentries, hrest⟩ := bind_eq_ok.mp h
    exact Nat.le_trans (duplicates_le_takeEntries hentries) (ih hrest)

/-- An entry that is added without an error is no duplicate, so any policy adds it in this way. -/
theorem add_error_iff {e : Entry} (hpolicy : policy ≠ .error) :
    t.add .error source e = .ok t' ↔
      t.add policy source e = .ok t' ∧ t'.duplicates = t.duplicates := by
  unfold MergeTable.add
  cases t.find? e.name with
  | none =>
    simp only [Except.ok.injEq, iff_self_and]
    rintro rfl
    rfl
  | some earlier =>
    cases e.kind with
    | directory =>
      simp only [Except.ok.injEq, iff_self_and]
      rintro rfl
      rfl
    | file =>
      -- here the policy is asked, and what counts a duplicate is told by the count
      cases policy with
      | error => exact absurd rfl hpolicy
      | firstWins =>
        simp only [Except.ok.injEq, reduceCtorEq, false_iff, not_and]
        rintro rfl
        simp [MergeTable.duplicates, MergeTable.countDuplicate]
      | lastWins =>
        simp only [Except.ok.injEq, reduceCtorEq, false_iff, not_and]
        rintro rfl
        simp [MergeTable.duplicates, MergeTable.countDuplicate, MergeTable.replace]

theorem take_error_iff {e : Entry} (hpolicy : policy ≠ .error) :
    (b.withPolicy .error).take source label seen e t = .ok t' ↔
      (b.withPolicy policy).take source label seen e t = .ok t' ∧
        t'.duplicates = t.duplicates := by
  unfold take
  cases entryFault? seen e with
  | some fault => simp
  | none =>
    have hexcluded : ∀ p, (b.withPolicy p).isExcluded e.name = b.isExcluded e.name := fun _ => rfl
    simp only [hexcluded]
    split
    · simp only [Except.ok.injEq, iff_self_and]
      rintro rfl
      rfl
    · split
      · simp only [Except.ok.injEq, iff_self_and]
        rintro rfl
        rfl
      · split
        · simp only [Except.ok.injEq, iff_self_and]
          rintro rfl
          rfl
        · exact add_error_iff hpolicy

theorem takeEntries_error_iff (hpolicy : policy ≠ .error) {entries : List Entry} :
    (b.withPolicy .error).takeEntries source label seen entries t = .ok t' ↔
      (b.withPolicy policy).takeEntries source label seen entries t = .ok t' ∧
        t'.duplicates = t.duplicates := by
  induction entries generalizing seen t with
  | nil =>
    simp only [takeEntries, Except.ok.injEq, iff_self_and]
    rintro rfl
    rfl
  | cons e rest ih =>
    simp only [takeEntries, bind_eq_ok, take_error_iff hpolicy, ih]
    constructor
    · rintro ⟨next, ⟨htake, hnext⟩, hrest, hdone⟩
      exact ⟨⟨next, htake, hrest⟩, hdone.trans hnext⟩
    · -- a count that is the same at the end was never raised in between
      rintro ⟨⟨next, htake, hrest⟩, hdone⟩
      have hfirst := duplicates_le_take htake
      have hlater := duplicates_le_takeEntries hrest
      exact ⟨next, ⟨htake, by omega⟩, hrest, by omega⟩

theorem takeArchives_error_iff (hpolicy : policy ≠ .error) {inputs : List Archive} :
    (b.withPolicy .error).takeArchives source inputs t = .ok t' ↔
      (b.withPolicy policy).takeArchives source inputs t = .ok t' ∧
        t'.duplicates = t.duplicates := by
  induction inputs generalizing source t with
  | nil =>
    simp only [takeArchives, Except.ok.injEq, iff_self_and]
    rintro rfl
    rfl
  | cons a rest ih =>
    simp only [takeArchives, bind_eq_ok, takeEntries_error_iff hpolicy, ih]
    constructor
    · rintro ⟨next, ⟨hentries, hnext⟩, hrest, hdone⟩
      exact ⟨⟨next, hentries, hrest⟩, hdone.trans hnext⟩
    · rintro ⟨⟨next, hentries, hrest⟩, hdone⟩
      have hfirst := duplicates_le_takeEntries hentries
      have hlater := duplicates_le_takeArchives hrest
      exact ⟨next, ⟨hentries, by omega⟩, hrest, by omega⟩

/-- A merge in which duplicates are errors is one in which another policy has nothing to do. -/
theorem merge_error_iff (policy : DuplicatePolicy) (hpolicy : policy ≠ .error)
    {inputs : List Archive} {m : MergedArchive} :
    (b.withPolicy .error).merge inputs = .ok m ↔
      (b.withPolicy policy).merge inputs = .ok m ∧ m.stats.duplicatesResolved = 0 := by
  unfold merge
  split
  · simp
  · simp only [bind_eq_ok, takeArchives_error_iff hpolicy]
    constructor
    · rintro ⟨t, ⟨hrun, hnone⟩, hm⟩
      cases hm
      exact ⟨⟨t, hrun, rfl⟩, hnone⟩
    · rintro ⟨⟨t, hrun, hm⟩, hnone⟩
      cases hm
      exact ⟨t, ⟨hrun, hnone⟩, rfl⟩

/-! ## 4. The three policies -/

/-- Merges archives under options with the given policy. -/
def mergeUnder (options : BundleOptions) (policy : DuplicatePolicy) (inputs : List Archive) :
    Except BundleError MergedArchive := do
  (← ofOptions { options with policy }).merge inputs

/-- Only the policy of a bundler made from options depends on the policy. -/
theorem mergeUnder_eq (options : BundleOptions) (policy : DuplicatePolicy)
    (inputs : List Archive) :
    mergeUnder options policy inputs =
      (ofOptions options >>= fun b => (b.withPolicy policy).merge inputs) := by
  rw [mergeUnder, ofOptions_withPolicy]
  cases ofOptions options <;> rfl

/-- **What the policy decides.** Whether the first or the last one wins, the same inputs can be
merged, with the same error where they cannot, and the merged archives differ in payloads and
sources only. Where duplicates are errors, a merge succeeds exactly when it does so with the first
one winning and no duplicates resolved, and then the three policies give the same archive. -/
theorem mergeUnder_policies (options : BundleOptions) (inputs : List Archive) :
    (∀ e, mergeUnder options .firstWins inputs = .error e ↔
      mergeUnder options .lastWins inputs = .error e) ∧
    (∀ f l, mergeUnder options .firstWins inputs = .ok f →
      mergeUnder options .lastWins inputs = .ok l →
      f.entries.map (fun e => (e.name, e.kind)) = l.entries.map (fun e => (e.name, e.kind)) ∧
      f.stats = l.stats ∧ f.manifest = l.manifest) ∧
    (∀ m, mergeUnder options .error inputs = .ok m ↔
      mergeUnder options .firstWins inputs = .ok m ∧ m.stats.duplicatesResolved = 0) ∧
    (∀ m, mergeUnder options .error inputs = .ok m →
      mergeUnder options .lastWins inputs = .ok m) := by
  simp only [mergeUnder_eq]
  cases ofOptions options with
  | error e => simp [bind, Except.bind]
  | ok b =>
    have halike := b.lockstep_sameShape.merge ⟨rfl, rfl⟩ rfl inputs
    refine ⟨halike.error_iff, ?_, fun m => merge_error_iff .firstWins (by decide), ?_⟩
    · intro f l hf hl
      have hshape := halike.related hf hl
      obtain ⟨t, -, rfl⟩ := merge_eq_ok hf
      obtain ⟨u, -, rfl⟩ := merge_eq_ok hl
      exact ⟨hshape.shape, hshape.stats, rfl⟩
    · intro m hm
      exact ((merge_error_iff .lastWins (by decide)).mp hm).1

/-- Two inputs with a file of one name. -/
def clashingInputs : List Archive :=
  [⟨"a.jar", [.file "x" [1], .file "y" [2]]⟩, ⟨"b.jar", [.file "x" [3]]⟩]

/-- Here the policies differ: two payloads for `x`, and an error. -/
theorem mergeUnder_policies_clashing :
    ∃ f l, mergeUnder (.ofEntryPoint "A") .firstWins clashingInputs = .ok f ∧
      mergeUnder (.ofEntryPoint "A") .lastWins clashingInputs = .ok l ∧
      f.entries.map (·.payload) = [[1], [2]] ∧ l.entries.map (·.payload) = [[3], [2]] ∧
      f.entries.map (fun e => (e.name, e.kind)) = l.entries.map (fun e => (e.name, e.kind)) ∧
      f.stats = l.stats ∧
      ∀ m, mergeUnder (.ofEntryPoint "A") .error clashingInputs ≠ .ok m := by
  obtain ⟨-, hsame, herror, -⟩ := mergeUnder_policies (.ofEntryPoint "A") clashingInputs
  have hfirst : (mergeUnder (.ofEntryPoint "A") .firstWins clashingInputs).toOption.map
      (fun m => (m.entries.map (·.payload), m.stats.duplicatesResolved)) =
      some ([[1], [2]], 1) := by decide +kernel
  have hlast : (mergeUnder (.ofEntryPoint "A") .lastWins clashingInputs).toOption.map
      (fun m => m.entries.map (·.payload)) = some [[3], [2]] := by decide +kernel
  obtain ⟨f, hf, hfirst⟩ := Option.map_eq_some_iff.mp hfirst
  obtain ⟨l, hl, hlast⟩ := Option.map_eq_some_iff.mp hlast
  have hf := eq_ok_of_toOption hf
  have hl := eq_ok_of_toOption hl
  obtain ⟨hshape, hstats, -⟩ := hsame f l hf hl
  refine ⟨f, l, hf, hl, congrArg Prod.fst hfirst, hlast, hshape, hstats, ?_⟩
  intro m hm
  obtain ⟨hm, hnone⟩ := (herror m).mp hm
  have hone : f.stats.duplicatesResolved = 1 := congrArg Prod.snd hfirst
  rw [hf] at hm
  cases hm
  omega

end Bundler

end FatJar
