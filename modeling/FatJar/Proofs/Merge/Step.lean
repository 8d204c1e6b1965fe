/-
FatJar.Proofs.Merge.Step — what one entry does to a merge table.

Merging is two nested loops over archives and entries. Here they become one
list of occurrences, an entry each with the number of its input, and what a
single occurrence can do to the table is said once.

Contents:
1. occurrences, and which of them survive;
2. what a step can do: `take_cases` for any entry, `add_cases` for one that
   survives;
3. the run: what every step preserves holds of the whole merge
   (`merge_invariant`).
-/
import FatJar.Bundle.Merge
import FatJar.Proofs.Outcome

namespace FatJar

open Outcome

/-! ## 1. Occurrences -/

/-- An entry of an input, with the number of the input. -/
structure Occurrence where
  source : Nat
  entry : Entry
  deriving DecidableEq, Repr

namespace Occurrence

/-- The name of the entry. -/
def name (o : Occurrence) : String := o.entry.name

/-- Whether the entry is a file. -/
def isFile (o : Occurrence) : Bool := o.entry.kind == .file

end Occurrence

/-- The entries of archives in their order, the first archive being input `source`. -/
def occurrencesFrom (source : Nat) : List Archive → List Occurrence
  | [] => []
  | a :: rest => a.entries.map (⟨source, ·⟩) ++ occurrencesFrom (source + 1) rest

/-- The occurrences are the entries, each with the number of its archive. -/
theorem mem_occurrencesFrom_iff {o : Occurrence} {source : Nat} {inputs : List Archive} :
    o ∈ occurrencesFrom source inputs ↔
      ∃ i a, inputs[i]? = some a ∧ o.source = source + i ∧ o.entry ∈ a.entries := by
  induction inputs generalizing source with
  | nil => simp [occurrencesFrom]
  | cons a rest ih =>
    rw [occurrencesFrom, List.mem_append, ih]
    constructor
    · rintro (hhere | ⟨i, a', ha', hsource, he⟩)
      · obtain ⟨e, he, rfl⟩ := List.mem_map.mp hhere
        exact ⟨0, a, rfl, rfl, he⟩
      · exact ⟨i + 1, a', ha', by omega, he⟩
    · rintro ⟨i, a', ha', hsource, he⟩
      cases i with
      | zero =>
        obtain ⟨_, e⟩ := o
        cases ha'
        cases hsource
        exact .inl (List.mem_map_of_mem he)
      | succ i => exact .inr ⟨i, a', ha', by omega, he⟩

theorem entry_mem_of_mem_occurrencesFrom {o : Occurrence} {source : Nat} {inputs : List Archive}
    (h : o ∈ occurrencesFrom source inputs) : ∃ a ∈ inputs, o.entry ∈ a.entries := by
  obtain ⟨i, a, ha, -, he⟩ := mem_occurrencesFrom_iff.mp h
  exact ⟨a, List.mem_of_getElem? ha, he⟩

namespace Bundler

/-- Whether entries of the name get into the merged archive: they are neither the manifest nor its
directory, in any case, and no pattern leaves them out. -/
def survives (b : Bundler) (name : String) : Bool :=
  !Manifest.isPath name && !Manifest.isDirectory name && !b.isExcluded name

theorem survives_iff {b : Bundler} {name : String} :
    b.survives name = true ↔ Manifest.isPath name = false ∧ Manifest.isDirectory name = false ∧
      b.isExcluded name = false := by
  simp [survives, and_assoc]

/-- The entries of the inputs that survive, in their order. -/
def survivors (b : Bundler) (inputs : List Archive) : List Occurrence :=
  (occurrencesFrom 0 inputs).filter fun o => b.survives o.name

end Bundler

/-! ## 2. One step -/

namespace MergeTable

variable {t : MergeTable} {name : String}

theorem find?_isSome_iff : (t.find? name).isSome ↔ name ∈ t.entries.map (·.name) := by
  simp [find?]

theorem find?_eq_none_iff : t.find? name = none ↔ name ∉ t.entries.map (·.name) := by
  rw [← find?_isSome_iff]
  simp

end MergeTable

/-- Adding an entry that survives appends it, passes over a directory, or settles a duplicate. -/
theorem MergeTable.add_cases {t t' : MergeTable} {policy : DuplicatePolicy} {source : Nat}
    {e : Entry} (h : t.add policy source e = .ok t') :
    (t.find? e.name = none ∧ t' = t.append ⟨e.name, e.kind, e.payload, source⟩) ∨
    ((t.find? e.name).isSome ∧ e.kind = .directory ∧ t' = t) ∨
    ((t.find? e.name).isSome ∧ e.kind = .file ∧ policy = .firstWins ∧ t' = t.countDuplicate) ∨
    ((t.find? e.name).isSome ∧ e.kind = .file ∧ policy = .lastWins ∧
      t' = (t.replace e.name e.payload source).countDuplicate) := by
  unfold MergeTable.add at h
  cases hf : t.find? e.name with
  | none =>
    rw [hf] at h
    cases h
    exact .inl ⟨rfl, rfl⟩
  | some earlier =>
    rw [hf] at h
    cases hk : e.kind with
    | directory =>
      simp only [hk, Except.ok.injEq] at h
      exact .inr (.inl ⟨rfl, rfl, h.symm⟩)
    | file =>
      cases policy with
      | firstWins =>
        simp only [hk, Except.ok.injEq] at h
        exact .inr (.inr (.inl ⟨rfl, rfl, rfl, h.symm⟩))
      | lastWins =>
        simp only [hk, Except.ok.injEq] at h
        exact .inr (.inr (.inr ⟨rfl, rfl, rfl, h.symm⟩))
      | error => simp [hk] at h

namespace Bundler

variable {b : Bundler} {source : Nat} {label : String} {seen : List String} {e : Entry}
  {t t' : MergeTable}

/-- An entry that is taken has no fault, and it is counted as a manifest, passed over as the
manifest's directory, counted as left out, or added. -/
theorem take_cases (h : b.take source label seen e t = .ok t') :
    entryFault? seen e = none ∧
    ((Manifest.isPath e.name = true ∧ t' = t.countManifest) ∨
     (Manifest.isPath e.name = false ∧ Manifest.isDirectory e.name = true ∧ t' = t) ∨
     (Manifest.isPath e.name = false ∧ Manifest.isDirectory e.name = false ∧
      b.isExcluded e.name = true ∧ t' = t.countExcluded) ∨
     (b.survives e.name = true ∧ t.add b.options.policy source e = .ok t')) := by
  unfold take at h
  cases hfault : entryFault? seen e with
  | some fault => simp [hfault] at h
  | none =>
    simp only [hfault] at h
    refine ⟨rfl, ?_⟩
    cases hp : Manifest.isPath e.name with
    | true =>
      simp only [hp, if_true, Except.ok.injEq] at h
      exact .inl ⟨rfl, h.symm⟩
    | false =>
      cases hd : Manifest.isDirectory e.name with
      | true =>
        simp only [hp, hd, Bool.false_eq_true, if_false, if_true, Except.ok.injEq] at h
        exact .inr (.inl ⟨rfl, rfl, h.symm⟩)
      | false =>
        cases hx : b.isExcluded e.name with
        | true =>
          simp only [hp, hd, hx, Bool.false_eq_true, if_false, if_true, Except.ok.injEq] at h
          exact .inr (.inr (.inl ⟨rfl, rfl, rfl, h.symm⟩))
        | false =>
          simp only [hp, hd, hx, Bool.false_eq_true, if_false] at h
          exact .inr (.inr (.inr ⟨by simp [survives, hp, hd, hx], h⟩))

/-- An entry that does not survive leaves the entries of the table as they are. -/
theorem take_entries_of_not_survives (h : b.take source label seen e t = .ok t')
    (hs : b.survives e.name = false) : t'.entries = t.entries := by
  obtain ⟨-, ⟨-, rfl⟩ | ⟨-, -, rfl⟩ | ⟨-, -, -, rfl⟩ | ⟨hs', -⟩⟩ := take_cases h
  · rfl
  · rfl
  · rfl
  · rw [hs] at hs'
    cases hs'

/-- An entry that survives is added. -/
theorem take_eq_add_of_survives (h : b.take source label seen e t = .ok t')
    (hs : b.survives e.name = true) : t.add b.options.policy source e = .ok t' := by
  obtain ⟨hp, hd, hx⟩ := survives_iff.mp hs
  obtain ⟨-, ⟨hp', -⟩ | ⟨-, hd', -⟩ | ⟨-, -, hx', -⟩ | ⟨-, h⟩⟩ := take_cases h
  · rw [hp] at hp'; cases hp'
  · rw [hd] at hd'; cases hd'
  · rw [hx] at hx'; cases hx'
  · exact h

/-- A merge that succeeds has taken all archives; its manifest is the bundler's. -/
theorem merge_eq_ok {inputs : List Archive} {m : MergedArchive} (h : b.merge inputs = .ok m) :
    ∃ t, b.takeArchives 0 inputs .empty = .ok t ∧ m = ⟨b.manifest, t.entries, t.stats⟩ := by
  unfold merge at h
  split at h
  · cases h
  · obtain ⟨t, hrun, hm⟩ := bind_eq_ok.mp h
    cases hm
    exact ⟨t, hrun, rfl⟩

/-! ## 3. The run

`P done t` relates the occurrences that have been taken to the table. -/

section Run

variable {P : List Occurrence → MergeTable → Prop}

/-- What every entry preserves, an archive preserves. -/
theorem takeEntries_invariant
    (step : ∀ {source label seen e done t t'}, b.take source label seen e t = .ok t' →
      P done t → P (done ++ [⟨source, e⟩]) t') :
    ∀ {entries : List Entry} {seen : List String} {done : List Occurrence} {t t' : MergeTable},
      b.takeEntries source label seen entries t = .ok t' → P done t →
      P (done ++ entries.map (⟨source, ·⟩)) t' := by
  intro entries
  induction entries with
  | nil =>
    intro seen done t t' h hP
    cases h
    simpa using hP
  | cons e rest ih =>
    intro seen done t t' h hP
    obtain ⟨next, htake, hrest⟩ := bind_eq_ok.mp h
    have hnext := ih hrest (step htake hP)
    simpa using hnext

/-- What every entry preserves, a list of archives preserves. -/
theorem takeArchives_invariant
    (step : ∀ {source label seen e done t t'}, b.take source label seen e t = .ok t' →
      P done t → P (done ++ [⟨source, e⟩]) t') :
    ∀ {inputs : List Archive} {source : Nat} {done : List Occurrence} {t t' : MergeTable},
      b.takeArchives source inputs t = .ok t' → P done t →
      P (done ++ occurrencesFrom source inputs) t' := by
  intro inputs
  induction inputs with
  | nil =>
    intro source done t t' h hP
    cases h
    simpa [occurrencesFrom] using hP
  | cons a rest ih =>
    intro source done t t' h hP
    obtain ⟨next, hentries, hrest⟩ := bind_eq_ok.mp h
    have hnext := ih hrest (takeEntries_invariant step hentries hP)
    simpa [occurrencesFrom] using hnext

/-- What holds of the empty table and is preserved by every entry holds of a merged archive. -/
theorem merge_invariant {inputs : List Archive} {m : MergedArchive}
    (step : ∀ {source label seen e done t t'}, b.take source label seen e t = .ok t' →
      P done t → P (done ++ [⟨source, e⟩]) t')
    (start : P [] .empty) (h : b.merge inputs = .ok m) :
    P (occurrencesFrom 0 inputs) ⟨m.entries, m.stats⟩ := by
  obtain ⟨t, hrun, rfl⟩ := merge_eq_ok h
  simpa using takeArchives_invariant step hrun start

end Run

end Bundler

end FatJar
