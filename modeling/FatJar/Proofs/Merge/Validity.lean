/-
FatJar.Proofs.Merge.Validity — archives that can be merged.

An archive is valid if its names are safe and distinct. Nothing is wrong with an
entry of a valid archive when its turn comes, so valid archives can be merged
unless duplicates are errors (`exists_merge_of_isValid`).
-/
import FatJar.Proofs.Merge.Refusal

namespace FatJar

open Outcome

/-- The names of an archive are safe to unpack, and none occurs twice. -/
structure Archive.IsValid (a : Archive) : Prop where
  names : ∀ e ∈ a.entries, EntryName.fault? e.name = none
  distinct : (a.entries.map (·.name)).Nodup

instance (a : Archive) : Decidable a.IsValid :=
  decidable_of_iff
    ((∀ e ∈ a.entries, EntryName.fault? e.name = none) ∧ (a.entries.map (·.name)).Nodup)
    ⟨fun h => ⟨h.1, h.2⟩, fun h => ⟨h.names, h.distinct⟩⟩

namespace Position

/-- A position has the entries before it in front of it. -/
theorem exists_of_mem_within {p : Position} {before : List Archive} {label : String}
    {earlier entries : List Entry} (h : p ∈ within before label earlier entries) :
    ∃ passed rest, entries = passed ++ p.entry :: rest ∧ p.earlier = earlier ++ passed := by
  induction entries generalizing earlier with
  | nil => cases h
  | cons e rest ih =>
    rcases List.mem_cons.mp h with rfl | h
    · exact ⟨[], rest, rfl, (List.append_nil _).symm⟩
    · obtain ⟨passed, rest', hentries, hearlier⟩ := ih h
      exact ⟨e :: passed, rest', by simp [hentries], by simp [hearlier]⟩

/-- A position is in one of the archives. -/
theorem exists_of_mem_scan {p : Position} {before inputs : List Archive}
    (h : p ∈ scan before inputs) :
    ∃ a ∈ inputs, ∃ rest, a.entries = p.earlier ++ p.entry :: rest := by
  induction inputs generalizing before with
  | nil => cases h
  | cons a others ih =>
    rcases List.mem_append.mp h with hhere | hthere
    · obtain ⟨passed, rest, hentries, hearlier⟩ := exists_of_mem_within hhere
      exact ⟨a, List.mem_cons_self, rest, by simpa [hearlier] using hentries⟩
    · obtain ⟨a', ha', hentries⟩ := ih hthere
      exact ⟨a', List.mem_cons_of_mem a ha', hentries⟩

/-- In valid archives an entry offends only as a duplicate. -/
theorem not_offends_of_isValid {b : Bundler} {p : Position} {inputs : List Archive}
    (hvalid : ∀ a ∈ inputs, a.IsValid) (hpolicy : b.options.policy ≠ .error)
    (hp : p ∈ scan [] inputs) : ¬ p.Offends b := by
  obtain ⟨a, ha, rest, hentries⟩ := exists_of_mem_scan hp
  have hmem : p.entry ∈ a.entries := by simp [hentries]
  have hdistinct := (hvalid a ha).distinct
  rw [hentries, List.map_append, List.map_cons, List.nodup_append] at hdistinct
  rintro (hfault | hrepeated | ⟨herror, -⟩)
  · exact hfault ((hvalid a ha).names p.entry hmem)
  · exact hdistinct.2.2 _ hrepeated _ List.mem_cons_self rfl
  · exact hpolicy herror

end Position

/-- Valid archives can be merged unless duplicates are errors. -/
theorem Bundler.exists_merge_of_isValid {b : Bundler} {inputs : List Archive} (hne : inputs ≠ [])
    (hvalid : ∀ a ∈ inputs, a.IsValid) (hpolicy : b.options.policy ≠ .error) :
    ∃ m, b.merge inputs = .ok m := by
  rw [← failure?_eq_none, failure?_merge, if_neg hne, Option.map_eq_none_iff, List.find?_eq_none]
  intro p hp
  simpa using Position.not_offends_of_isValid hvalid hpolicy hp

end FatJar
