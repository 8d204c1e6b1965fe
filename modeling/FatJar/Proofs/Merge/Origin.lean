/-
FatJar.Proofs.Merge.Origin — where the entries of a merged archive come from.

A merged entry names an input as its source. That input has one entry of the
name, and its payload is that of the merged entry (`merge_entry_origin`). Its
kind is the same too, with one exception: where the last one wins, a file that
meets a directory of an earlier input hands over payload and source, but the
merged entry remains a directory.

Contents:
1. names are distinct in every input of a merge;
2. the occurrences of one name are in different inputs, in their order;
3. origins.
-/
import FatJar.Proofs.Merge.Resolution
import Mathlib.Data.List.Nodup

namespace FatJar

open Outcome

/-! ## 1. Distinct names -/

namespace Bundler

variable {b : Bundler} {source : Nat} {label : String} {seen : List String} {t t' : MergeTable}

/-- An entry that is taken has a name that has not been seen in its archive. -/
theorem not_mem_seen_of_take {e : Entry} (h : b.take source label seen e t = .ok t') :
    e.name ∉ seen := by
  have hfault := (take_cases h).1
  unfold entryFault? at hfault
  split at hfault
  · cases hfault
  · split at hfault
    · cases hfault
    · rename_i hseen
      simpa using hseen

theorem distinct_of_takeEntries {entries : List Entry}
    (h : b.takeEntries source label seen entries t = .ok t') :
    (entries.map (·.name)).Nodup ∧ ∀ e ∈ entries, e.name ∉ seen := by
  induction entries generalizing seen t with
  | nil => exact ⟨List.nodup_nil, nofun⟩
  | cons e rest ih =>
    obtain ⟨next, htake, hrest⟩ := bind_eq_ok.mp h
    obtain ⟨hnodup, hunseen⟩ := ih hrest
    -- the name of the first entry has been seen when the others are taken
    have hfirst : e.name ∉ rest.map (·.name) := by
      intro hmem
      obtain ⟨other, hother, hname⟩ := List.mem_map.mp hmem
      exact hunseen other hother (by simp [hname])
    refine ⟨List.nodup_cons.mpr ⟨hfirst, hnodup⟩, ?_⟩
    intro other hother
    rcases List.mem_cons.mp hother with rfl | hother
    · exact not_mem_seen_of_take htake
    · exact fun hmem => hunseen other hother (List.mem_cons_of_mem _ hmem)

theorem distinct_of_takeArchives {inputs : List Archive}
    (h : b.takeArchives source inputs t = .ok t') :
    ∀ a ∈ inputs, (a.entries.map (·.name)).Nodup := by
  induction inputs generalizing source t with
  | nil => exact nofun
  | cons a rest ih =>
    obtain ⟨next, hentries, hrest⟩ := bind_eq_ok.mp h
    intro a' ha'
    rcases List.mem_cons.mp ha' with rfl | ha'
    · exact (distinct_of_takeEntries hentries).1
    · exact ih hrest a' ha'

/-- In every input of a merge that succeeds the names are distinct. -/
theorem distinct_of_merge {inputs : List Archive} {m : MergedArchive}
    (h : b.merge inputs = .ok m) : ∀ a ∈ inputs, (a.entries.map (·.name)).Nodup := by
  obtain ⟨t, hrun, -⟩ := merge_eq_ok h
  exact distinct_of_takeArchives hrun

end Bundler

/-! ## 2. Occurrences of one name -/

/-- Two occurrences, the second of which is in a later archive if it has the name of the first. -/
def Occurrence.Apart (o o' : Occurrence) : Prop :=
  o.name = o'.name → o.source < o'.source

/-- Where names are distinct in every archive, a later occurrence of a name is in a later
archive. -/
theorem pairwise_occurrencesFrom {inputs : List Archive} (source : Nat)
    (h : ∀ a ∈ inputs, (a.entries.map (·.name)).Nodup) :
    (occurrencesFrom source inputs).Pairwise Occurrence.Apart := by
  induction inputs generalizing source with
  | nil => exact List.Pairwise.nil
  | cons a rest ih =>
    refine List.pairwise_append.mpr ⟨?_, ?_, ?_⟩
    · have hdistinct := List.pairwise_map.mp (h a List.mem_cons_self)
      exact List.pairwise_map.mpr (hdistinct.imp fun hne hname => absurd hname hne)
    · exact ih (source + 1) fun a' ha' => h a' (List.mem_cons_of_mem a ha')
    · intro o ho o' ho' _
      obtain ⟨e, -, rfl⟩ := List.mem_map.mp ho
      obtain ⟨i, -, -, hsource, -⟩ := mem_occurrencesFrom_iff.mp ho'
      simp only [hsource]
      omega

/-! ## 3. Origins -/

/-- The entry is in the archive, and no other there has the name. -/
structure Archive.HasOnly (a : Archive) (name : String) (x : Entry) : Prop where
  mem : x ∈ a.entries
  name_eq : x.name = name
  only : ∀ y ∈ a.entries, y.name = name → y = x

/-- A directory of the name is in an input before number `source`. -/
def DirectoryBefore (inputs : List Archive) (source : Nat) (name : String) : Prop :=
  ∃ i < source, ∃ a, inputs[i]? = some a ∧ ∃ d ∈ a.entries, d.name = name ∧ d.kind = .directory

namespace Bundler

variable {b : Bundler} {inputs : List Archive} {m : MergedArchive} {e : MergedEntry}

/-- An occurrence that survives is an entry of the input of its number. -/
theorem entry_mem_of_mem_survivors {o : Occurrence} (h : o ∈ b.survivors inputs) :
    ∃ a, inputs[o.source]? = some a ∧ o.entry ∈ a.entries := by
  obtain ⟨i, a, ha, hsource, he⟩ := mem_occurrencesFrom_iff.mp (List.mem_filter.mp h).1
  rw [Nat.zero_add] at hsource
  exact ⟨a, hsource ▸ ha, he⟩

/-- **Where a merged entry comes from.** The source of a merged entry is an input that has just one
entry of its name, and that one has its payload. It has its kind too, unless the last one wins, it
is a file, and a directory of the name in an earlier input has made the merged entry a
directory. -/
theorem merge_entry_origin (h : b.merge inputs = .ok m) (he : e ∈ m.entries) :
    ∃ a x, inputs[e.source]? = some a ∧ a.HasOnly e.name x ∧ x.payload = e.payload ∧
      (x.kind = e.kind ∨
        b.options.policy = .lastWins ∧ x.kind = .file ∧ e.kind = .directory ∧
          DirectoryBefore inputs e.source e.name) := by
  obtain ⟨first, later, kept, hnamed, hkind, hpayload, hsource, hkept⟩ :=
    (merge_tabulates h).origin he
  have hof : ∀ o ∈ first :: later, o ∈ b.survivors inputs ∧ o.name = e.name := fun o ho =>
    Occurrence.mem_named.mp (hnamed ▸ ho)
  have hmem : kept ∈ first :: later := by
    rcases hkept with rfl | ⟨-, hlater, -⟩
    · exact List.mem_cons_self
    · exact List.mem_cons_of_mem first hlater
  obtain ⟨hsurvivor, hname⟩ := hof kept hmem
  obtain ⟨a, ha, hentry⟩ := entry_mem_of_mem_survivors hsurvivor
  have hdistinct := distinct_of_merge h
  have honly : a.HasOnly e.name kept.entry := by
    refine ⟨hentry, hname, fun y hy hyname => ?_⟩
    exact List.inj_on_of_nodup_map (hdistinct a (List.mem_of_getElem? ha)) hy hentry
      (hyname.trans hname.symm)
  refine ⟨a, kept.entry, hsource ▸ ha, honly, hpayload, ?_⟩
  rcases hkept with rfl | ⟨hpolicy, hlater, hfile⟩
  · exact .inl hkind
  · have hfile' : kept.entry.kind = .file := by simpa [Occurrence.isFile] using hfile
    cases hkind' : e.kind with
    | file => exact .inl hfile'
    | directory =>
      refine .inr ⟨hpolicy, hfile', rfl, ?_⟩
      -- the first occurrence is the directory, and it is in an earlier input
      obtain ⟨hfirst, hfirstName⟩ := hof first List.mem_cons_self
      obtain ⟨a', ha', hentry'⟩ := entry_mem_of_mem_survivors hfirst
      have hpairs : (first :: later).Pairwise Occurrence.Apart := by
        rw [← hnamed]
        exact ((pairwise_occurrencesFrom 0 hdistinct).filter _).filter _
      have hbefore := List.rel_of_pairwise_cons hpairs hlater (hfirstName.trans hname.symm)
      exact ⟨first.source, hsource ▸ hbefore, a', ha', first.entry, hentry', hfirstName,
        hkind.trans hkind'⟩

/-- A directory in the first input, and a file of its name in the second. -/
def overtakenInputs : List Archive :=
  [⟨"a.jar", [.directory "x"]⟩, ⟨"b.jar", [.file "x/" [0x31]]⟩]

theorem merge_overtakenInputs :
    lastWinsBundler.merge overtakenInputs =
      .ok ⟨lastWinsBundler.manifest, [⟨"x/", .directory, [0x31], 1⟩], ⟨1, 0, 0⟩⟩ :=
  eq_ok_of_toOption (by decide +kernel)

/-- The entry of the second input that the merged one comes from is the file. -/
theorem merge_entry_origin_overtaken :
    ∃ m e a x, lastWinsBundler.merge overtakenInputs = .ok m ∧ e ∈ m.entries ∧
      overtakenInputs[e.source]? = some a ∧ a.HasOnly e.name x ∧ x.payload = e.payload ∧
      x.kind = .file ∧ e.kind = .directory ∧ DirectoryBefore overtakenInputs e.source e.name := by
  obtain ⟨a, x, ha, honly, hpayload, hkind⟩ :=
    merge_entry_origin merge_overtakenInputs List.mem_cons_self
  refine ⟨_, _, a, x, merge_overtakenInputs, List.mem_cons_self, ha, honly, hpayload, ?_⟩
  rcases hkind with hsame | ⟨-, hexception⟩
  · cases ha
    rw [List.mem_singleton.mp honly.mem] at hsame
    cases hsame
  · exact hexception

/-- No entry of the second input is the directory that the merged archive has from it. -/
theorem merge_overtakenInputs_unfaithful :
    ∃ m e, lastWinsBundler.merge overtakenInputs = .ok m ∧ e ∈ m.entries ∧
      ¬ ∃ a x, overtakenInputs[e.source]? = some a ∧ x ∈ a.entries ∧ x.name = e.name ∧
        x.kind = e.kind ∧ x.payload = e.payload := by
  refine ⟨_, _, merge_overtakenInputs, List.mem_cons_self, ?_⟩
  rintro ⟨a, x, ha, hx, -, hkind, -⟩
  cases ha
  rw [List.mem_singleton.mp hx] at hkind
  cases hkind

end Bundler

end FatJar
