/-
FatJar.Proofs.Merge.Refusal — which merges fail, and with which error.

A merge scans the entries of its inputs in their order. What stands before an
entry decides whether it offends: its name is not valid, it is repeated in its
archive, or, where duplicates are errors, an earlier archive holds it. A merge
fails exactly when it has no inputs or an entry offends, and the first such entry
alone decides the error (`merge_refuses_first`).

Contents:
1. positions, and which of them offend;
2. what the table says about earlier archives;
3. one entry, one archive, all archives;
4. merging.
-/
import FatJar.Proofs.Merge.Resolution

namespace FatJar

open Outcome

/-! ## 1. Positions -/

/-- Whether an archive has an entry of the name. -/
def Archive.holds (a : Archive) (name : String) : Bool :=
  (a.entries.map (·.name)).contains name

/-- An entry with what stands before it: the archives before its own, the label of its own, and the
entries before it there. -/
structure Position where
  before : List Archive
  label : String
  earlier : List Entry
  entry : Entry

namespace Position

/-- The positions of an archive's entries, of which the `earlier` ones have been passed. -/
def within (before : List Archive) (label : String) (earlier : List Entry) :
    List Entry → List Position
  | [] => []
  | e :: rest => ⟨before, label, earlier, e⟩ :: within before label (earlier ++ [e]) rest

/-- The positions of all entries, archive by archive. -/
def scan (before : List Archive) : List Archive → List Position
  | [] => []
  | a :: rest => within before a.label [] a.entries ++ scan (before ++ [a]) rest

/-- An entry offends if its name is not valid, if it has occurred earlier in the archive, or if
duplicates are errors and the entry is a file that would get into the merged archive, of which an
earlier archive has an entry of the name. -/
def Offends (b : Bundler) (p : Position) : Prop :=
  EntryName.fault? p.entry.name ≠ none ∨
  p.entry.name ∈ p.earlier.map (·.name) ∨
  b.options.policy = .error ∧ p.entry.kind = .file ∧ b.survives p.entry.name = true ∧
    ∃ a ∈ p.before, a.holds p.entry.name = true

instance (b : Bundler) (p : Position) : Decidable (p.Offends b) :=
  inferInstanceAs (Decidable (_ ∨ _ ∨ _))

/-- The error of an entry that offends. A clash names the earliest archive that holds the name and
the archive of the entry. -/
def refusal (p : Position) : BundleError :=
  match EntryName.fault? p.entry.name with
  | some fault => .malformedArchive p.before.length p.label (.badName fault)
  | none =>
    if p.entry.name ∈ p.earlier.map (·.name) then
      .malformedArchive p.before.length p.label (.repeated p.entry.name)
    else
      .duplicateEntry p.entry.name (p.before.findIdx (·.holds p.entry.name)) p.before.length

/-- What has been taken before an entry. -/
def taken (p : Position) : List Occurrence :=
  occurrencesFrom 0 p.before ++ p.earlier.map (⟨p.before.length, ·⟩)

end Position

/-! ## 2. The table -/

theorem occurrencesFrom_concat (source : Nat) (inputs : List Archive) (a : Archive) :
    occurrencesFrom source (inputs ++ [a]) =
      occurrencesFrom source inputs ++ a.entries.map (⟨source + inputs.length, ·⟩) := by
  induction inputs generalizing source with
  | nil => simp [occurrencesFrom]
  | cons first rest ih =>
    simp only [List.cons_append, occurrencesFrom, ih, List.length_cons, List.append_assoc]
    rw [Nat.add_right_comm, Nat.add_assoc]

/-- A name has an occurrence exactly when an archive holds it. -/
theorem mem_occurrencesFrom_names (source : Nat) (inputs : List Archive) (name : String) :
    name ∈ (occurrencesFrom source inputs).map (·.name) ↔ ∃ a ∈ inputs, a.holds name = true := by
  induction inputs generalizing source with
  | nil => simp [occurrencesFrom]
  | cons a rest ih =>
    have hhere : name ∈ (a.entries.map (Occurrence.mk source)).map (·.name) ↔
        a.holds name = true := by
      rw [List.map_map, Archive.holds, List.contains_iff_mem]
      rfl
    rw [occurrencesFrom, List.map_append, List.mem_append, hhere, ih]
    simp

/-- The first occurrence of a name is in the earliest archive that holds it. -/
theorem find?_occurrencesFrom {name : String} (source : Nat) {inputs : List Archive}
    (h : ∃ a ∈ inputs, a.holds name = true) :
    ∃ e, (occurrencesFrom source inputs).find? (fun o => o.name == name) =
      some ⟨source + inputs.findIdx (·.holds name), e⟩ := by
  induction inputs generalizing source with
  | nil => simp at h
  | cons a rest ih =>
    rw [occurrencesFrom, List.find?_append, List.find?_map, List.findIdx_cons]
    cases hholds : a.holds name with
    | true =>
      have hsome : (a.entries.find? fun e => e.name == name).isSome := by
        simpa [Archive.holds] using hholds
      obtain ⟨e, he⟩ := Option.isSome_iff_exists.mp hsome
      refine ⟨e, ?_⟩
      simp only [Function.comp_def, Occurrence.name, he]
      rfl
    | false =>
      have hnone : a.entries.find? (fun e => e.name == name) = none := by
        simpa [Archive.holds] using hholds
      obtain ⟨e, he⟩ := ih (source + 1) (by simpa [hholds] using h)
      refine ⟨e, ?_⟩
      simp only [Function.comp_def, Occurrence.name] at he ⊢
      simp only [hnone, Option.map_none, Option.none_or, he, cond_false]
      congr 2
      omega

namespace Tabulates

variable {b : Bundler} {p : Position} {t : MergeTable}

/-- A name that survives is in the table exactly when it has been taken. -/
theorem find?_isSome_iff_taken
    (h : Tabulates b.options.policy (p.taken.filter fun o => b.survives o.name) t.entries)
    (hsurvives : b.survives p.entry.name = true) :
    (t.find? p.entry.name).isSome ↔
      (∃ a ∈ p.before, a.holds p.entry.name = true) ∨
        p.entry.name ∈ p.earlier.map (·.name) := by
  have htaken : p.entry.name ∈ p.taken.map (·.name) ↔
      (∃ a ∈ p.before, a.holds p.entry.name = true) ∨
        p.entry.name ∈ p.earlier.map (·.name) := by
    rw [Position.taken, List.map_append, List.mem_append, mem_occurrencesFrom_names, List.map_map]
    rfl
  rw [MergeTable.find?_isSome_iff, h.mem_names, ← htaken]
  constructor
  · intro hmem
    obtain ⟨o, ho, hname⟩ := List.mem_map.mp hmem
    exact List.mem_map.mpr ⟨o, (List.mem_filter.mp ho).1, hname⟩
  · intro hmem
    obtain ⟨o, ho, hname⟩ := List.mem_map.mp hmem
    exact List.mem_map.mpr ⟨o, List.mem_filter.mpr ⟨ho, by rw [hname, hsurvives]⟩, hname⟩

/-- Where duplicates are errors, an entry of the table comes from the earliest archive that holds
its name. -/
theorem source_eq_findIdx {m : MergedEntry}
    (h : Tabulates b.options.policy (p.taken.filter fun o => b.survives o.name) t.entries)
    (hpolicy : b.options.policy = .error) (hsurvives : b.survives p.entry.name = true)
    (hholds : ∃ a ∈ p.before, a.holds p.entry.name = true)
    (hfind : t.find? p.entry.name = some m) :
    m.source = p.before.findIdx (·.holds p.entry.name) := by
  have hname : m.name = p.entry.name := by simpa using List.find?_some hfind
  have hresolved := h.resolved m (List.mem_of_find?_eq_some hfind)
  obtain ⟨e, hfirst⟩ := find?_occurrencesFrom 0 hholds
  have hnamed : Occurrence.named m.name (p.taken.filter fun o => b.survives o.name) =
      p.taken.filter fun o => o.name == p.entry.name := by
    rw [Occurrence.named, hname, List.filter_filter]
    apply List.filter_congr
    intro o _
    by_cases honame : o.name = p.entry.name
    · simp [honame, hsurvives]
    · simp [honame]
  have hhead : (Occurrence.named m.name (p.taken.filter fun o => b.survives o.name)).head? =
      some ⟨p.before.findIdx (·.holds p.entry.name), e⟩ := by
    rw [hnamed, List.head?_filter, Position.taken, List.find?_append, hfirst]
    simp
  cases hnamed : Occurrence.named m.name (p.taken.filter fun o => b.survives o.name) with
  | nil =>
    rw [hnamed] at hhead
    cases hhead
  | cons first later =>
    rw [hnamed, hpolicy] at hresolved
    rw [hnamed] at hhead
    cases hhead
    cases hresolved
    rfl

end Tabulates

/-! ## 3. Entries and archives -/

namespace Bundler

variable {b : Bundler}

/-- An entry without a fault that does not survive is passed over. -/
theorem failure?_take_of_not_survives {source : Nat} {label : String} {seen : List String}
    {e : Entry} {t : MergeTable} (hfault : entryFault? seen e = none)
    (hsurvives : b.survives e.name = false) : failure? (b.take source label seen e t) = none := by
  rw [take, hfault]
  simp only
  split
  · rfl
  · split
    · rfl
    · split
      · rfl
      · rename_i hpath hdirectory hexcluded
        simp [survives, hpath, hdirectory, hexcluded] at hsurvives

/-- An entry without a fault that survives is added. -/
theorem take_of_survives {source : Nat} {label : String} {seen : List String} {e : Entry}
    {t : MergeTable} (hfault : entryFault? seen e = none) (hsurvives : b.survives e.name = true) :
    b.take source label seen e t = t.add b.options.policy source e := by
  obtain ⟨hpath, hdirectory, hexcluded⟩ := survives_iff.mp hsurvives
  simp [take, hfault, hpath, hdirectory, hexcluded]

/-- An entry is refused exactly when it offends. -/
theorem failure?_take {p : Position} {seen : List String} {t : MergeTable}
    (h : Tabulates b.options.policy (p.taken.filter fun o => b.survives o.name) t.entries)
    (hseen : ∀ name, name ∈ seen ↔ name ∈ p.earlier.map (·.name)) :
    failure? (b.take p.before.length p.label seen p.entry t) =
      if p.Offends b then some p.refusal else none := by
  cases hvalid : EntryName.fault? p.entry.name with
  | some fault =>
    have hoffends : p.Offends b := .inl (by simp [hvalid])
    simp [take, entryFault?, hvalid, failure?, hoffends, Position.refusal]
  | none =>
    by_cases hrepeated : p.entry.name ∈ p.earlier.map (·.name)
    · have hoffends : p.Offends b := .inr (.inl hrepeated)
      have hmem : p.entry.name ∈ seen := (hseen _).mpr hrepeated
      rw [if_pos hoffends, Position.refusal, hvalid]
      simp only [take, entryFault?, hvalid, List.contains_eq_mem, hmem, decide_true, if_true,
        failure?, hrepeated]
    · have hmem : p.entry.name ∉ seen := fun hmem => hrepeated ((hseen _).mp hmem)
      have hfault : entryFault? seen p.entry = none := by simp [entryFault?, hvalid, hmem]
      -- what is left is a clash with an earlier archive
      have hoffends : p.Offends b ↔ b.options.policy = .error ∧ p.entry.kind = .file ∧
          b.survives p.entry.name = true ∧ ∃ a ∈ p.before, a.holds p.entry.name = true := by
        simp [Position.Offends, hvalid, hrepeated]
      cases hsurvives : b.survives p.entry.name with
      | false =>
        rw [failure?_take_of_not_survives hfault hsurvives, if_neg (by simp [hoffends, hsurvives])]
      | true =>
        have hfound := h.find?_isSome_iff_taken hsurvives
        simp only [hrepeated, or_false] at hfound
        rw [take_of_survives hfault hsurvives, MergeTable.add]
        cases hfind : t.find? p.entry.name with
        | none =>
          have hnone : ¬ ∃ a ∈ p.before, a.holds p.entry.name = true := by
            rw [← hfound, hfind]
            simp
          rw [if_neg fun hclash => hnone (hoffends.mp hclash).2.2.2]
          rfl
        | some m =>
          have hholds : ∃ a ∈ p.before, a.holds p.entry.name = true := by
            rw [← hfound, hfind]
            simp
          cases hkind : p.entry.kind with
          | directory =>
            rw [if_neg (by simp [hoffends, hkind])]
            rfl
          | file =>
            cases hpolicy : b.options.policy with
            | firstWins =>
              rw [if_neg (by simp [hoffends, hpolicy])]
              rfl
            | lastWins =>
              rw [if_neg (by simp [hoffends, hpolicy])]
              rfl
            | error =>
              rw [if_pos (hoffends.mpr ⟨hpolicy, hkind, hsurvives, hholds⟩), Position.refusal,
                hvalid]
              simp only [hrepeated, if_false, failure?,
                h.source_eq_findIdx hpolicy hsurvives hholds hfind]

/-- Taking entries fails at the first that offends. -/
theorem failure?_takeEntries (b : Bundler) (before : List Archive) (label : String)
    (entries : List Entry) :
    ∀ (earlier : List Entry) (seen : List String) (t : MergeTable),
      Tabulates b.options.policy
        ((occurrencesFrom 0 before ++ earlier.map (Occurrence.mk before.length)).filter fun o =>
          b.survives o.name) t.entries →
      (∀ name, name ∈ seen ↔ name ∈ earlier.map (·.name)) →
      failure? (b.takeEntries before.length label seen entries t) =
        ((Position.within before label earlier entries).find? (·.Offends b)).map
          Position.refusal := by
  induction entries with
  | nil =>
    intro earlier seen t _ _
    rfl
  | cons e rest ih =>
    intro earlier seen t htable hseen
    have hfailure := failure?_take (p := ⟨before, label, earlier, e⟩) htable hseen
    simp only at hfailure
    rw [Position.within, List.find?_cons, takeEntries]
    cases htake : b.take before.length label seen e t with
    | error err =>
      rw [htake] at hfailure
      split at hfailure
      · rename_i hoffends
        simp only [decide_eq_true hoffends, Option.map_some]
        exact hfailure
      · cases hfailure
    | ok next =>
      rw [htake] at hfailure
      split at hfailure
      · cases hfailure
      · rename_i hpasses
        simp only [decide_eq_false hpasses]
        refine ih _ _ _ ?_ ?_
        · have hnext := Tabulates.take htake htable
          simpa using hnext
        · intro name
          simp only [List.mem_cons, hseen, List.map_append, List.mem_append, List.map_cons,
            List.map_nil, List.not_mem_nil, or_false]
          exact or_comm

/-- Taking archives fails at the first entry that offends. -/
theorem failure?_takeArchives (b : Bundler) (inputs : List Archive) :
    ∀ (before : List Archive) (t : MergeTable),
      Tabulates b.options.policy ((occurrencesFrom 0 before).filter fun o => b.survives o.name)
        t.entries →
      failure? (b.takeArchives before.length inputs t) =
        ((Position.scan before inputs).find? (·.Offends b)).map Position.refusal := by
  induction inputs with
  | nil =>
    intro before t _
    rfl
  | cons a rest ih =>
    intro before t htable
    have hfailure := failure?_takeEntries b before a.label a.entries [] [] t
      (by simpa using htable) (by simp)
    rw [Position.scan, List.find?_append, takeArchives]
    cases htake : b.takeEntries before.length a.label [] a.entries t with
    | error err =>
      rw [htake] at hfailure
      obtain ⟨p, hp, hrefusal⟩ := Option.map_eq_some_iff.mp hfailure.symm
      rw [hp]
      exact congrArg some hrefusal.symm
    | ok next =>
      rw [htake] at hfailure
      rw [Option.map_eq_none_iff.mp hfailure.symm, Option.none_or]
      have hnext := takeEntries_invariant
        (P := fun done t =>
          Tabulates b.options.policy (done.filter fun o => b.survives o.name) t.entries)
        Tabulates.take htake htable
      have htable' : Tabulates b.options.policy
          ((occurrencesFrom 0 (before ++ [a])).filter fun o => b.survives o.name) next.entries := by
        rw [occurrencesFrom_concat, Nat.zero_add]
        exact hnext
      have hrest := ih (before ++ [a]) next htable'
      rw [List.length_append] at hrest
      exact hrest

/-! ## 4. Merging -/

theorem failure?_merge (b : Bundler) (inputs : List Archive) :
    failure? (b.merge inputs) =
      if inputs = [] then some .emptyInput
      else ((Position.scan [] inputs).find? (·.Offends b)).map Position.refusal := by
  have hrun := failure?_takeArchives b inputs [] .empty Tabulates.nil
  rw [merge]
  cases inputs with
  | nil => rfl
  | cons a rest =>
    rw [if_neg (by simp), if_neg (by simp), ← hrun, List.length_nil]
    cases b.takeArchives 0 (a :: rest) .empty with
    | error e => rfl
    | ok t => rfl

/-- A clash names an earlier archive first. -/
theorem first_lt_second_of_refusal {p : Position} {name : String} {first second : Nat}
    (hoffends : p.Offends b) (h : p.refusal = .duplicateEntry name first second) :
    first < second := by
  unfold Position.refusal at h
  split at h
  · cases h
  · rename_i hvalid
    split at h
    · cases h
    · rename_i hrepeated
      cases h
      rcases hoffends with hfault | hmem | ⟨-, -, -, a, ha, hholds⟩
      · exact absurd hvalid hfault
      · exact absurd hmem hrepeated
      · exact List.findIdx_lt_length_of_exists ⟨a, ha, hholds⟩

/-- The error of a merge is that of the first entry that offends. -/
theorem merge_eq_error_iff (b : Bundler) (inputs : List Archive) (err : BundleError) :
    b.merge inputs = .error err ↔
      inputs = [] ∧ err = .emptyInput ∨
      ∃ passed p later, Position.scan [] inputs = passed ++ p :: later ∧
        (∀ q ∈ passed, ¬ q.Offends b) ∧ p.Offends b ∧ err = p.refusal := by
  rw [← failure?_eq_some, failure?_merge]
  by_cases hempty : inputs = []
  · subst hempty
    simp [Position.scan, eq_comm]
  · simp only [hempty, if_false, false_and, false_or, Option.map_eq_some_iff,
      List.find?_eq_some_iff_append, decide_eq_true_eq, Bool.not_eq_true', decide_eq_false_iff_not]
    constructor
    · rintro ⟨p, ⟨hoffends, passed, later, hscan, hpassed⟩, rfl⟩
      exact ⟨passed, p, later, hscan, hpassed, hoffends, rfl⟩
    · rintro ⟨passed, p, later, hscan, hpassed, hoffends, rfl⟩
      exact ⟨p, ⟨hoffends, passed, later, hscan, hpassed⟩, rfl⟩

/-- **Which merges fail.** A merge fails exactly when it has no inputs or an entry offends. The
error is that of the first entry that offends, and nothing after that entry counts. A clash names
an archive before that of the entry. -/
theorem merge_refuses_first (b : Bundler) (inputs : List Archive) :
    ((∃ err, b.merge inputs = .error err) ↔
      inputs = [] ∨ ∃ p ∈ Position.scan [] inputs, p.Offends b) ∧
    (∀ err, b.merge inputs = .error err ↔
      inputs = [] ∧ err = .emptyInput ∨
      ∃ passed p later, Position.scan [] inputs = passed ++ p :: later ∧
        (∀ q ∈ passed, ¬ q.Offends b) ∧ p.Offends b ∧ err = p.refusal) ∧
    (∀ passed p later others later', Position.scan [] inputs = passed ++ p :: later →
      (∀ q ∈ passed, ¬ q.Offends b) → p.Offends b →
      Position.scan [] others = passed ++ p :: later' → b.merge others = b.merge inputs) ∧
    (∀ name first second, b.merge inputs = .error (.duplicateEntry name first second) →
      first < second) := by
  refine ⟨⟨?_, ?_⟩, merge_eq_error_iff b inputs, ?_, ?_⟩
  · rintro ⟨err, hmerge⟩
    rcases (merge_eq_error_iff b inputs err).mp hmerge with
      ⟨hempty, -⟩ | ⟨passed, p, later, hscan, -, hoffends, -⟩
    · exact .inl hempty
    · exact .inr ⟨p, by simp [hscan], hoffends⟩
  · rintro (rfl | ⟨p, hp, hoffends⟩)
    · exact ⟨.emptyInput, rfl⟩
    · obtain ⟨first, hfirst⟩ : ∃ first,
          (Position.scan [] inputs).find? (·.Offends b) = some first :=
        Option.isSome_iff_exists.mp (List.find?_isSome.mpr ⟨p, hp, decide_eq_true hoffends⟩)
      have hne : inputs ≠ [] := by
        rintro rfl
        cases hp
      refine ⟨first.refusal, failure?_eq_some.mp ?_⟩
      rw [failure?_merge, if_neg hne, hfirst]
      rfl
  · intro passed p later others later' hscan hpassed hoffends hothers
    rw [(merge_eq_error_iff b others _).mpr
        (.inr ⟨passed, p, later', hothers, hpassed, hoffends, rfl⟩),
      (merge_eq_error_iff b inputs _).mpr
        (.inr ⟨passed, p, later, hscan, hpassed, hoffends, rfl⟩)]
  · intro name first second hmerge
    rcases (merge_eq_error_iff b inputs _).mp hmerge with
      ⟨-, hempty⟩ | ⟨-, p, -, -, -, hoffends, hrefusal⟩
    · cases hempty
    · exact first_lt_second_of_refusal hoffends hrefusal.symm

end Bundler

end FatJar
