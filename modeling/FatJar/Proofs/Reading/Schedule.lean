/-
FatJar.Proofs.Reading.Schedule — reading on a pool is reading in turn.

However the workers' steps are interleaved, the inputs that they read give the
same answer as a loop over the inputs: the archives in their order, or the error
of the first input that cannot be read. Each input is claimed once and its
result is sent once, so nothing is out of range and nothing is missing.

Contents:
1. the answer of the loop: what success and failure mean;
2. results in order give that answer;
3. `readInputs_of_schedule`.
-/
import FatJar.Bundle.Reading
import FatJar.Proofs.Outcome
import FatJar.Proofs.Reading.Pool

namespace FatJar.Reading

open Outcome
open scoped List

variable {t : FileTree} {sources : List Source}

/-! ## 1. Reading in turn -/

/-- Reading in turn succeeds with the archives of all inputs, in their order. -/
theorem readInTurn_eq_ok_iff (index : Nat) (archives : List Archive) :
    readInTurn t index sources = .ok archives ↔
      sources.map (·.read t) = archives.map .ok := by
  induction sources generalizing index archives with
  | nil =>
    rw [readInTurn, List.map_nil, Except.ok.injEq, eq_comm, List.nil_eq, List.map_eq_nil_iff]
  | cons source rest ih =>
    rw [readInTurn, List.map_cons]
    cases hread : source.read t with
    | error e =>
      simp only [reduceCtorEq, false_iff]
      intro h
      cases archives with
      | nil => cases h
      | cons a others => cases (List.cons.inj h).1
    | ok archive =>
      constructor
      · intro h
        obtain ⟨others, hrest, heq⟩ := bind_eq_ok.mp h
        cases heq
        rw [(ih (index + 1) others).mp hrest, List.map_cons]
      · intro h
        cases archives with
        | nil => cases h
        | cons a others =>
          obtain ⟨hhead, htail⟩ := List.cons.inj h
          cases hhead
          exact bind_eq_ok.mpr ⟨others, (ih (index + 1) others).mpr htail, rfl⟩

/-- The input of a number cannot be read, and all before it can. -/
structure FirstFailure (t : FileTree) (sources : List Source) (i : Nat) (source : Source)
    (e : ReadError) : Prop where
  found : sources[i]? = some source
  fails : source.read t = .error e
  earlier : ∀ j < i, ∃ s a, sources[j]? = some s ∧ s.read t = .ok a

/-- The first input cannot be read. -/
theorem firstFailure_zero_iff {first source : Source} {e : ReadError} :
    FirstFailure t (first :: sources) 0 source e ↔ first = source ∧ first.read t = .error e := by
  constructor
  · intro h
    have hsource : first = source := by simpa using h.found
    exact ⟨hsource, hsource ▸ h.fails⟩
  · rintro ⟨rfl, hfails⟩
    exact ⟨rfl, hfails, fun j hj => absurd hj (Nat.not_lt_zero j)⟩

/-- The first input can be read, and a later one is the first that cannot. -/
theorem firstFailure_succ_iff {first source : Source} {e : ReadError} {i : Nat} :
    FirstFailure t (first :: sources) (i + 1) source e ↔
      (∃ a, first.read t = .ok a) ∧ FirstFailure t sources i source e := by
  constructor
  · intro h
    refine ⟨?_, by simpa using h.found, h.fails, ?_⟩
    · obtain ⟨s, a, hs, ha⟩ := h.earlier 0 (Nat.succ_pos i)
      cases hs
      exact ⟨a, ha⟩
    · intro j hj
      simpa using h.earlier (j + 1) (Nat.succ_lt_succ hj)
  · rintro ⟨⟨a, ha⟩, h⟩
    refine ⟨by simpa using h.found, h.fails, ?_⟩
    intro j hj
    cases j with
    | zero => exact ⟨first, a, rfl, ha⟩
    | succ j => simpa using h.earlier j (Nat.lt_of_succ_lt_succ hj)

/-- Reading in turn fails with the error of the first input that cannot be read, which carries its
number and its path. -/
theorem readInTurn_eq_error_iff (index : Nat) (error : BundleError) :
    readInTurn t index sources = .error error ↔
      ∃ i source e, FirstFailure t sources i source e ∧
        error = .ofRead (index + i) source.path.text e := by
  induction sources generalizing index with
  | nil =>
    rw [readInTurn]
    simp only [reduceCtorEq, false_iff, not_exists, not_and]
    intro i source e h
    cases h.found
  | cons first rest ih =>
    rw [readInTurn]
    cases hread : first.read t with
    | error failure =>
      constructor
      · intro h
        cases h
        exact ⟨0, first, failure, firstFailure_zero_iff.mpr ⟨rfl, hread⟩, rfl⟩
      · rintro ⟨i, source, e, h, rfl⟩
        cases i with
        | zero =>
          obtain ⟨rfl, hfails⟩ := firstFailure_zero_iff.mp h
          rw [hread] at hfails
          cases hfails
          rfl
        | succ i =>
          obtain ⟨a, ha⟩ := (firstFailure_succ_iff.mp h).1
          rw [hread] at ha
          cases ha
    | ok archive =>
      have hrest : (do return archive :: (← readInTurn t (index + 1) rest) :
          Except BundleError (List Archive)) = .error error ↔
            readInTurn t (index + 1) rest = .error error := by
        cases readInTurn t (index + 1) rest with
        | error e => simp [bind, Except.bind]
        | ok others => simp [bind, Except.bind, pure, Except.pure]
      rw [hrest, ih (index + 1)]
      constructor
      · rintro ⟨i, source, e, h, rfl⟩
        refine ⟨i + 1, source, e, firstFailure_succ_iff.mpr ⟨⟨archive, hread⟩, h⟩, ?_⟩
        rw [Nat.add_right_comm, Nat.add_assoc]
      · rintro ⟨i, source, e, h, rfl⟩
        cases i with
        | zero =>
          have hfails := (firstFailure_zero_iff.mp h).2
          rw [hread] at hfails
          cases hfails
        | succ i =>
          refine ⟨i, source, e, (firstFailure_succ_iff.mp h).2, ?_⟩
          rw [Nat.add_right_comm, Nat.add_assoc]

/-! ## 2. Results in order -/

/-- Putting together the results of all inputs is reading them in turn. -/
theorem collect_map_read (t : FileTree) (index : Nat) (sources : List Source) :
    collect index (sources.zip (sources.map (·.read t))) = readInTurn t index sources := by
  induction sources generalizing index with
  | nil => rfl
  | cons source rest ih =>
    rw [List.map_cons, List.zip_cons_cons, readInTurn]
    cases hread : source.read t with
    | error e => rfl
    | ok archive => rw [collect, ih]

/-- At least one input is read at a time. -/
theorem effectiveJobs_pos (processors requested inputs : Nat) :
    0 < effectiveJobs processors requested inputs :=
  Nat.lt_of_lt_of_le Nat.zero_lt_one (Nat.le_max_right _ _)

/-- A pool whose workers have all stopped gives the answer of the loop. -/
theorem readOnPool_of_isComplete {jobs : Nat} {schedule : List Nat} (hjobs : 0 < jobs)
    (h : (Pool.run (fun source => source.read t) sources jobs schedule).isComplete = true) :
    readOnPool t jobs schedule sources = readInTurn t 0 sources := by
  rw [readOnPool, Pool.results_of_isComplete hjobs h]
  exact collect_map_read t 0 sources

/-! ## 3. Reading inputs -/

/-- Reads the inputs of a bundle, the workers of a pool following the schedule. -/
def readInputsOn (t : FileTree) (processors requested : Nat) (schedule : List Nat)
    (sources : List Source) : Except BundleError (List Archive) :=
  let jobs := effectiveJobs processors requested sources.length
  if jobs ≤ 1 then readInTurn t 0 sources else readOnPool t jobs schedule sources

/-- However many inputs are read at once, the answer is that of reading in turn. -/
theorem readInputs_eq_readInTurn (t : FileTree) (processors requested : Nat)
    (sources : List Source) :
    readInputs t processors requested sources = readInTurn t 0 sources := by
  rw [readInputs]
  split
  · rfl
  · exact readOnPool_of_isComplete (effectiveJobs_pos _ _ _) (Pool.isComplete_turns _ _ _)

/-- **Reading does not depend on the schedule.** On every schedule on which all workers stop, each
input is claimed once, its result is sent once, and the answer is that of reading in turn; so it is
when the workers take turns. Reading in turn gives the archives in the order of the inputs, or the
error of the first input that cannot be read. -/
theorem readInputs_of_schedule (t : FileTree) (processors requested : Nat)
    (sources : List Source) :
    let jobs := effectiveJobs processors requested sources.length
    let read := fun source : Source => source.read t
    (∀ schedule, (Pool.run read sources jobs schedule).isComplete = true →
      readInputsOn t processors requested schedule sources = readInTurn t 0 sources ∧
      Pool.claims read sources (Pool.start jobs) schedule = List.range sources.length ∧
      (Pool.run read sources jobs schedule).sent.map (·.1) ~ List.range sources.length ∧
      ∀ missing, (Pool.run read sources jobs schedule).results sources.length missing =
        sources.map read) ∧
    readInputs t processors requested sources = readInTurn t 0 sources ∧
    (∀ archives, readInTurn t 0 sources = .ok archives ↔ sources.map read = archives.map .ok) ∧
    (∀ error, readInTurn t 0 sources = .error error ↔
      ∃ i source e, sources[i]? = some source ∧ source.read t = .error e ∧
        (∀ j < i, ∃ s a, sources[j]? = some s ∧ s.read t = .ok a) ∧
        error = .ofRead i source.path.text e) := by
  intro jobs read
  have hjobs : 0 < jobs := effectiveJobs_pos processors requested sources.length
  refine ⟨?_, ?_, readInTurn_eq_ok_iff 0, ?_⟩
  · intro schedule h
    refine ⟨?_, Pool.claims_of_isComplete hjobs h, Pool.sent_of_isComplete hjobs h,
      Pool.results_of_isComplete hjobs h⟩
    rw [readInputsOn]
    split
    · rfl
    · exact readOnPool_of_isComplete hjobs h
  · rw [readInputs]
    split
    · rfl
    · exact readOnPool_of_isComplete hjobs (Pool.isComplete_turns read sources jobs)
  · intro error
    rw [readInTurn_eq_error_iff]
    constructor
    · rintro ⟨i, source, e, h, rfl⟩
      exact ⟨i, source, e, h.found, h.fails, h.earlier, by rw [Nat.zero_add]⟩
    · rintro ⟨i, source, e, hsource, hfails, hearlier, rfl⟩
      exact ⟨i, source, e, ⟨hsource, hfails, hearlier⟩, by rw [Nat.zero_add]⟩

/-- Three inputs of which the first is sent last. -/
theorem readInputs_of_schedule_overtaken :
    let t : FileTree := ⟨[], []⟩
    let read := fun source : Source => source.read t
    let sources : List Source := ["a", "b", "c"].map fun name => ⟨.container, ⟨name⟩⟩
    let schedule := [1, 0, 0, 0, 0, 0, 0, 1, 1, 0, 1]
    effectiveJobs 4 2 sources.length = 2 ∧
    (Pool.run read sources 2 schedule).sent.map (·.1) = [1, 2, 0] ∧
    (Pool.run read sources 2 schedule).isComplete = true ∧
    readInputsOn t 4 2 schedule sources = readInTurn t 0 sources := by
  intro t read sources schedule
  have hcomplete : (Pool.run read sources 2 schedule).isComplete = true := by decide +kernel
  refine ⟨rfl, by decide +kernel, hcomplete, ?_⟩
  exact ((readInputs_of_schedule t 4 2 sources).1 schedule hcomplete).1

end FatJar.Reading
