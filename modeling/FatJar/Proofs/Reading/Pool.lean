/-
FatJar.Proofs.Reading.Pool — a pool of workers does every task once.

The workers share a counter and a channel. Each step of a worker is one of five
things (`step_cases`). `Accounted` links the three places where a task can be:
the tasks below the counter are those that a worker has in hand and those whose
result has been sent, each exactly once. It holds after every schedule. When all
workers have stopped, none has a task in hand and the counter is past the end,
so the results are those of all tasks, and in order they do not depend on the
schedule (`results_of_isComplete`).

A worker that takes enough steps stops (`isComplete_of_count`): the steps that
it has left shrink with each step of its own and never grow with a step of
another worker.

Contents:
1. what a step can do;
2. tasks in hand;
3. the invariant, step by step and over a run;
4. which tasks are claimed, and in which order;
5. complete schedules;
6. schedules in which every worker takes enough steps.
-/
import FatJar.Bundle.Pool

namespace FatJar.Pool

open scoped List

variable {α β : Type} {work : α → β} {tasks : List α} {p : Pool β} {worker : Nat}

/-! ## 1. Steps -/

/-- A worker that is not there or has stopped does nothing. Otherwise it claims the next task,
stops, works on the task that it has claimed, or sends a result. -/
theorem step_cases (work : α → β) (tasks : List α) (p : Pool β) (worker : Nat) :
    ((p.workers[worker]? = none ∨ p.workers[worker]? = some .stopped) ∧
      p.step work tasks worker = p) ∨
    (p.workers[worker]? = some .idle ∧ p.next < tasks.length ∧
      p.step work tasks worker =
        { p with next := p.next + 1, workers := p.workers.set worker (.claimed p.next) }) ∨
    (p.workers[worker]? = some .idle ∧ tasks.length ≤ p.next ∧
      p.step work tasks worker =
        { p with next := p.next + 1, workers := p.workers.set worker .stopped }) ∨
    (∃ index task, p.workers[worker]? = some (.claimed index) ∧ tasks[index]? = some task ∧
      p.step work tasks worker =
        { p with workers := p.workers.set worker (.holding index (work task)) }) ∨
    (∃ index, p.workers[worker]? = some (.claimed index) ∧ tasks[index]? = none ∧
      p.step work tasks worker = { p with workers := p.workers.set worker .stopped }) ∨
    (∃ index result, p.workers[worker]? = some (.holding index result) ∧
      p.step work tasks worker =
        { p with workers := p.workers.set worker .idle, sent := p.sent ++ [(index, result)] }) := by
  unfold step
  cases hw : p.workers[worker]? with
  | none => exact .inl ⟨.inl rfl, rfl⟩
  | some state =>
    cases state with
    | stopped => exact .inl ⟨.inr rfl, rfl⟩
    | idle =>
      by_cases hnext : p.next < tasks.length
      · exact .inr (.inl ⟨rfl, hnext, by simp only [hnext, if_true]⟩)
      · exact .inr (.inr (.inl ⟨rfl, Nat.le_of_not_lt hnext, by simp only [hnext, if_false]⟩))
    | claimed index =>
      cases htask : tasks[index]? with
      | some task =>
        refine .inr (.inr (.inr (.inl ⟨index, task, rfl, htask, ?_⟩)))
        simp only [htask]
      | none =>
        refine .inr (.inr (.inr (.inr (.inl ⟨index, rfl, htask, ?_⟩))))
        simp only [htask]
    | holding index result =>
      exact .inr (.inr (.inr (.inr (.inr ⟨index, result, rfl, rfl⟩))))

/-! ## 2. Tasks in hand -/

/-- The task that a worker has in hand. -/
def inHand : Worker β → List Nat
  | .claimed index => [index]
  | .holding index _ => [index]
  | .idle => []
  | .stopped => []

/-- When one worker changes, what the others have in hand stays. -/
theorem inHand_set {workers : List (Worker β)} {old : Worker β} (h : workers[worker]? = some old)
    (new : Worker β) :
    ∃ others, (workers.flatMap inHand).Perm (inHand old ++ others) ∧
      ((workers.set worker new).flatMap inHand).Perm (inHand new ++ others) := by
  obtain ⟨hlt, hget⟩ := List.getElem?_eq_some_iff.mp h
  have hmiddle : ∀ state : Worker β,
      ((workers.take worker ++ state :: workers.drop (worker + 1)).flatMap inHand).Perm
        (inHand state ++ ((workers.take worker).flatMap inHand ++
          (workers.drop (worker + 1)).flatMap inHand)) := by
    intro state
    rw [List.flatMap_append, List.flatMap_cons]
    exact List.perm_append_comm_assoc _ _ _
  refine ⟨(workers.take worker).flatMap inHand ++ (workers.drop (worker + 1)).flatMap inHand,
    ?_, ?_⟩
  · have hsplit : workers = workers.take worker ++ old :: workers.drop (worker + 1) := by
      rw [← hget, ← List.drop_eq_getElem_cons hlt, List.take_append_drop]
    conv => lhs; rw [hsplit]
    exact hmiddle old
  · rw [List.set_eq_take_append_cons_drop, if_pos hlt]
    exact hmiddle new

/-! ## 3. The invariant -/

/-- The result is that of the task. -/
def IsResult (work : α → β) (tasks : List α) (index : Nat) (result : β) : Prop :=
  ∃ task, tasks[index]? = some task ∧ result = work task

/-- The tasks below the counter are in hand or sent, each once; results are those of their tasks;
a worker has stopped only when the counter was past the end. -/
structure Accounted (work : α → β) (tasks : List α) (p : Pool β) : Prop where
  once : (p.workers.flatMap inHand ++ p.sent.map (·.1)).Perm
    (List.range (min p.next tasks.length))
  holding : ∀ index result, .holding index result ∈ p.workers → IsResult work tasks index result
  sent : ∀ message ∈ p.sent, IsResult work tasks message.1 message.2
  stopped : .stopped ∈ p.workers → tasks.length ≤ p.next

/-- The invariant holds before the first step. -/
theorem accounted_start (jobs : Nat) : Accounted work tasks (start jobs) where
  once := by
    have hidle : (List.replicate jobs (.idle : Worker β)).flatMap inHand = [] := by
      rw [List.flatMap_eq_nil_iff]
      intro state hstate
      rw [List.eq_of_mem_replicate hstate]
      rfl
    simp [start, hidle]
  holding := fun index result h => by cases List.eq_of_mem_replicate h
  sent := fun message h => by cases h
  stopped := fun h => by cases List.eq_of_mem_replicate h

/-- The task that a worker has in hand is one of the tasks. -/
theorem Accounted.inHand_lt (h : Accounted work tasks p) {state : Worker β} {index : Nat}
    (hstate : state ∈ p.workers) (hindex : index ∈ inHand state) : index < tasks.length := by
  have hmem : index ∈ p.workers.flatMap inHand ++ p.sent.map (·.1) :=
    List.mem_append_left _ (List.mem_flatMap.mpr ⟨state, hstate, hindex⟩)
  have hlt := List.mem_range.mp (h.once.mem_iff.mp hmem)
  exact Nat.lt_of_lt_of_le hlt (Nat.min_le_right _ _)

/-- A worker that claims the next task has it in hand. -/
theorem Accounted.claim (h : Accounted work tasks p) (hw : p.workers[worker]? = some .idle)
    (hnext : p.next < tasks.length) :
    Accounted work tasks
      { p with next := p.next + 1, workers := p.workers.set worker (.claimed p.next) } where
  once := by
    obtain ⟨others, hold, hnew⟩ := inHand_set hw (.claimed p.next)
    have honce := h.once
    rw [Nat.min_eq_left (Nat.le_of_lt hnext)] at honce
    rw [Nat.min_eq_left hnext, List.range_succ]
    calc (p.workers.set worker (.claimed p.next)).flatMap inHand ++ p.sent.map (·.1)
      _ ~ p.next :: (others ++ p.sent.map (·.1)) := hnew.append_right _
      _ ~ p.next :: (p.workers.flatMap inHand ++ p.sent.map (·.1)) :=
        (hold.symm.append_right _).cons _
      _ ~ p.next :: List.range p.next := honce.cons _
      _ ~ List.range p.next ++ [p.next] := (List.perm_append_singleton _ _).symm
  holding := by
    intro index result hmem
    rcases List.mem_or_eq_of_mem_set hmem with hmem | heq
    · exact h.holding index result hmem
    · cases heq
  sent := h.sent
  stopped := by
    intro hmem
    rcases List.mem_or_eq_of_mem_set hmem with hmem | heq
    · exact Nat.le_succ_of_le (h.stopped hmem)
    · cases heq

/-- A worker that finds no task left stops. -/
theorem Accounted.stop (h : Accounted work tasks p) (hw : p.workers[worker]? = some .idle)
    (hnext : tasks.length ≤ p.next) :
    Accounted work tasks
      { p with next := p.next + 1, workers := p.workers.set worker .stopped } where
  once := by
    obtain ⟨others, hold, hnew⟩ := inHand_set hw .stopped
    have honce := h.once
    rw [Nat.min_eq_right hnext] at honce
    rw [Nat.min_eq_right (Nat.le_succ_of_le hnext)]
    exact ((hnew.trans hold.symm).append_right _).trans honce
  holding := by
    intro index result hmem
    rcases List.mem_or_eq_of_mem_set hmem with hmem | heq
    · exact h.holding index result hmem
    · cases heq
  sent := h.sent
  stopped := fun _ => Nat.le_succ_of_le hnext

/-- A worker that has worked on its task still has it in hand, with the result. -/
theorem Accounted.finish (h : Accounted work tasks p) {index : Nat} {task : α}
    (hw : p.workers[worker]? = some (.claimed index)) (htask : tasks[index]? = some task) :
    Accounted work tasks
      { p with workers := p.workers.set worker (.holding index (work task)) } where
  once := by
    obtain ⟨others, hold, hnew⟩ := inHand_set hw (.holding index (work task))
    exact ((hnew.trans hold.symm).append_right _).trans h.once
  holding := by
    intro other result hmem
    rcases List.mem_or_eq_of_mem_set hmem with hmem | heq
    · exact h.holding other result hmem
    · cases heq
      exact ⟨task, htask, rfl⟩
  sent := h.sent
  stopped := by
    intro hmem
    rcases List.mem_or_eq_of_mem_set hmem with hmem | heq
    · exact h.stopped hmem
    · cases heq

/-- A worker that sends its result has no task in hand. -/
theorem Accounted.send (h : Accounted work tasks p) {index : Nat} {result : β}
    (hw : p.workers[worker]? = some (.holding index result)) :
    Accounted work tasks
      { p with workers := p.workers.set worker .idle, sent := p.sent ++ [(index, result)] } where
  once := by
    obtain ⟨others, hold, hnew⟩ := inHand_set hw .idle
    rw [List.map_append]
    calc (p.workers.set worker .idle).flatMap inHand ++ (p.sent.map (·.1) ++ [index])
      _ ~ others ++ (p.sent.map (·.1) ++ [index]) := hnew.append_right _
      _ ~ others ++ index :: p.sent.map (·.1) :=
        (List.perm_append_singleton _ _).append_left _
      _ ~ index :: others ++ p.sent.map (·.1) := List.perm_middle
      _ ~ p.workers.flatMap inHand ++ p.sent.map (·.1) := hold.symm.append_right _
      _ ~ List.range (min p.next tasks.length) := h.once
  holding := by
    intro other value hmem
    rcases List.mem_or_eq_of_mem_set hmem with hmem | heq
    · exact h.holding other value hmem
    · cases heq
  sent := by
    intro message hmem
    rcases List.mem_append.mp hmem with hmem | hmem
    · exact h.sent message hmem
    · rw [List.mem_singleton.mp hmem]
      exact h.holding index result (List.mem_of_getElem? hw)
  stopped := by
    intro hmem
    rcases List.mem_or_eq_of_mem_set hmem with hmem | heq
    · exact h.stopped hmem
    · cases heq

/-- Every step keeps the invariant. -/
theorem Accounted.step (h : Accounted work tasks p) (worker : Nat) :
    Accounted work tasks (p.step work tasks worker) := by
  obtain ⟨-, hstep⟩ | ⟨hw, hnext, hstep⟩ | ⟨hw, hnext, hstep⟩ | ⟨index, task, hw, htask, hstep⟩ |
    ⟨index, hw, hnone, -⟩ | ⟨index, result, hw, hstep⟩ := step_cases work tasks p worker
  · rwa [hstep]
  · rw [hstep]
    exact h.claim hw hnext
  · rw [hstep]
    exact h.stop hw hnext
  · rw [hstep]
    exact h.finish hw htask
  · -- a claimed index is always in range, so the task is there
    have hlt := h.inHand_lt (List.mem_of_getElem? hw) (List.mem_singleton.mpr rfl)
    exact absurd hlt (Nat.not_lt.mpr (List.getElem?_eq_none_iff.mp hnone))
  · rw [hstep]
    exact h.send hw

/-- Every schedule keeps the invariant. -/
theorem accounted_run (jobs : Nat) (schedule : List Nat) :
    Accounted work tasks (run work tasks jobs schedule) := by
  suffices h : ∀ p : Pool β, Accounted work tasks p →
      Accounted work tasks (schedule.foldl (Pool.step work tasks) p) from
    h _ (accounted_start jobs)
  induction schedule with
  | nil => exact fun p hp => hp
  | cons worker rest ih => exact fun p hp => ih _ (hp.step worker)

/-! ## 4. Claims -/

/-- The task that a worker claims when it takes a step. -/
def claim? (tasks : List α) (p : Pool β) (worker : Nat) : Option Nat :=
  match p.workers[worker]? with
  | some .idle => if p.next < tasks.length then some p.next else none
  | _ => none

/-- The tasks that are claimed on a schedule, in the order in which they are claimed. -/
def claims (work : α → β) (tasks : List α) (p : Pool β) : List Nat → List Nat
  | [] => []
  | worker :: rest =>
    (claim? tasks p worker).toList ++ claims work tasks (p.step work tasks worker) rest

/-- A claim moves the counter, and below the end nothing else does. -/
theorem range_claim? (work : α → β) (tasks : List α) (p : Pool β) (worker : Nat) :
    List.range (min p.next tasks.length) ++ (claim? tasks p worker).toList =
      List.range (min (p.step work tasks worker).next tasks.length) := by
  obtain ⟨hw, hstep⟩ | ⟨hw, hnext, hstep⟩ | ⟨hw, hnext, hstep⟩ | ⟨index, task, hw, -, hstep⟩ |
    ⟨index, hw, -, hstep⟩ | ⟨index, result, hw, hstep⟩ := step_cases work tasks p worker
  · rcases hw with hw | hw
    · simp [hstep, claim?, hw]
    · simp [hstep, claim?, hw]
  · rw [hstep]
    simp only [claim?, hw, hnext, if_true, Option.toList_some]
    rw [Nat.min_eq_left (Nat.le_of_lt hnext), Nat.min_eq_left hnext, List.range_succ]
  · rw [hstep]
    simp only [claim?, hw, Nat.not_lt.mpr hnext, if_false, Option.toList_none, List.append_nil]
    rw [Nat.min_eq_right hnext, Nat.min_eq_right (Nat.le_succ_of_le hnext)]
  · simp [hstep, claim?, hw]
  · simp [hstep, claim?, hw]
  · simp [hstep, claim?, hw]

/-- Tasks are claimed in their order, each once. -/
theorem claims_eq_range (work : α → β) (tasks : List α) (jobs : Nat) (schedule : List Nat) :
    claims work tasks (start jobs) schedule =
      List.range (min (run work tasks jobs schedule).next tasks.length) := by
  suffices h : ∀ p : Pool β,
      List.range (min p.next tasks.length) ++ claims work tasks p schedule =
        List.range (min (schedule.foldl (Pool.step work tasks) p).next tasks.length) by
    simpa [start, run] using h (start jobs)
  induction schedule with
  | nil =>
    intro p
    rw [claims, List.append_nil]
    rfl
  | cons worker rest ih =>
    intro p
    rw [claims, ← List.append_assoc, range_claim? work, ih]
    rfl

/-! ## 5. Complete schedules -/

/-- Every worker has stopped exactly when all are in that state. -/
theorem isComplete_iff : p.isComplete = true ↔ ∀ state ∈ p.workers, state = .stopped := by
  rw [isComplete, List.all_eq_true]
  constructor
  · intro h state hstate
    have := h state hstate
    cases state with
    | stopped => rfl
    | _ => cases this
  · intro h state hstate
    rw [h state hstate]

/-- A step keeps the workers. -/
theorem length_workers_step (work : α → β) (tasks : List α) (p : Pool β) (worker : Nat) :
    (p.step work tasks worker).workers.length = p.workers.length := by
  obtain ⟨-, hstep⟩ | ⟨-, -, hstep⟩ | ⟨-, -, hstep⟩ | ⟨_, _, -, -, hstep⟩ | ⟨_, -, -, hstep⟩ |
    ⟨_, _, -, hstep⟩ := step_cases work tasks p worker
  all_goals rw [hstep]
  all_goals simp only [List.length_set]

/-- A schedule keeps the workers. -/
theorem length_workers_run (work : α → β) (tasks : List α) (jobs : Nat) (schedule : List Nat) :
    (run work tasks jobs schedule).workers.length = jobs := by
  suffices h : ∀ p : Pool β,
      (schedule.foldl (Pool.step work tasks) p).workers.length = p.workers.length by
    simpa [start, run] using h (start jobs)
  induction schedule with
  | nil => exact fun p => rfl
  | cons worker rest ih =>
    intro p
    rw [List.foldl_cons, ih, length_workers_step]

section Complete

variable {jobs : Nat} {schedule : List Nat}

/-- When all workers have stopped, the counter is past the end. -/
theorem length_le_next_of_isComplete (hjobs : 0 < jobs)
    (h : (run work tasks jobs schedule).isComplete = true) :
    tasks.length ≤ (run work tasks jobs schedule).next := by
  have hlen := length_workers_run work tasks jobs schedule
  cases hworkers : (run work tasks jobs schedule).workers with
  | nil =>
    rw [hworkers] at hlen
    exact absurd hlen.symm (Nat.ne_of_gt hjobs)
  | cons state others =>
    have hstate : state ∈ (run work tasks jobs schedule).workers := by
      rw [hworkers]
      exact List.mem_cons_self
    apply (accounted_run jobs schedule).stopped
    rw [← isComplete_iff.mp h state hstate]
    exact hstate

/-- When all workers have stopped, every task has been claimed once. -/
theorem claims_of_isComplete (hjobs : 0 < jobs)
    (h : (run work tasks jobs schedule).isComplete = true) :
    claims work tasks (start jobs) schedule = List.range tasks.length := by
  rw [claims_eq_range, Nat.min_eq_right (length_le_next_of_isComplete hjobs h)]

/-- When all workers have stopped, every result has been sent once. -/
theorem sent_of_isComplete (hjobs : 0 < jobs)
    (h : (run work tasks jobs schedule).isComplete = true) :
    (run work tasks jobs schedule).sent.map (·.1) ~ List.range tasks.length := by
  have hrun : Accounted work tasks (run work tasks jobs schedule) := accounted_run jobs schedule
  have honce := hrun.once
  have hnone : (run work tasks jobs schedule).workers.flatMap inHand = [] := by
    rw [List.flatMap_eq_nil_iff]
    intro state hstate
    rw [isComplete_iff.mp h state hstate]
    rfl
  rwa [hnone, List.nil_append, Nat.min_eq_right (length_le_next_of_isComplete hjobs h)] at honce

/-- When all workers have stopped, each task has its result. -/
theorem result?_of_isComplete (hjobs : 0 < jobs)
    (h : (run work tasks jobs schedule).isComplete = true) {index : Nat} {task : α}
    (htask : tasks[index]? = some task) :
    (run work tasks jobs schedule).result? index = some (work task) := by
  have hlt : index < tasks.length := (List.getElem?_eq_some_iff.mp htask).1
  have hmem := (sent_of_isComplete hjobs h).mem_iff.mpr (List.mem_range.mpr hlt)
  obtain ⟨message, hmessage, hindex⟩ := List.mem_map.mp hmem
  rw [result?]
  cases hfind : (run work tasks jobs schedule).sent.reverse.find?
      (fun message => message.1 == index) with
  | none =>
    have := List.find?_eq_none.mp hfind message (List.mem_reverse.mpr hmessage)
    exact absurd hindex (by simpa using this)
  | some found =>
    -- whichever message is found, its result is that of its task
    have hfound : found.1 = index := by simpa using List.find?_some hfind
    have hsent := List.mem_reverse.mp (List.mem_of_find?_eq_some hfind)
    obtain ⟨other, hother, hresult⟩ := (accounted_run jobs schedule).sent found hsent
    rw [hfound, htask] at hother
    cases hother
    rw [Option.map_some, hresult]

/-- **When all workers have stopped, the results in order are those of the tasks**, whatever the
schedule was and whatever stands for a missing result. -/
theorem results_of_isComplete (hjobs : 0 < jobs)
    (h : (run work tasks jobs schedule).isComplete = true) (missing : β) :
    (run work tasks jobs schedule).results tasks.length missing = tasks.map work := by
  apply List.ext_getElem?
  intro index
  rw [results, List.getElem?_map, List.getElem?_map]
  by_cases hlt : index < tasks.length
  · rw [List.getElem?_range hlt, List.getElem?_eq_getElem hlt, Option.map_some, Option.map_some,
      result?_of_isComplete hjobs h (List.getElem?_eq_getElem hlt), Option.getD_some]
  · have hge := Nat.le_of_not_lt hlt
    rw [List.getElem?_eq_none (by simpa using hge), List.getElem?_eq_none hge]
    rfl

end Complete

/-! ## 6. Enough steps -/

/-- How many steps a worker in a state can take at most, with so many tasks left to claim. -/
def stepsLeft (left : Nat) : Worker β → Nat
  | .stopped => 0
  | .idle => 3 * left + 1
  | .holding _ _ => 3 * left + 2
  | .claimed _ => 3 * left + 3

/-- How many steps the worker of a number can take at most. -/
def stepsLeftOf (tasks : List α) (p : Pool β) (worker : Nat) : Nat :=
  match p.workers[worker]? with
  | none => 0
  | some state => stepsLeft (tasks.length - p.next) state

theorem stepsLeft_mono {left left' : Nat} (h : left' ≤ left) (state : Worker β) :
    stepsLeft left' state ≤ stepsLeft left state := by
  cases state <;> simp only [stepsLeft] <;> omega

/-- A step of a worker leaves it one step less, if it had one. -/
theorem stepsLeftOf_step_self (work : α → β) (tasks : List α) (p : Pool β) (worker : Nat) :
    stepsLeftOf tasks (p.step work tasks worker) worker ≤ stepsLeftOf tasks p worker - 1 := by
  have hset : ∀ {old : Worker β} (new : Worker β), p.workers[worker]? = some old →
      (p.workers.set worker new)[worker]? = some new := by
    intro old new hw
    exact List.getElem?_set_self (List.getElem?_eq_some_iff.mp hw).1
  obtain ⟨hw, hstep⟩ | ⟨hw, hnext, hstep⟩ | ⟨hw, hnext, hstep⟩ | ⟨index, task, hw, -, hstep⟩ |
    ⟨index, hw, -, hstep⟩ | ⟨index, result, hw, hstep⟩ := step_cases work tasks p worker
  · rcases hw with hw | hw
    · simp [hstep, stepsLeftOf, hw]
    · simp [hstep, stepsLeftOf, hw, stepsLeft]
  all_goals
    rw [hstep]
    simp only [stepsLeftOf, hw, hset _ hw, stepsLeft]
    omega

/-- A step of another worker leaves it no more steps. -/
theorem stepsLeftOf_step_other (work : α → β) (tasks : List α) (p : Pool β) {worker other : Nat}
    (hne : other ≠ worker) :
    stepsLeftOf tasks (p.step work tasks other) worker ≤ stepsLeftOf tasks p worker := by
  have hset : ∀ new : Worker β, (p.workers.set other new)[worker]? = p.workers[worker]? :=
    fun new => List.getElem?_set_ne hne
  have hcounted : ∀ workers : List (Worker β), workers[worker]? = p.workers[worker]? →
      ∀ next, p.next ≤ next → ∀ sent,
        stepsLeftOf tasks ⟨next, workers, sent⟩ worker ≤ stepsLeftOf tasks p worker := by
    intro workers hworkers next hnext sent
    simp only [stepsLeftOf, hworkers]
    split
    · exact Nat.le_refl _
    · exact stepsLeft_mono (Nat.sub_le_sub_left hnext _) _
  obtain ⟨-, hstep⟩ | ⟨-, -, hstep⟩ | ⟨-, -, hstep⟩ | ⟨_, _, -, -, hstep⟩ | ⟨_, -, -, hstep⟩ |
    ⟨_, _, -, hstep⟩ := step_cases work tasks p other
  · exact Nat.le_of_eq (by rw [hstep])
  · rw [hstep]
    exact hcounted _ (hset _) _ (Nat.le_succ _) _
  · rw [hstep]
    exact hcounted _ (hset _) _ (Nat.le_succ _) _
  · rw [hstep]
    exact hcounted _ (hset _) _ (Nat.le_refl _) _
  · rw [hstep]
    exact hcounted _ (hset _) _ (Nat.le_refl _) _
  · rw [hstep]
    exact hcounted _ (hset _) _ (Nat.le_refl _) _

/-- On a schedule a worker has as many steps less as it took. -/
theorem stepsLeftOf_run (work : α → β) (tasks : List α) (worker : Nat) (schedule : List Nat)
    (p : Pool β) :
    stepsLeftOf tasks (schedule.foldl (Pool.step work tasks) p) worker ≤
      stepsLeftOf tasks p worker - schedule.count worker := by
  induction schedule generalizing p with
  | nil => simp
  | cons other rest ih =>
    rw [List.foldl_cons]
    have hrest := ih (p.step work tasks other)
    by_cases hne : other = worker
    · subst hne
      have hself := stepsLeftOf_step_self work tasks p other
      rw [List.count_cons_self]
      omega
    · have hother := stepsLeftOf_step_other work tasks p hne
      rw [List.count_cons_of_ne hne]
      omega

/-- **A schedule is complete when every worker takes enough steps**: three for each task and one to
stop. -/
theorem isComplete_of_count (work : α → β) (tasks : List α) {jobs : Nat} {schedule : List Nat}
    (h : ∀ worker < jobs, 3 * tasks.length + 1 ≤ schedule.count worker) :
    (run work tasks jobs schedule).isComplete = true := by
  rw [isComplete_iff]
  intro state hstate
  obtain ⟨worker, hlt, hget⟩ := List.mem_iff_getElem.mp hstate
  rw [length_workers_run] at hlt
  have hrun := stepsLeftOf_run work tasks worker schedule (start jobs)
  have hstart : stepsLeftOf tasks (start jobs : Pool β) worker = 3 * tasks.length + 1 := by
    simp [stepsLeftOf, start, hlt, stepsLeft]
  have hend : stepsLeftOf tasks (run work tasks jobs schedule) worker = 0 := by
    have := h worker hlt
    rw [hstart] at hrun
    exact Nat.le_zero.mp (Nat.le_trans hrun (by omega))
  rw [stepsLeftOf, List.getElem?_eq_some_iff.mpr ⟨_, hget⟩] at hend
  cases state with
  | stopped => rfl
  | _ =>
    simp only [stepsLeft] at hend
    omega

/-- Workers that take turns all stop. -/
theorem isComplete_turns (work : α → β) (tasks : List α) (jobs : Nat) :
    (run work tasks jobs (turns jobs tasks.length)).isComplete = true := by
  apply isComplete_of_count
  intro worker hlt
  have hround : (List.range jobs).count worker = 1 := by
    rw [List.nodup_range.count, if_pos (List.mem_range.mpr hlt)]
  rw [turns, List.count_flatten, List.map_replicate, hround]
  simp

end FatJar.Pool
