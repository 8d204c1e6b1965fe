/-
FatJar.Bundle.Pool — workers that share a list of tasks.

Each worker claims the next task by counting up a shared counter, works on it,
sends the result with the number of the task, and starts again; it stops when
there is no task left. A schedule says which worker takes a step next. The
results are put in the order of the tasks at the end.

Contents:
1. workers and pools;
2. steps and schedules;
3. results in order.
-/

namespace FatJar

variable {α β : Type}

/-! ## 1. Workers and pools -/

/-- What a worker is doing. -/
inductive Worker (β : Type) where
  /-- It has no task. -/
  | idle
  /-- It has claimed a task. -/
  | claimed (index : Nat)
  /-- It has the result of a task. -/
  | holding (index : Nat) (result : β)
  /-- It found no task left. -/
  | stopped
  deriving DecidableEq, Repr

/-- The number of the next task, the workers, and the results in the order in which they were
sent. -/
structure Pool (β : Type) where
  next : Nat
  workers : List (Worker β)
  sent : List (Nat × β)
  deriving DecidableEq, Repr

namespace Pool

/-- A pool before the first step. -/
def start (jobs : Nat) : Pool β :=
  ⟨0, List.replicate jobs .idle, []⟩

/-! ## 2. Steps and schedules -/

/-- The worker of a number takes one step. -/
def step (work : α → β) (tasks : List α) (p : Pool β) (worker : Nat) : Pool β :=
  match p.workers[worker]? with
  | none | some .stopped => p
  | some .idle =>
    let state : Worker β := if p.next < tasks.length then .claimed p.next else .stopped
    { p with next := p.next + 1, workers := p.workers.set worker state }
  | some (.claimed index) =>
    match tasks[index]? with
    | some task => { p with workers := p.workers.set worker (.holding index (work task)) }
    | none => { p with workers := p.workers.set worker .stopped }
  | some (.holding index result) =>
    { p with workers := p.workers.set worker .idle, sent := p.sent ++ [(index, result)] }

/-- The workers take steps as the schedule says. -/
def run (work : α → β) (tasks : List α) (jobs : Nat) (schedule : List Nat) : Pool β :=
  schedule.foldl (step work tasks) (start jobs)

/-- Every worker has stopped. -/
def isComplete (p : Pool β) : Bool :=
  p.workers.all fun w =>
    match w with
    | .stopped => true
    | _ => false

/-- The schedule in which the workers take turns, until each could have done all the tasks: three
steps for each and one to stop. -/
def turns (jobs tasks : Nat) : List Nat :=
  (List.replicate (3 * tasks + 1) (List.range jobs)).flatten

/-! ## 3. Results in order -/

/-- The last result sent for a task. -/
def result? (p : Pool β) (index : Nat) : Option β :=
  (p.sent.reverse.find? fun message => message.1 == index).map (·.2)

/-- The results in the order of the tasks, with `missing` for a task without one. -/
def results (p : Pool β) (tasks : Nat) (missing : β) : List β :=
  (List.range tasks).map fun index => (p.result? index).getD missing

end Pool

end FatJar
