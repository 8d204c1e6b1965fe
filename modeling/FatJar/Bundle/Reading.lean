/-
FatJar.Bundle.Reading — reading the inputs of a bundle.

One input at a time, or several at once: the answer is the same, the archives in
the order of the inputs or the error of the first input that cannot be read.

Contents:
1. how many inputs are read at once;
2. one after the other;
3. several at once;
4. reading.
-/
import FatJar.Archive.Source
import FatJar.Bundle.Error
import FatJar.Bundle.Pool

namespace FatJar.Reading

/-! ## 1. Jobs -/

/-- How many inputs are read at once: as many as asked for, or one per processor for 0, but not
more than there are inputs, and one at least. -/
def effectiveJobs (processors requested inputs : Nat) : Nat :=
  max (min (if requested == 0 then processors else requested) inputs) 1

/-! ## 2. One after the other -/

/-- Puts results in order together, or gives the error of the first that has one. -/
def collect (index : Nat) :
    List (Source × Except ReadError Archive) → Except BundleError (List Archive)
  | [] => .ok []
  | (source, result) :: rest =>
    match result with
    | .error e => .error (.ofRead index source.path.text e)
    | .ok archive => do return archive :: (← collect (index + 1) rest)

/-- Reads inputs, the first of which has the given index, up to the first that fails. -/
def readInTurn (t : FileTree) (index : Nat) : List Source → Except BundleError (List Archive)
  | [] => .ok []
  | source :: rest =>
    match source.read t with
    | .error e => .error (.ofRead index source.path.text e)
    | .ok archive => do return archive :: (← readInTurn t (index + 1) rest)

/-! ## 3. Several at once -/

/-- What stands for an input that no worker has read. -/
def unread : Except ReadError Archive :=
  .error (.io .unread)

/-- Reads inputs on a pool of workers that follow the schedule. -/
def readOnPool (t : FileTree) (jobs : Nat) (schedule : List Nat) (sources : List Source) :
    Except BundleError (List Archive) :=
  let pool := Pool.run (fun source => source.read t) sources jobs schedule
  collect 0 (sources.zip (pool.results sources.length unread))

/-! ## 4. Reading -/

/-- Reads the inputs of a bundle. -/
def readInputs (t : FileTree) (processors requested : Nat) (sources : List Source) :
    Except BundleError (List Archive) :=
  let jobs := effectiveJobs processors requested sources.length
  if jobs ≤ 1 then readInTurn t 0 sources
  else readOnPool t jobs (Pool.turns jobs sources.length) sources

end FatJar.Reading
