import Roster.Arithmetic
import Roster.Fault
import Roster.Grid

/-!
# Outcomes

What a solver answers: which worker each job gets, what that costs, and which workers
are left over. A matching is the list of workers in the order of their jobs; a negative
entry says that the job stays open.

`Outcome.ofMatching` is the one way to an outcome. It adds the costs in job order,
starting from zero, since sums of doubles depend on the order; and it fails on an entry
for which there is no cell, which a matching of the matrix's own rows never has.

## Main definitions

* `Matching`: The worker of each job.
* `Matching.place`: The matching of some pairs.
* `Matching.pairs`: The matched workers with their jobs.
* `Status`: The shape of a solved problem.
* `Outcome`: A matching with its cost.
* `Outcome.ofMatching`: The outcome of a matching.
* `Matching.ofData`: The matching that some data spell.
* `Summary`: What a report or a figure shows of an outcome.

## Theorems

* `Matching.mem_pairs`: A worker is paired with the jobs that it stands at.
* `Matching.mem_idle`: The idle workers are those that stand at no job.
-/

namespace Roster

/-- The worker of each job, in job order; a negative entry leaves the job open. -/
abbrev Matching := List Int

namespace Matching

/-- The matching in which every job stays open. -/
def unassigned (jobs : Nat) : Matching := List.replicate jobs (-1)

/-- The matching of some jobs with the given workers at the given jobs. -/
def place (jobs : Nat) (pairs : List (Nat × Nat)) : Matching :=
  pairs.foldl (fun matching x => matching.set x.2 (x.1 : Int)) (unassigned jobs)

/-- The matched workers with their jobs, where the first job of the list has the number
    `job`. -/
def pairsFrom (job : Nat) : Matching → List (Nat × Nat)
  | [] => []
  | w :: rest =>
    if 0 ≤ w then (w.toNat, job) :: pairsFrom (job + 1) rest else pairsFrom (job + 1) rest

/-- The matched workers with their jobs, in job order. -/
def pairs (matching : Matching) : List (Nat × Nat) := pairsFrom 0 matching

theorem mem_pairsFrom {job w j : Nat} {matching : Matching} :
    (w, j) ∈ pairsFrom job matching ↔ ∃ k, matching[k]? = some (w : Int) ∧ j = job + k := by
  induction matching generalizing job with
  | nil => simp [pairsFrom]
  | cons x rest ih =>
    have later : (w, j) ∈ pairsFrom (job + 1) rest ↔
        ∃ k, (x :: rest)[k + 1]? = some (w : Int) ∧ j = job + (k + 1) := by
      rw [ih]
      simp only [List.getElem?_cons_succ, Nat.add_comm 1, Nat.add_assoc]
    have first : (∃ k, (x :: rest)[k]? = some (w : Int) ∧ j = job + k) ↔
        (x = (w : Int) ∧ j = job) ∨
          ∃ k, (x :: rest)[k + 1]? = some (w : Int) ∧ j = job + (k + 1) := by
      constructor
      · rintro ⟨k, hk, hj⟩
        cases k with
        | zero => exact Or.inl ⟨by simpa using hk, hj⟩
        | succ k => exact Or.inr ⟨k, hk, hj⟩
      · rintro (⟨hx, hj⟩ | ⟨k, hk, hj⟩)
        · exact ⟨0, by simpa using hx, hj⟩
        · exact ⟨k + 1, hk, hj⟩
    rw [first, ← later, pairsFrom]
    split
    · rename_i h
      simp only [List.mem_cons, Prod.mk.injEq]
      have : w = x.toNat ↔ x = (w : Int) := by omega
      rw [this]
    · rename_i h
      constructor
      · exact Or.inr
      · rintro (⟨hx, _⟩ | hl)
        · omega
        · exact hl

theorem mem_pairs {w j : Nat} {matching : Matching} :
    (w, j) ∈ matching.pairs ↔ matching[j]? = some (w : Int) := by
  simp [pairs, mem_pairsFrom]

/-- The workers with their jobs, where `jobs` are the jobs in worker order. -/
def jobPairs (jobs : List Nat) : List (Nat × Nat) := jobs.zipIdx.map Prod.swap

/-- The workers below a number that no job has, in increasing order. -/
def idle (workers : Nat) (matching : Matching) : List Nat :=
  (List.range workers).filter fun w => !matching.contains (w : Int)

theorem mem_idle {workers w : Nat} {matching : Matching} :
    w ∈ matching.idle workers ↔ w < workers ∧ (w : Int) ∉ matching := by
  simp [idle]

end Matching

/-- The shape of a solved problem. -/
inductive Status where
  /-- As many workers as jobs: everybody is matched. -/
  | balanced
  /-- One side is larger and keeps its surplus. -/
  | surplus
  /-- One side is empty: there is nothing to match. -/
  | vacant
  deriving DecidableEq, Repr

namespace Status

/-- The shape of a problem by its size. -/
def ofSize (n m : Nat) : Status :=
  if n = 0 ∨ m = 0 then .vacant else if n = m then .balanced else .surplus

/-- The name of a shape. -/
def name : Status → String
  | .balanced => "OPTIMAL"
  | .surplus => "PARTIAL"
  | .vacant => "EMPTY"

end Status

/-- A matching with its cost, and the potentials of the padded square if it was found with
    potentials. -/
structure Outcome (α : Type) where
  total : α
  workerOf : Matching
  idle : List Nat
  status : Status
  rowPotentials : List α
  colPotentials : List α

namespace Outcome

variable {α : Type}

/-- Adds the costs of some pairs to a sum, in their order. -/
def addCosts (A : Arithmetic α) (costs : Grid α) : List (Nat × Nat) → α → Except Fault α
  | [], sum => .ok sum
  | (w, j) :: rest, sum =>
    match costs.get? w j with
    | some cost => addCosts A costs rest (A.add sum cost)
    | none => .error .outOfBounds

/-- The outcome of a matching with given potentials. -/
def ofMatching (A : Arithmetic α) (costs : Grid α) (matching : Matching)
    (rowPotentials colPotentials : List α) : Except Fault (Outcome α) :=
  (addCosts A costs matching.pairs A.zero).map fun total =>
    { total := total
      workerOf := matching
      idle := matching.idle costs.height
      status := Status.ofSize costs.height costs.width
      rowPotentials := rowPotentials
      colPotentials := colPotentials }

end Outcome

/-- Whether an entry of a matching names a worker, which only a number can. -/
def Matching.isWorker (entry : Datum) : Except Fault Bool :=
  match entry with
  | .number n => .ok (Number.atMost (.whole 0) n)
  | _ => .error .wrongKind

/-- The index in a table of costs that the entry of a job is. A truth value selects a whole
    part of the table, and a double nothing. -/
def Matching.index {α : Type} (costs : Grid α) (job : Nat) : Number → Except Fault Int
  | .whole i => if (costs.get? i.toNat job).isSome then .ok i else .error .outOfBounds
  | .truth _ => .error (if job < costs.height then .wrongKind else .outOfBounds)
  | .real _ => .error .outOfBounds

/-- The matching that some data spell for a table of costs, where the first entry is that of
    the job `job`. -/
def Matching.ofData {α : Type} (costs : Grid α) (job : Nat) :
    List Datum → Except Fault Matching
  | [] => .ok []
  | entry :: rest => do
    let isWorker ← isWorker entry
    let w ← match entry with
      | .number n => if isWorker then index costs job n else pure (-1)
      | _ => pure (-1)
    return w :: (← ofData costs (job + 1) rest)

/-- What a report or a figure shows of an outcome. All of it may be any data, as long as
    nothing asks for more. -/
structure Summary where
  total : Datum
  workerOf : Datum
  idle : Datum

namespace Summary

/-- The entries of the matching, in job order. -/
def entries (s : Summary) : Except Fault (List Datum) :=
  match s.workerOf.items? with
  | some entries => .ok entries
  | none => .error .wrongKind

/-- The workers left over. -/
def idleItems (s : Summary) : Except Fault (List Datum) :=
  match s.idle.items? with
  | some items => .ok items
  | none => .error .wrongKind

/-- The workers of some entries with their jobs, where the first entry is that of the job
    `job`. -/
def pairsFrom (job : Nat) : List Datum → Except Fault (List (Number × Nat))
  | [] => .ok []
  | entry :: rest => do
    let isWorker ← Matching.isWorker entry
    let others ← pairsFrom (job + 1) rest
    match entry with
    | .number n => return if isWorker then (n, job) :: others else others
    | _ => return others

end Summary

/-- The summary of an outcome. -/
def Outcome.summary (o : Outcome Float) : Summary where
  total := .number (.real o.total)
  workerOf := .list (o.workerOf.map fun w => .number (.whole w))
  idle := .list (o.idle.map fun (w : Nat) => .number (.whole w))

end Roster
