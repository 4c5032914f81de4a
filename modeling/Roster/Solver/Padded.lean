import Roster.Outcome
import Roster.Search.Basic

/-!
# Solving a Rectangle as a Square

The search needs as many rows as columns. A rectangle of `n` workers and `m` jobs is
therefore padded to a square with cells of one constant cost. Every matching of the
square uses the same number of padding cells, so the constant does not change which
real pairs are cheapest together; only real pairs are kept.

The declared size decides which rows and columns count as real. It agrees with the
matrix whenever matrices are checked; if they are not, a larger matrix does not fit and
a smaller one may lack a cell that was matched.

## Main definitions

* `Padded.exceeds`: Whether a matrix does not fit into the square.
* `Padded.cell`: The padded square as a table of slots.
* `Padded.workerOf`: The matching that a final state holds.
* `Padded.solve`: A cheapest matching by the search on the padded square.

## Theorems

* `Padded.exceeds_own`: A matrix fits into the square for its own size.
* `Padded.solve_of_exceeds`: A matrix that does not fit has no answer, whatever the settings are.
-/

namespace Roster

namespace Padded

variable {α : Type}

/-- The cost in a slot of the padded square: that of the matrix, one place up and to the
    left, or the padding. -/
def cell (costs : Grid α) (padding : α) {N : Nat} (i j : Search.Slot N) : α :=
  if 0 < i.val ∧ 0 < j.val then (costs.get? (i.val - 1) (j.val - 1)).getD padding else padding

/-- The worker in a row slot, or -1 if the slot is virtual or padding. -/
def worker {N : Nat} (n : Nat) (r : Search.Slot N) : Int :=
  if 0 < r.val ∧ r.val ≤ n then (r.val : Int) - 1 else -1

/-- The matching of the first `m` columns among the first `n` rows. -/
def workerOf {N : Nat} (n m : Nat) (s : Search.State α N) : Matching :=
  ((s.rowOf.toList.drop 1).take m).map (worker n)

/-- Whether a matrix does not fit into the square for a declared size. -/
def exceeds (costs : Grid α) (n m : Nat) : Bool :=
  max n m < costs.height || max n m < costs.width

theorem exceeds_own (costs : Grid α) : exceeds costs costs.height costs.width = false := by
  simp only [exceeds, Bool.or_eq_false_iff, decide_eq_false_iff_not]
  omega

/-- The cheapest matching that the search finds for `n` workers and `m` jobs, padded with
    `padding` and with `reach` as the distance of a column not seen yet. -/
def solve (A : Arithmetic α) (costs : Grid α) (n m : Nat) (padding reach : α) :
    Except Fault (Outcome α) :=
  if n = 0 ∨ m = 0 then Outcome.ofMatching A costs (Matching.unassigned m) [] []
  else
    let size := max n m
    if exceeds costs n m then .error .doesNotFit
    else
      match Search.final A size (cell costs padding) reach with
      | none => .error .endless
      | some s =>
        Outcome.ofMatching A costs (workerOf n m s) (s.rowPotential.toList.drop 1)
          (s.colPotential.toList.drop 1)

theorem solve_of_exceeds {A : Arithmetic α} {costs : Grid α} {n m : Nat} {padding reach : α}
    (hempty : ¬ (n = 0 ∨ m = 0)) (h : exceeds costs n m = true) :
    solve A costs n m padding reach = .error .doesNotFit := by
  rw [solve, if_neg hempty]
  exact if_pos h

end Padded

end Roster
