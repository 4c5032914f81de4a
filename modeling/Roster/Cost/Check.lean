import Roster.Fault
import Roster.Grid

/-!
# Preconditions of a Cost Matrix

A matrix can be solved as a problem of `n` workers and `m` jobs if it has that size and
every cost is finite, not negative and below the padding sentinel. The checks come in
that order, each over the whole matrix, and each names the first offending cell in row
order; so the class of the fault does not depend on where the cells of later classes
lie.

## Main definitions

* `Cost.check`: Whether a matrix meets the preconditions.
-/

namespace Roster

namespace Cost

/-- Fails with the first cell in row order that has a property. -/
def refuse (costs : Grid Float) (p : Float → Bool) (cause : Nat → Nat → Float → MatrixFault) :
    Except Fault Unit :=
  match costs.findCell? p with
  | some (i, j, cost) => .error (.matrix (cause i j cost))
  | none => .ok ()

/-- Fails if a declared dimension is negative. -/
def checkDeclared (n m : Int) : Except Fault Unit :=
  if n < 0 ∨ m < 0 then .error (.matrix (.negativeSize n m)) else .ok ()

/-- Fails if a cost is not finite, negative, or not below the padding sentinel. -/
def checkCells (costs : Grid Float) (sentinel : Number) : Except Fault Unit := do
  refuse costs (fun x => !x.isFinite) .notFinite
  refuse costs (fun x => x < 0.0) .negative
  match sentinel.toDouble? with
  | none => throw .tooLarge
  | some bound => refuse costs (fun x => bound ≤ x) fun i j x => .notBelowSentinel i j x sentinel

/-- Fails unless the matrix can be solved as a problem of `n` workers and `m` jobs with all
    costs below the sentinel. -/
def check (costs : Grid Float) (n m : Int) (sentinel : Number) : Except Fault Unit := do
  checkDeclared n m
  if (costs.height : Int) ≠ n ∨ (costs.width : Int) ≠ m then
    throw (.matrix (.sizeMismatch n m [costs.height, costs.width]))
  if costs.isEmpty then return ()
  checkCells costs sentinel

end Cost

end Roster
