/-!
# The Arithmetic of a Search

The search for a cheapest matching adds, subtracts, compares, and picks the least of
some numbers; it does nothing else with costs. This structure holds these operations
and no laws, so one search serves doubles, where sums are rounded and a comparison may
fail both ways, and exact numbers, where the laws of an ordered group make the result
optimal. What is true of a search over every `Arithmetic` is true however wrongly its
numbers behave.

`least` answers with the place of its choice among the numbers it was given, so even a
choice that is not least is one of them.

## Main definitions

* `Arithmetic`: The operations of a search.
* `leastBy`: The first choice under a rule that says which number displaces which.
* `Arithmetic.ofOrder`: The arithmetic of exact numbers.
* `Arithmetic.double`: The arithmetic of doubles.
-/

namespace Roster

/-- The operations on costs that a search uses. -/
structure Arithmetic (α : Type) where
  zero : α
  add : α → α → α
  sub : α → α → α
  less : α → α → Bool
  /-- The place of the least of some numbers, of which there is at least one. -/
  least : (x : α) → (xs : List α) → Fin (xs.length + 1)

/-- The place of the number that remains when each number is displaced by the choice among
    those after it, as far as the rule `displaces` says so. If the rule is a strict order,
    this is the first least number. -/
def leastBy {α : Type} (displaces : α → α → Bool) (x : α) : (xs : List α) → Fin (xs.length + 1)
  | [] => 0
  | y :: ys =>
    let k := leastBy displaces y ys
    if displaces ((y :: ys).get k) x then k.succ else 0

namespace Arithmetic

/-- The arithmetic of exact numbers: the first least number is chosen. -/
def ofOrder {α : Type} [Zero α] [Add α] [Sub α] [LT α] [DecidableRel (α := α) (· < ·)] :
    Arithmetic α where
  zero := 0
  add := (· + ·)
  sub := (· - ·)
  less a b := decide (a < b)
  least := leastBy fun a b => decide (a < b)

/-- Whether a double displaces another as the least: a value that is no number displaces
    every number and is displaced by nothing. -/
def displacesDouble (a b : Float) : Bool := !b.isNaN && (a.isNaN || decide (a < b))

/-- The arithmetic of doubles: every operation is rounded on its own, and the first value
    that is no number counts as the least. -/
def double : Arithmetic Float where
  zero := 0.0
  add := (· + ·)
  sub := (· - ·)
  less a b := decide (a < b)
  least := leastBy displacesDouble

end Arithmetic

end Roster
