import Roster.Number.Scalar

/-!
# The Order of Numbers in a Set

A set keeps its numbers in the slots of a table and shows them in the order of the
slots. The slot of a number follows from its residue by a large prime, so that equal
numbers of different kinds share it; a slot that is taken sends the number on to others.

The table has at least twice as many slots as the set has numbers, so some slot is
always free.

## Main definitions

* `Number.residue`: What a number leaves of a large prime.
* `Slot.sort`: Numbers in the order of their slots.
-/

namespace Roster

/-- The prime by which residues are taken. -/
def Number.modulus : Nat := 2305843009213693951

/-- A residue with a sign. Minus one is not used. -/
def Number.signed (negative : Bool) (residue : Nat) : Int :=
  let r : Int := if negative then -residue else residue
  if r = -1 then -2 else r

/-- What a number leaves of the prime. A division by two is a product with its inverse, and
    sixty-one of them change nothing. -/
def Number.residue (n : Number) : Int :=
  match n.asNumeral with
  | .real x =>
    match Binary64.content x with
    | .nan => 0
    | .infinite negative => if negative then -314159 else 314159
    | .finite negative m e =>
      let shift := (e % 61).toNat
      Number.signed negative (m * Nat.pow 2 shift % Number.modulus)
  | .whole i => Number.signed (i < 0) (i.natAbs % Number.modulus)
  | .truth _ => 0

namespace Slot

/-- The number of slots for so many numbers: a power of two. -/
def tableSize (count : Nat) : Nat :=
  if count < 5 then 8 else Nat.pow 2 (Nat.log2 (2 * count) + 1)

/-- How many slots behind the first one are tried in a row, if the table has them. -/
def reach : Nat := 9

/-- A free slot of a table, tried from `start` on; `hint` leads to other places, less and
    less of it each time. -/
def free (size : Nat) (taken : List Nat) : Nat → Nat → Nat → Nat
  | 0, start, _ => start
  | fuel + 1, start, hint =>
    let last := if start + reach < size then reach else 0
    match ((List.range (last + 1)).map (start + ·)).find? fun slot => !taken.contains slot with
    | some slot => slot
    | none => free size taken fuel ((start * 5 + 1 + hint / 32) % size) (hint / 32)

/-- Puts numbers into the slots of a table, one after the other. -/
def fill {β : Type} (size : Nat) (residue : β → Int) :
    List β → List (Nat × β) → List (Nat × β)
  | [], placed => placed
  | x :: rest, placed =>
    let hint := ((residue x) % (Nat.pow 2 64 : Nat)).toNat
    let slot := free size (placed.map Prod.fst) (size + 16) (hint % size) hint
    fill size residue rest (placed ++ [(slot, x)])

/-- Things with residues in the order of their slots. -/
def sort {β : Type} (residue : β → Int) (items : List β) : List β :=
  let placed := fill (tableSize items.length) residue items []
  (placed.mergeSort fun a b => a.1 ≤ b.1).map Prod.snd

end Slot

end Roster
