import Roster.Number.Print
import Roster.Number.Reading

/-!
# Numbers of Mixed Kind

A setting may be given as an integer of any size, as a double or as a truth value,
and keeps the form in which it was given. Numbers of different kinds compare by their
exact values: an integer beyond the precision of a double is never rounded for a
comparison. A truth value counts as one or zero.

A comparison with the value that is no number is false in both directions, so `less`
is no total order and `¬ less a b` does not mean `b ≤ a`.

## Main definitions

* `Number`: An integer, a double or a truth value.
* `Number.less`, `Number.atMost`, `Number.same`: Exact comparison.
* `Number.text`: The number as it was given.
* `Number.isWritable`: Whether the number has a text at all.
* `Number.toDouble?`: The nearest double, if the number is in range.
* `Number.distance?`: The distance of two numbers.
-/

namespace Roster

/-- A number in the form in which it was given. -/
inductive Number where
  | whole (value : Int)
  | real (value : Float)
  | truth (value : Bool)

namespace Number

/-- The number with a truth value read as one or zero. -/
def asNumeral : Number → Number
  | .truth b => .whole (if b then 1 else 0)
  | n => n

/-- Exact order of the values; undefined as soon as one is not a number. -/
def compare? (a b : Number) : Option Ordering :=
  match a.asNumeral, b.asNumeral with
  | .whole i, .whole j => some (compare i j)
  | .real x, .whole j => Binary64.compareInt? x j
  | .whole i, .real y => (Binary64.compareInt? y i).map Ordering.swap
  | .real x, .real y =>
    if x < y then some .lt else if y < x then some .gt else if x == y then some .eq else none
  | _, _ => none

/-- Whether the first value lies below the second. -/
def less (a b : Number) : Bool := compare? a b == some .lt

/-- Whether the first value is at most the second. -/
def atMost (a b : Number) : Bool :=
  match compare? a b with
  | some .lt => true
  | some .eq => true
  | _ => false

/-- Whether the values are equal. -/
def same (a b : Number) : Bool := compare? a b == some .eq

/-- The number as it was given: integers by their digits, doubles by their shortest text,
    truth values by name. -/
def text : Number → String
  | .whole i => Decimal.integer i
  | .real x => Decimal.plain x
  | .truth b => if b then "True" else "False"

/-- Whether the number may be written out, which very long integers may not. -/
def isWritable : Number → Bool
  | .whole i => i.natAbs < Nat.pow 10 Whole.maxDigits
  | _ => true

/-- The nearest double; none for an integer beyond the largest one. -/
def toDouble? : Number → Option Float
  | .whole i => Binary64.ofInt? i
  | .real x => some x
  | .truth b => some (if b then 1.0 else 0.0)

/-- The distance of two numbers: exact between integers, and between their doubles as soon as
    one is a double. -/
def distance? (a b : Number) : Option Number :=
  match a.asNumeral, b.asNumeral with
  | .whole i, .whole j => some (.whole (i - j).natAbs)
  | a, b => a.toDouble?.bind fun x => b.toDouble?.map fun y => .real (x - y).abs

/-- The second of two numbers if it is greater, else the first. -/
def greater (a b : Number) : Number := if a.less b then b else a

end Number

end Roster
