import Roster.Number.Binary64
import Roster.Number.Rounding

/-!
# Shortest Decimal of a Double

Many decimals read back as the same double: all those in an interval around its value
that ends half way to the two neighbours. The text of a double uses the fewest digits
that fall into this interval and, among those, the decimal nearest to the value.

The search is exact. It takes the grids of 1, 2, … 17 digits in turn; on a grid only
the two neighbours of the value can be in the interval if any point is, so only these
are tested. The ends of the interval belong to it when the mantissa is even, since a
reader rounds ties to even.

All quantities are kept as natural numbers over one common scale: the value is `4m`
quarter units, the upper end `4m + 2`, the lower end `4m - 2`, or `4m - 1` where the
double below is only half as far away.

## Main definitions

* `Interval`: The reals that read back as a double.
* `onGrid?`: The nearest point of a grid in the interval.
* `shortest`: The shortest decimal of a positive finite double.
-/

namespace Roster

namespace Shortest

/-- The reals that read back as one double, in units of `top / bottom`. -/
structure Interval where
  low : Nat
  value : Nat
  high : Nat
  /-- Whether the two ends belong to the interval. -/
  closed : Bool
  top : Nat
  bottom : Nat

/-- The interval of the double `m * 2 ^ e`, for a positive mantissa. -/
def Interval.ofParts (m : Nat) (e : Int) : Interval :=
  let (top, bottom) := Binary64.quotient 1 (e - 2)
  let narrow : Bool := m == Nat.pow 2 52 && decide (-1074 < e)
  { low := if narrow then 4 * m - 1 else 4 * m - 2
    value := 4 * m
    high := 4 * m + 2
    closed := m % 2 == 0
    top := top
    bottom := bottom }

/-- Compares `c * 10 ^ k` with `x` units of the interval. -/
def Interval.comparePoint (i : Interval) (c : Nat) (k : Int) (x : Nat) : Ordering :=
  if 0 ≤ k then compare (c * Nat.pow 10 k.toNat * i.bottom) (x * i.top)
  else compare (c * i.bottom) (x * i.top * Nat.pow 10 (-k).toNat)

/-- Whether the decimal `c * 10 ^ k` reads back as the double. -/
def Interval.contains (i : Interval) (c : Nat) (k : Int) : Bool :=
  let fromLow := i.comparePoint c k i.low
  let fromHigh := i.comparePoint c k i.high
  (fromLow == .gt || (i.closed && fromLow == .eq)) &&
    (fromHigh == .lt || (i.closed && fromHigh == .eq))

/-- The number of whole steps `10 ^ k` up to the value. -/
def Interval.steps (i : Interval) (k : Int) : Nat :=
  if 0 ≤ k then i.value * i.top / (i.bottom * Nat.pow 10 k.toNat)
  else i.value * i.top * Nat.pow 10 (-k).toNat / i.bottom

/-- Whether the value lies nearer to `c + 1` than to `c` on the grid `10 ^ k`; half way it
    does when `c` is odd. -/
def Interval.nearerAbove (i : Interval) (c : Nat) (k : Int) : Bool :=
  match i.comparePoint (2 * c + 1) k (2 * i.value) with
  | .lt => true
  | .eq => c % 2 == 1
  | .gt => false

/-- The point of the grid `10 ^ k` that reads back and lies nearest to the value. -/
def Interval.onGrid? (i : Interval) (k : Int) : Option Nat :=
  let c := i.steps k
  match i.contains c k, i.contains (c + 1) k with
  | true, true => some (if i.nearerAbove c k then c + 1 else c)
  | true, false => some c
  | false, true => some (c + 1)
  | false, false => none

/-- Tries the grids from `k` downwards, at most `fuel` of them. -/
def Interval.search (i : Interval) : Nat → Int → Nat × Int
  | 0, k => (i.steps k, k)
  | fuel + 1, k =>
    match i.onGrid? k with
    | some c => (c, k)
    | none => i.search fuel (k - 1)

/-- Drops the trailing zeros of a number, each raising the exponent; `fuel` bounds how
    many. -/
def dropZeros : Nat → Nat → Int → Nat × Int
  | 0, c, k => (c, k)
  | fuel + 1, c, k => if c % 10 = 0 ∧ c ≠ 0 then dropZeros fuel (c / 10) (k + 1) else (c, k)

end Shortest

/-- The shortest decimal `c * 10 ^ k` of the positive double `m * 2 ^ e`. Seventeen digits
    always read back, so the grids with one to seventeen digits are enough. -/
def shortest (m : Nat) (e : Int) : Nat × Int :=
  let (top, bottom) := Binary64.quotient m e
  let (c, k) := (Shortest.Interval.ofParts m e).search 17 (decimalExponent top bottom)
  Shortest.dropZeros 18 c k

end Roster
