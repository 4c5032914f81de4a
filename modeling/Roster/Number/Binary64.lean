/-!
# Content of a Double

A double is a class, a sign and, when it is finite, an exact value `± m · 2 ^ e`.
Everything that has to be exact about doubles here - their shortest text, their
fixed-place text, their comparison with unbounded integers - is decided on `m` and
`e` in whole numbers, never by floating point arithmetic, which would round on the
way to the answer.

`content` reads the three fields of the bit pattern. A subnormal number keeps the
least exponent and has no implicit leading bit; every other finite number has one.

## Main definitions

* `Content`: What a double holds.
* `content`: The content of a double.
* `toRat?`: The exact value of a finite double.
* `ofInt?`: The double nearest to an integer, if the integer is in range.
* `compareInt?`: Exact comparison with an unbounded integer.
-/

namespace Roster

namespace Binary64

/-- What a double holds. The value of `finite negative m e` is `m * 2 ^ e`, negated if
    `negative` is set, so that both zeros are told apart. -/
inductive Content where
  | nan
  | infinite (negative : Bool)
  | finite (negative : Bool) (mantissa : Nat) (exponent : Int)
  deriving Repr, DecidableEq

/-- The content of a double, read from the sign bit, eleven exponent bits and 52
    fraction bits of its pattern. -/
def content (x : Float) : Content :=
  let bits := x.toBits.toNat
  let negative := bits / Nat.pow 2 63 == 1
  let field : Nat := bits / Nat.pow 2 52 % Nat.pow 2 11
  let fraction : Nat := bits % Nat.pow 2 52
  if field = 2047 then
    if fraction = 0 then .infinite negative else .nan
  else if field = 0 then .finite negative fraction (-1074)
  else .finite negative (fraction + Nat.pow 2 52) (Int.ofNat field - 1075)

/-- Whether the sign bit is set; a NaN counts as unsigned. -/
def Content.isNegative : Content → Bool
  | .nan => false
  | .infinite negative => negative
  | .finite negative _ _ => negative

/-- The value of `m * 2 ^ e` as a quotient of natural numbers. -/
def quotient (m : Nat) (e : Int) : Nat × Nat :=
  if 0 ≤ e then (m * Nat.pow 2 e.toNat, 1) else (m, Nat.pow 2 (-e).toNat)

/-- The exact value of a finite double. -/
def toRat? (x : Float) : Option Rat :=
  match content x with
  | .finite negative m e =>
    let (top, bottom) := quotient m e
    let value := mkRat top bottom
    some (if negative then -value else value)
  | _ => none

/-- The double nearest to an integer, ties to even; none if that would be infinite. -/
def ofInt? (i : Int) : Option Float :=
  let x := Float.ofInt i
  if x.isFinite then some x else none

/-- Exactly compares a double with an integer; none for a NaN. -/
def compareInt? (x : Float) (i : Int) : Option Ordering :=
  match content x with
  | .nan => none
  | .infinite negative => some (if negative then .lt else .gt)
  | .finite negative m e =>
    let (top, bottom) := quotient m e
    let signed : Int := if negative then -top else top
    some (compare signed (i * bottom))

end Binary64

end Roster
