import Roster.Number.Binary64

/-!
# Rounding of Quotients

One rounding rule for everything that is printed: a quotient goes to the nearest
whole number, and one that lies exactly half way goes to the even neighbour. Texts
with fixed places and texts with a fixed number of digits both scale first and then
round once, here.

## Main definitions

* `roundHalfEven`: The whole number nearest to a quotient, ties to even.
* `roundSigned`: The same with a sign.
* `Binary64.toWord`: A double as an integer of 64 bits.
* `digitCount`: The number of decimal digits of a natural number.
* `decimalExponent`: The power of ten of a quotient's leading digit.
* `roundToDigits`: A quotient to a number of significant digits.

## Theorems

* `roundHalfEven_close`: The result is at most one half away.
-/

namespace Roster

/-- The whole number nearest to `top / bottom`; a tie goes to the even neighbour. -/
def roundHalfEven (top bottom : Nat) : Nat :=
  let q := top / bottom
  let twice := 2 * (top % bottom)
  if twice < bottom then q
  else if bottom < twice then q + 1
  else if q % 2 = 0 then q else q + 1

/-- Rounding moves a quotient by at most one half, in units of its denominator. -/
theorem roundHalfEven_close (top : Nat) {bottom : Nat} (h : 0 < bottom) :
    2 * (bottom * roundHalfEven top bottom) ≤ 2 * top + bottom ∧
      2 * top ≤ 2 * (bottom * roundHalfEven top bottom) + bottom := by
  have hdiv := Nat.div_add_mod top bottom
  have hup : bottom * (top / bottom + 1) = bottom * (top / bottom) + bottom := Nat.mul_succ _ _
  have hmod := Nat.mod_lt top h
  unfold roundHalfEven
  simp only
  split
  · omega
  · split
    · omega
    · split
      · omega
      · omega

/-- The whole number nearest to a quotient with a sign; a tie goes to the even neighbour. -/
def roundSigned (negative : Bool) (top bottom : Nat) : Int :=
  let n : Int := roundHalfEven top bottom
  if negative then -n else n

namespace Binary64

/-- The whole number nearest to a finite double, ties to even. -/
def nearestWhole? (x : Float) : Option Int :=
  match content x with
  | .finite negative m e =>
    let (top, bottom) := quotient m e
    some (roundSigned negative top bottom)
  | _ => none

/-- The least integer of 64 bits with a sign. -/
def leastWord : Int := -9223372036854775808

/-- A double as an integer of 64 bits with a sign. Nothing is checked: what is no number, or
    nearest to one that has no place, becomes the least of them. -/
def toWord (x : Float) : Int :=
  match nearestWhole? x with
  | some n => if leastWord ≤ n ∧ n < -leastWord then n else leastWord
  | none => leastWord

end Binary64

/-- The number of decimal digits of `n`; zero has one. -/
def digitCount (n : Nat) : Nat := (Nat.toDigits 10 n).length

/-- Whether `10 ^ k ≤ top / bottom`. -/
def reachesPower (top bottom : Nat) (k : Int) : Bool :=
  if 0 ≤ k then bottom * Nat.pow 10 k.toNat ≤ top else bottom ≤ top * Nat.pow 10 (-k).toNat

/-- The power of ten of the leading digit of a positive quotient. The digit counts of
    its two parts leave two candidates, and the larger is tried first. -/
def decimalExponent (top bottom : Nat) : Int :=
  let k : Int := (digitCount top : Int) - (digitCount bottom : Int)
  if reachesPower top bottom k then k else k - 1

/-- The quotient `top / bottom` in units of `10 ^ k`, rounded half to even. -/
def roundInUnits (top bottom : Nat) (k : Int) : Nat :=
  if 0 ≤ k then roundHalfEven top (bottom * Nat.pow 10 k.toNat)
  else roundHalfEven (top * Nat.pow 10 (-k).toNat) bottom

/-- A positive quotient to `digits` significant digits: the digits as one number and the
    power of ten of the first of them. Rounding up to the next power of ten leaves one
    digit too many, and the last of them is then a zero. -/
def roundToDigits (digits : Nat) (top bottom : Nat) : Nat × Int :=
  let k := decimalExponent top bottom
  let n := roundInUnits top bottom (k - (digits : Int) + 1)
  if n = Nat.pow 10 digits then (n / 10, k + 1) else (n, k)

end Roster
