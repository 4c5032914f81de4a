import Roster.Number.Shortest

/-!
# Texts of a Double

Three texts of a double, each by its own rule.

* `plain`: the shortest decimal that reads back. It is positional while the leading
  digit stands between the fourth place after the point and the sixteenth before it,
  always with a point; otherwise it has one digit before the point and an exponent of
  at least two digits with its sign.
* `fixed`: a given number of places after the point, from the exact value.
* `scientific` and `general`: a given number of significant digits.

Both zeros keep their sign, and the values that are no numbers are `nan`, `inf` and
`-inf` in every text.

## Main definitions

* `Decimal.plain`: The shortest text of a double.
* `Decimal.fixed`: A double with a fixed number of places.
* `Decimal.scientific`: A double in scientific form.
* `Decimal.general`: A double with up to a number of significant digits.
-/

namespace Roster

namespace Decimal

/-- The decimal digits of a natural number. -/
def digits (n : Nat) : String := String.ofList (Nat.toDigits 10 n)

/-- The text of an integer. -/
def integer (i : Int) : String :=
  if i < 0 then "-" ++ digits i.natAbs else digits i.natAbs

/-- As many zeros as asked for. -/
def zeros (count : Nat) : String := String.ofList (List.replicate count '0')

/-- Pads a text on the left with zeros to a width. -/
def padZeros (width : Nat) (text : String) : String := zeros (width - text.length) ++ text

/-- A text with a point before its last `places` characters. -/
def withPoint (places : Nat) (text : String) : String :=
  if places = 0 then text
  else
    let padded := (padZeros (places + 1) text).toList
    let whole := padded.length - places
    String.ofList (padded.take whole ++ '.' :: padded.drop whole)

/-- Removes the zeros that end a fraction, and a point that then ends the text. -/
def trimFraction (text : String) : String :=
  if text.toList.contains '.' then
    let kept := text.toList.reverse.dropWhile (· == '0')
    let kept := match kept with
      | '.' :: rest => rest
      | other => other
    String.ofList kept.reverse
  else text

/-- An exponent with its sign and at least two digits. -/
def exponentText (k : Int) : String :=
  (if k < 0 then "e-" else "e+") ++ padZeros 2 (digits k.natAbs)

/-- Digits with a point after the first, and the exponent of that first digit. -/
def scientificText (digitText : String) (k : Int) : String :=
  withPoint (digitText.length - 1) digitText ++ exponentText k

/-- Applies a rule for finite doubles, which gets the magnitude, and adds the sign. -/
def signed (finite : Nat → Int → String) (x : Float) : String :=
  match Binary64.content x with
  | .nan => "nan"
  | .infinite negative => if negative then "-inf" else "inf"
  | .finite negative m e => (if negative then "-" else "") ++ finite m e

/-- The positional or scientific text of the shortest decimal `c * 10 ^ k`. -/
def plainText (c : Nat) (k : Int) : String :=
  let text := digits c
  let lead : Int := (text.length : Int) - 1 + k
  if -4 ≤ lead ∧ lead < 16 then
    if 0 ≤ k then text ++ zeros k.toNat ++ ".0" else withPoint (-k).toNat text
  else scientificText text lead

/-- The shortest text that reads back as the double. -/
def plain (x : Float) : String :=
  signed (fun m e =>
    if m = 0 then "0.0"
    else
      let (c, k) := shortest m e
      plainText c k) x

/-- The magnitude `m * 2 ^ e` with a fixed number of places. -/
def fixedMagnitude (places m : Nat) (e : Int) : String :=
  let (top, bottom) := Binary64.quotient m e
  withPoint places (digits (roundHalfEven (top * Nat.pow 10 places) bottom))

/-- A double with a fixed number of places, its exact value rounded half to even. -/
def fixed (places : Nat) (x : Float) : String := signed (fixedMagnitude places) x

/-- A double in scientific form with a fixed number of places. -/
def scientific (places : Nat) (x : Float) : String :=
  signed (fun m e =>
    if m = 0 then scientificText (zeros (places + 1)) 0
    else
      let (top, bottom) := Binary64.quotient m e
      let (n, k) := roundToDigits (places + 1) top bottom
      scientificText (digits n) k) x

/-- A double with up to `count` significant digits: positional if the exponent lies
    between -4 and `count`, else scientific, without the zeros that end the fraction. -/
def general (count : Nat) (x : Float) : String :=
  signed (fun m e =>
    if m = 0 then "0"
    else
      let (top, bottom) := Binary64.quotient m e
      let (n, k) := roundToDigits count top bottom
      if -4 ≤ k ∧ k < count then
        trimFraction (fixedMagnitude ((count : Int) - 1 - k).toNat m e)
      else
        trimFraction (withPoint (count - 1) (digits n)) ++ exponentText k) x

end Decimal

end Roster
