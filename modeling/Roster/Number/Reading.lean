import Roster.Text.Blank
import Roster.Text.Digit

/-!
# Reading Numbers

A decimal number is an optional sign, digits with at most one point among or around
them, and an optional exponent; in place of digits it may name an infinity or the
value that is no number. `Decimal.parse?` reads exactly that. `Decimal.read?` is the
wider form for numbers given as texts: blanks around the number are ignored, the
digits may be of any script, and a single `_` may stand between two digits.

The value is the double nearest to the decimal, a tie going to the even one. A decimal
beyond the largest double is infinite; the exponent is compared before any power of
ten is formed, so that an absurd exponent costs nothing.

## Main definitions

* `Decimal.parse?`: A double from the plain form.
* `Decimal.read?`: A double from the wider form.
* `Whole.read?`: An integer from the wider form.
-/

namespace Roster

namespace Decimal

/-- The value that is no number. -/
def notANumber : Float := Float.ofBits 0x7FF8000000000000

/-- The positive infinity. -/
def infinity : Float := Float.ofBits 0x7FF0000000000000

/-- The number written by decimal digits. -/
def ofDigits (cs : List Char) : Nat := cs.foldl (fun n c => 10 * n + (c.toNat - 48)) 0

/-- The double nearest to `n * 10 ^ k`. -/
def nearest (n : Nat) (k : Int) : Float :=
  if n = 0 then 0.0
  else
    let lead : Int := ((Nat.toDigits 10 n).length : Int) - 1 + k
    if lead > 310 then infinity
    else if lead < -330 then 0.0
    else Float.ofScientific n (decide (k < 0)) k.natAbs

/-- Digits at the front of a text, and what follows them. -/
def spanDigits (cs : List Char) : List Char × List Char :=
  (cs.takeWhile Char.isDigit, cs.dropWhile Char.isDigit)

/-- A sign at the front of a text: whether it is a minus, and what follows. -/
def spanSign : List Char → Bool × List Char
  | '-' :: rest => (true, rest)
  | '+' :: rest => (false, rest)
  | rest => (false, rest)

/-- The exponent that ends a number: nothing at all is zero. -/
def exponent? : List Char → Option Int
  | [] => some 0
  | c :: rest =>
    if c == 'e' || c == 'E' then
      let (negative, rest) := spanSign rest
      let (ds, rest) := spanDigits rest
      if ds.isEmpty || !rest.isEmpty then none
      else some (if negative then -(ofDigits ds : Int) else ofDigits ds)
    else none

/-- The magnitude of a number in plain form. -/
def magnitude? (cs : List Char) : Option Float :=
  let name := String.ofList (cs.map Char.toLower)
  if name == "inf" || name == "infinity" then some infinity
  else if name == "nan" then some notANumber
  else
    let (whole, rest) := spanDigits cs
    let (fraction, rest) := match rest with
      | '.' :: rest => spanDigits rest
      | rest => ([], rest)
    if whole.isEmpty && fraction.isEmpty then none
    else (exponent? rest).map fun k => nearest (ofDigits (whole ++ fraction)) (k - fraction.length)

/-- A double from the plain form, which has to be the whole text. -/
def parseChars? (cs : List Char) : Option Float :=
  let (negative, rest) := spanSign cs
  (magnitude? rest).map fun x => if negative then -x else x

/-- A double from the plain form, which has to be the whole text. -/
def parse? (s : String) : Option Float := parseChars? s.toList

/-- Removes the underscores, each of which has to stand between two digits. -/
def joinDigits? : Option Char → List Char → Option (List Char)
  | _, [] => some []
  | before, '_' :: rest =>
    match before, rest with
    | some b, next :: _ =>
      if b.isDigit && next.isDigit then joinDigits? (some '_') rest else none
    | _, _ => none
  | _, c :: rest => (joinDigits? (some c) rest).map (c :: ·)

/-- A double from the wider form: blanks around it, digits of any script, single
    underscores between digits. -/
def read? (s : String) : Option Float :=
  match joinDigits? none ((Text.stripSpacing s.toList).map Text.toAsciiDigit) with
  | some cs => parseChars? cs
  | none => none

end Decimal

namespace Whole

/-- The longest integer text that is read, in digits. -/
def maxDigits : Nat := 4300

/-- An integer from a sign and digits, which have to be all of the text. -/
def parseChars? (cs : List Char) : Option Int :=
  let (negative, rest) := Decimal.spanSign cs
  if rest.isEmpty || !rest.all Char.isDigit || maxDigits < rest.length then none
  else
    let n : Int := Decimal.ofDigits rest
    some (if negative then -n else n)

/-- An integer from the wider form: blanks around it, digits of any script, single
    underscores between digits. -/
def read? (s : String) : Option Int :=
  match Decimal.joinDigits? none ((Text.stripSpacing s.toList).map Text.toAsciiDigit) with
  | some cs => parseChars? cs
  | none => none

end Whole

end Roster
