/-!
# Blank Characters

The characters that are stripped around a field: the controls that move the cursor, the
four information separators, and every Unicode space and line separator. The plain
class of `Char.isWhitespace` knows four of them only. Around a number by itself the
information separators are not ignored.

## Main definitions

* `isBlank`: Whether a character is blank.
* `isSpacing`: Whether a blank may stand around a number.
* `strip`: A text without the blanks around it.
-/

namespace Roster

namespace Text

/-- Whether a character counts as blank. -/
def isBlank (c : Char) : Bool :=
  let n := c.toNat
  (9 ≤ n && n ≤ 13) || (28 ≤ n && n ≤ 32) || n == 0x85 || n == 0xA0 || n == 0x1680 ||
    (0x2000 ≤ n && n ≤ 0x200A) || n == 0x2028 || n == 0x2029 || n == 0x202F || n == 0x205F ||
    n == 0x3000

/-- Whether a character is ignored around a number: every blank but the four information
    separators. -/
def isSpacing (c : Char) : Bool := isBlank c && !(28 ≤ c.toNat && c.toNat ≤ 31)

/-- Characters without those with a property at either end. -/
def stripChars (p : Char → Bool) (cs : List Char) : List Char :=
  ((cs.dropWhile p).reverse.dropWhile p).reverse

/-- Characters without what is ignored around a number. -/
def stripSpacing (cs : List Char) : List Char := stripChars isSpacing cs

/-- A text without the blanks at either end. -/
def strip (s : String) : String := String.ofList (stripChars isBlank s.toList)

end Text

end Roster
