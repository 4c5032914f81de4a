/-!
# Bytes Written in Sixty-Four Characters

Three bytes are four characters of an alphabet, each of which holds six bits. A last
group may be short, and then equals signs fill it up. What is neither in the alphabet
nor an equals sign is passed over, and so is an equals sign that comes too early.

The first equals sign that completes a group ends the bytes, whatever follows. Where the
text ends instead, the last group has to be whole.

## Main definitions

* `sextet?`: The six bits of a character.
* `decode?`: The bytes of a text.
-/

namespace Roster

namespace Base64

/-- The six bits that a character of the alphabet holds. -/
def sextet? (c : Char) : Option Nat :=
  if c.isUpper then some (c.toNat - 65)
  else if c.isLower then some (c.toNat - 71)
  else if c.isDigit then some (c.toNat + 4)
  else if c == '+' then some 62
  else if c == '/' then some 63
  else none

/-- The bytes of a text within a group of which `place` characters are read; `bits` are those
    that no byte has taken yet, and `filled` counts the equals signs that stand last. -/
def decodeFrom (place bits filled : Nat) : List Char → Option (List UInt8)
  | [] => if place = 0 then some [] else none
  | c :: rest =>
    if c == '=' then
      if place < 2 then decodeFrom place bits filled rest
      else if 4 ≤ place + filled + 1 then some []
      else decodeFrom place bits (filled + 1) rest
    else
      match sextet? c with
      | none => decodeFrom place bits filled rest
      | some six =>
        if place = 0 then decodeFrom 1 six 0 rest
        else
          let unit := Nat.pow 4 (3 - place)
          let byte := UInt8.ofNat (bits * Nat.pow 4 place + six / unit)
          (decodeFrom ((place + 1) % 4) (six % unit) 0 rest).map (byte :: ·)

/-- The bytes of a text. -/
def decode? (text : List Char) : Option (List UInt8) := decodeFrom 0 0 0 text

end Base64

end Roster
