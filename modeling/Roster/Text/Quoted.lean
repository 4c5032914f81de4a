import Roster.Text.Printable

/-!
# Quoted Texts

A quoted text shows exactly which characters a text holds. It stands between single
quotes, unless the text has single quotes and no double ones. The backslash, the
chosen quote and the three common controls are escaped by a backslash; any other
character that is not printable is written as its code in hexadecimal, with two, four
or eight digits, whichever is the first to hold it. A text of codes, some of which stand
for no character, is quoted by the same rules. Bytes are quoted behind a letter, and only
those that are printable ASCII stand for themselves.

## Main definitions

* `quote`: A text between quotes.
* `quoteCodes`: A text of codes between quotes.
* `quoteBytes`: Bytes between quotes.
-/

namespace Roster

namespace Text

/-- A number in hexadecimal with at least `width` digits. -/
def hex (width n : Nat) : String :=
  let text := Nat.toDigits 16 n
  String.ofList (List.replicate (width - text.length) '0' ++ text)

/-- The code of a character in hexadecimal, behind a backslash. -/
def escapeCode (n : Nat) : String :=
  if n < 0x100 then "\\x" ++ hex 2 n
  else if n < 0x10000 then "\\u" ++ hex 4 n
  else "\\U" ++ hex 8 n

/-- One character inside quotes of the kind `mark`. -/
def escape (mark c : Char) : String :=
  if c == mark || c == '\\' then String.ofList ['\\', c]
  else if c == '\n' then "\\n"
  else if c == '\r' then "\\r"
  else if c == '\t' then "\\t"
  else if isPrintable c then String.ofList [c]
  else escapeCode c.toNat

/-- The quotes around some characters. -/
def quoteMark (cs : List Char) : Char :=
  if cs.contains '\'' && !cs.contains '"' then '"' else '\''

/-- A text between quotes, with everything escaped that would not show. -/
def quote (s : String) : String :=
  let cs := s.toList
  let mark := quoteMark cs
  String.ofList [mark] ++ String.join (cs.map (escape mark)) ++ String.ofList [mark]

/-- The character of a code, if it stands for one. -/
def charOfCode? (n : Nat) : Option Char :=
  if h : n.isValidChar then some (Char.ofNatAux n h) else none

/-- A text of codes between quotes. -/
def quoteCodes (codes : List Nat) : String :=
  let mark := quoteMark (codes.filterMap charOfCode?)
  let one (n : Nat) : String := (charOfCode? n).elim (escapeCode n) (escape mark)
  String.ofList [mark] ++ String.join (codes.map one) ++ String.ofList [mark]

/-- One byte inside quotes of the kind `mark`. -/
def escapeByte (mark : Char) (b : UInt8) : String :=
  if 0x7F ≤ b.toNat then escapeCode b.toNat else escape mark (Char.ofNat b.toNat)

/-- Bytes between quotes. -/
def quoteBytes (bytes : List UInt8) : String :=
  let mark := quoteMark (bytes.map fun b => Char.ofNat b.toNat)
  String.ofList ['b', mark] ++ String.join (bytes.map (escapeByte mark)) ++ String.ofList [mark]

end Text

end Roster
