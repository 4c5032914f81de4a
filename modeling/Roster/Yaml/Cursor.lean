/-!
# A Place in a Text

A text in this format is read from the front, and what a character means depends on the
column it stands in and on the line it stands on. A cursor is the rest of the text with
the place where it begins.

Besides line feeds and carriage returns, three characters of Unicode break lines. A byte order mark
takes no column.

## Main definitions

* `Cursor`: The rest of a text and its place.
* `Cursor.advance`: One character further.
* `Cursor.spanWhile`: The characters at the front with a property.
* `Cursor.atMarker`: Whether a line begins with a document marker.
-/

namespace Roster

namespace Yaml

/-- Whether a character breaks a line. -/
def isBreak (c : Char) : Bool :=
  c == '\n' || c == '\r' || c.toNat == 0x85 || c.toNat == 0x2028 || c.toNat == 0x2029

/-- Whether a character breaks a line when some characters follow it; a carriage return
    before a line feed does not, since the line feed does. -/
def breaksLine (c : Char) (rest : List Char) : Bool :=
  isBreak c && !(c == '\r' && rest.head? == some '\n')

/-- Whether a character is a plain blank or a tab. -/
def isSpace (c : Char) : Bool := c == ' ' || c == '\t'

/-- Whether a place holds a blank, a line break or nothing at all. -/
def endsWord : Option Char → Bool
  | none => true
  | some c => isSpace c || isBreak c

/-- Whether a place holds a line break or nothing at all. -/
def endsLine : Option Char → Bool
  | none => true
  | some c => isBreak c

/-- The rest of a text and the place where it begins. -/
structure Cursor where
  rest : List Char
  index : Nat
  line : Nat
  column : Nat

namespace Cursor

/-- The beginning of a text. -/
def start (text : List Char) : Cursor := { rest := text, index := 0, line := 0, column := 0 }

/-- The character at the cursor. -/
def peek (c : Cursor) : Option Char := c.rest.head?

/-- The character some places after the cursor. -/
def peekAt (c : Cursor) (offset : Nat) : Option Char := c.rest[offset]?

/-- One character further; at the end, nothing moves. -/
def advance (c : Cursor) : Cursor :=
  match c.rest with
  | [] => c
  | x :: rest =>
    if breaksLine x rest then
      { rest := rest, index := c.index + 1, line := c.line + 1, column := 0 }
    else if x.toNat == 0xFEFF then { c with rest := rest, index := c.index + 1 }
    else { c with rest := rest, index := c.index + 1, column := c.column + 1 }

/-- Some characters further. -/
def skip : Nat → Cursor → Cursor
  | 0, c => c
  | n + 1, c => skip n c.advance

/-- The characters at the front with a property, and the cursor after them. -/
def spanWhile (p : Char → Bool) (c : Cursor) : List Char × Cursor :=
  let found := c.rest.takeWhile p
  (found, c.skip found.length)

/-- The cursor after the characters at the front with a property. -/
def skipWhile (p : Char → Bool) (c : Cursor) : Cursor := (c.spanWhile p).2

/-- A line break at the cursor, and the cursor after it. All breaks but the line and
    paragraph separators count as line feeds, and a carriage return with a line feed as
    one. -/
def takeBreak (c : Cursor) : Option (Char × Cursor) :=
  match c.rest with
  | '\r' :: '\n' :: _ => some ('\n', c.skip 2)
  | x :: _ =>
    if isBreak x then
      some (if x.toNat == 0x2028 || x.toNat == 0x2029 then x else '\n', c.advance)
    else none
  | [] => none

/-- The cursor after a line break, if there is one. -/
def skipBreak (c : Cursor) : Cursor :=
  match c.takeBreak with
  | some (_, next) => next
  | none => c

/-- Whether three equal characters stand here as a word of their own. -/
def startsWith3 (c : Cursor) (mark : Char) : Bool :=
  c.peek == some mark && c.peekAt 1 == some mark && c.peekAt 2 == some mark &&
    endsWord (c.peekAt 3)

/-- Whether one of the two document markers stands here. -/
def atMarker (c : Cursor) : Bool := c.startsWith3 '-' || c.startsWith3 '.'

end Cursor

end Yaml

end Roster
