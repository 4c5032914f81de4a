import Roster.Fault
import Roster.Yaml.Cursor

/-!
# Scalars and Their Folding

The five ways to write a scalar. In plain and quoted scalars a line break between words
is folded: a single one becomes a blank, and of several the first is dropped. A literal
block keeps its line breaks; a folded block folds them between lines that do not start
with a blank. The indicators after a block's mark say how its final line breaks are
kept and how deep it is indented.

Each reader takes the cursor behind the opening mark and returns the characters of the
scalar with the cursor behind it; `none` means that the text is malformed. The loops
consume a character each time round, so the length of the rest bounds them. A
double-quoted scalar can name characters by their codes, and so can hold codes that
stand for none; it is read as codes, and a code beyond all characters is a fault.

## Main definitions

* `singleQuoted`, `doubleQuoted`: Quoted scalars.
* `plain`: A plain scalar.
* `block`: A literal or folded block.
-/

namespace Roster

namespace Yaml

namespace Quotation

/-- Characters that were read, and the cursor behind them. -/
abbrev Read := List Char × Cursor

/-! ## Quoted scalars -/

/-- Blanks and line breaks before a line of a quoted scalar; a document marker may not stand
    there. -/
def lineBreaks : Nat → Cursor → Option Read
  | 0, _ => none
  | fuel + 1, c =>
    if c.atMarker then none
    else
      let c := c.skipWhile isSpace
      match c.takeBreak with
      | some (x, next) => (lineBreaks fuel next).map fun (xs, last) => (x :: xs, last)
      | none => some ([], c)

/-- A first line break and those after it, folded. -/
def fold (first : Char) (others : List Char) : List Char :=
  if first != '\n' then first :: others
  else if others.isEmpty then [' '] else others

/-- The blanks between two words of a quoted scalar, folded if they hold a line break. -/
def gap (c : Cursor) : Option Read :=
  let (blanks, c) := c.spanWhile isSpace
  match c.peek with
  | none => none
  | some _ =>
    match c.takeBreak with
    | some (first, next) =>
      (lineBreaks (next.rest.length + 1) next).map fun (others, last) => (fold first others, last)
    | none => some (blanks, c)

/-- The character that a one-letter escape stands for. -/
def escaped? (c : Char) : Option Char :=
  match c with
  | '0' => some (Char.ofNat 0)
  | 'a' => some (Char.ofNat 7)
  | 'b' => some (Char.ofNat 8)
  | 't' => some '\t'
  | '\t' => some '\t'
  | 'n' => some '\n'
  | 'v' => some (Char.ofNat 11)
  | 'f' => some (Char.ofNat 12)
  | 'r' => some '\r'
  | 'e' => some (Char.ofNat 27)
  | ' ' => some ' '
  | '"' => some '"'
  | '\\' => some '\\'
  | '/' => some '/'
  | 'N' => some (Char.ofNat 0x85)
  | '_' => some (Char.ofNat 0xA0)
  | 'L' => some (Char.ofNat 0x2028)
  | 'P' => some (Char.ofNat 0x2029)
  | _ => none

/-- The number of hexadecimal digits behind an escape letter. -/
def codeLength? (c : Char) : Option Nat :=
  match c with
  | 'x' => some 2
  | 'u' => some 4
  | 'U' => some 8
  | _ => none

/-- The value of a hexadecimal digit. -/
def hexDigit? (c : Char) : Option Nat :=
  if c.isDigit then some (c.toNat - 48)
  else if 'a' ≤ c ∧ c ≤ 'f' then some (c.toNat - 87)
  else if 'A' ≤ c ∧ c ≤ 'F' then some (c.toNat - 55)
  else none

/-- The value of some hexadecimal digits, if there are exactly so many. -/
def hexValue? (digits : List Char) (count : Nat) : Option Nat :=
  if digits.length = count then
    digits.foldlM (fun n c => (hexDigit? c).map (16 * n + ·)) 0
  else none

/-- Codes that were read, and the cursor behind them. -/
abbrev CodeRead := List Nat × Cursor

/-- Characters that were read, as codes. -/
def Read.codes (found : Option Read) : Except Fault CodeRead :=
  match found with
  | some (cs, c) => .ok (cs.map Char.toNat, c)
  | none => .error .malformedDocument

/-- The least number that is too large for a code of any kind. -/
def codeLimit : Nat := 0x80000000

/-- The number of codes, of which some stand for no character. -/
def codeCount : Nat := 0x110000

/-- A code, if there is one of this number. -/
def checkCode (n : Nat) : Except Fault Nat :=
  if codeLimit ≤ n then .error .tooLarge
  else if codeCount ≤ n then .error .noCharacter
  else .ok n

/-- The escape behind a backslash. -/
def escape (c : Cursor) : Except Fault CodeRead :=
  match c.peek with
  | none => .error .malformedDocument
  | some x =>
    match escaped? x with
    | some y => .ok ([y.toNat], c.advance)
    | none =>
      match codeLength? x with
      | some count =>
        let c := c.advance
        match hexValue? (c.rest.take count) count with
        | some n => (checkCode n).map fun code => ([code], c.skip count)
        | none => .error .malformedDocument
      | none =>
        match c.takeBreak with
        | some (_, next) => Read.codes (lineBreaks (next.rest.length + 1) next)
        | none => .error .malformedDocument

/-- Words and gaps of a single-quoted scalar up to its end; two quotes stand for one. -/
def singleTail : Nat → Cursor → Option Read
  | 0, _ => none
  | fuel + 1, c =>
    match c.peek with
    | none => none
    | some x =>
      if x == '\'' then
        if c.peekAt 1 == some '\'' then
          (singleTail fuel (c.skip 2)).map fun (xs, last) => ('\'' :: xs, last)
        else some ([], c.advance)
      else if isSpace x || isBreak x then
        (gap c).bind fun (blanks, next) =>
          (singleTail fuel next).map fun (xs, last) => (blanks ++ xs, last)
      else (singleTail fuel c.advance).map fun (xs, last) => (x :: xs, last)

/-- Words, gaps and escapes of a double-quoted scalar up to its end. -/
def doubleTail : Nat → Cursor → Except Fault CodeRead
  | 0, _ => .error .malformedDocument
  | fuel + 1, c =>
    match c.peek with
    | none => .error .malformedDocument
    | some x =>
      if x == '"' then .ok ([], c.advance)
      else if x == '\\' then
        (escape c.advance).bind fun (ys, next) =>
          (doubleTail fuel next).map fun (xs, last) => (ys ++ xs, last)
      else if isSpace x || isBreak x then
        (Read.codes (gap c)).bind fun (blanks, next) =>
          (doubleTail fuel next).map fun (xs, last) => (blanks ++ xs, last)
      else (doubleTail fuel c.advance).map fun (xs, last) => (x.toNat :: xs, last)

/-- A single-quoted scalar behind its opening quote. -/
def singleQuoted (c : Cursor) : Option Read := singleTail (c.rest.length + 1) c

/-- A double-quoted scalar behind its opening quote. -/
def doubleQuoted (c : Cursor) : Except Fault CodeRead := doubleTail (c.rest.length + 1) c

/-! ## Plain scalars -/

/-- Whether a character is one of those that structure a flow collection. -/
def isFlowMark (c : Char) : Bool := c == ',' || c == '[' || c == ']' || c == '\x7b' || c == '\x7d'

/-- Whether a word of a plain scalar ends before a character and the one behind it. -/
def endsPlainWord (inFlow : Bool) (c : Char) (behind : Option Char) : Bool :=
  endsWord (some c) ||
    (c == ':' && (endsWord behind || (inFlow && behind.any isFlowMark))) ||
    (inFlow && (isFlowMark c || c == '?'))

/-- A word of a plain scalar at the front of a text. -/
def plainWord (inFlow : Bool) : List Char → List Char
  | [] => []
  | c :: rest => if endsPlainWord inFlow c rest.head? then [] else c :: plainWord inFlow rest

/-- What stands between two words of a plain scalar. -/
structure Gap where
  /-- The folded blanks; none at all ends the scalar. -/
  blanks : List Char
  /-- Whether a line was ended. -/
  newLine : Bool
  cursor : Cursor

/-- Line breaks and blanks after the first line break of a gap; none before a document
    marker. -/
def plainBreaks : Nat → Cursor → Option (List Char) × Cursor
  | 0, c => (some [], c)
  | fuel + 1, c =>
    match c.peek with
    | none => (some [], c)
    | some x =>
      if x == ' ' then plainBreaks fuel c.advance
      else
        match c.takeBreak with
        | none => (some [], c)
        | some (x, next) =>
          if next.atMarker then (none, next)
          else
            let (others, last) := plainBreaks fuel next
            (others.map (x :: ·), last)

/-- The gap behind a word of a plain scalar. -/
def plainGap (c : Cursor) : Gap :=
  let (blanks, c) := c.spanWhile (· == ' ')
  match c.takeBreak with
  | none => { blanks := blanks, newLine := false, cursor := c }
  | some (first, next) =>
    if next.atMarker then { blanks := [], newLine := true, cursor := next }
    else
      let (others, last) := plainBreaks (next.rest.length + 1) next
      { blanks := (others.map (fold first)).getD [], newLine := true, cursor := last }

/-- A plain scalar that was read. -/
structure PlainRead where
  text : List Char
  /-- Whether a line was ended behind the last word. -/
  newLine : Bool
  cursor : Cursor

/-- Words of a plain scalar in an indentation, which gets the blanks before the next word and
    whether they ended a line. -/
def plainTail (inFlow : Bool) (indent : Int) : Nat → List Char → Bool → Cursor → PlainRead
  | 0, _, newLine, c => { text := [], newLine := newLine, cursor := c }
  | fuel + 1, blanks, newLine, c =>
    let word := if c.peek == some '#' then [] else plainWord inFlow c.rest
    if word.isEmpty then { text := [], newLine := newLine, cursor := c }
    else
      let gap := plainGap (c.skip word.length)
      let ended := gap.blanks.isEmpty || gap.cursor.peek == some '#' ||
        (!inFlow && decide ((gap.cursor.column : Int) < indent))
      if ended then
        { text := blanks ++ word, newLine := gap.newLine, cursor := gap.cursor }
      else
        let tail := plainTail inFlow indent fuel gap.blanks gap.newLine gap.cursor
        { tail with text := blanks ++ word ++ tail.text }

/-- A plain scalar, whose later lines have to be indented at least by `indent` outside a flow
    collection. -/
def plain (inFlow : Bool) (indent : Int) (c : Cursor) : PlainRead :=
  plainTail inFlow indent (c.rest.length + 1) [] false c

/-! ## Block scalars -/

/-- How the final line breaks of a block are kept. -/
inductive Chomp where
  | clip
  | strip
  | keep
  deriving DecidableEq

/-- The chomping sign at the cursor. -/
def chompSign? : Option Char → Option Chomp
  | some '+' => some .keep
  | some '-' => some .strip
  | _ => none

/-- The indentation digit at the cursor. -/
def indentDigit? : Option Char → Option Nat
  | some c => if c.isDigit then some (c.toNat - 48) else none
  | none => none

/-- The indicators behind a block's mark, in either order: chomping and indentation. -/
def indicators (c : Cursor) : Option (Chomp × Option Nat × Cursor) :=
  let (chomp, digit, next) :=
    match chompSign? c.peek with
    | some chomp =>
      match indentDigit? c.advance.peek with
      | some n => (chomp, some n, c.skip 2)
      | none => (chomp, none, c.advance)
    | none =>
      match indentDigit? c.peek with
      | some n =>
        match chompSign? c.advance.peek with
        | some chomp => (chomp, some n, c.skip 2)
        | none => (.clip, some n, c.advance)
      | none => (.clip, none, c)
  if digit == some 0 then none
  else if next.peek == some ' ' || endsLine next.peek then some (chomp, digit, next)
  else none

/-- The rest of a line that may hold only blanks and a comment. -/
def headerEnd (c : Cursor) : Option Cursor :=
  let c := c.skipWhile (· == ' ')
  let c := if c.peek == some '#' then c.skipWhile fun x => !isBreak x else c
  if endsLine c.peek then some c.skipBreak else none

/-- Empty lines before a block's first line, and the greatest indentation among them and
    it. -/
def leadingLines : Nat → Nat → Cursor → List Char × Nat × Cursor
  | 0, deepest, c => ([], deepest, c)
  | fuel + 1, deepest, c =>
    match c.peek with
    | none => ([], deepest, c)
    | some x =>
      if x == ' ' then leadingLines fuel (max deepest c.advance.column) c.advance
      else
        match c.takeBreak with
        | none => ([], deepest, c)
        | some (x, next) =>
          let (others, depth, last) := leadingLines fuel deepest next
          (x :: others, depth, last)

/-- Blanks up to an indentation. -/
def skipIndent (indent : Nat) (c : Cursor) : Cursor :=
  c.skip (min (indent - c.column) (c.rest.takeWhile (· == ' ')).length)

/-- Empty lines between the lines of a block, and the indentation behind them. -/
def emptyLines (indent : Nat) : Nat → Cursor → List Char × Cursor
  | 0, c => ([], c)
  | fuel + 1, c =>
    let c := skipIndent indent c
    match c.takeBreak with
    | none => ([], c)
    | some (x, next) =>
      let (others, last) := emptyLines indent fuel next
      (x :: others, last)

/-- Whether a place starts a line's text without a blank. -/
def startsText (c : Cursor) : Bool := !(c.peek.any isSpace)

/-- The lines of a block with the given empty lines before the first of them. -/
def blockLines (folded : Bool) (chomp : Chomp) (indent : Nat) :
    Nat → List Char → Cursor → List Char × Cursor
  | 0, _, c => ([], c)
  | fuel + 1, breaks, c =>
    let startsBare := startsText c
    let (line, c) := c.spanWhile fun x => !isBreak x
    let lineBreak := match c.takeBreak with
      | some (x, _) => [x]
      | none => []
    let (next, c) := emptyLines indent (c.rest.length + 1) c.skipBreak
    if c.column == indent && c.peek.isSome then
      let between :=
        if folded && lineBreak == ['\n'] && startsBare && startsText c then
          if next.isEmpty then [' '] else []
        else lineBreak
      let (others, last) := blockLines folded chomp indent fuel next c
      (breaks ++ line ++ between ++ others, last)
    else
      let ending := match chomp with
        | .strip => []
        | .clip => lineBreak
        | .keep => lineBreak ++ next
      (breaks ++ line ++ ending, c)

/-- A block behind its mark, inside a collection indented by `parent`. -/
def block (folded : Bool) (parent : Int) (c : Cursor) : Option Read :=
  (indicators c).bind fun (chomp, digit, c) =>
    (headerEnd c).map fun c =>
      let least : Nat := max 1 (parent + 1).toNat
      let (breaks, indent, c) := match digit with
        | none =>
          let (breaks, deepest, c) := leadingLines (c.rest.length + 1) 0 c
          (breaks, max least deepest, c)
        | some n =>
          let indent := least + n - 1
          let (breaks, c) := emptyLines indent (c.rest.length + 1) c
          (breaks, indent, c)
      if c.column == indent && c.peek.isSome then
        blockLines folded chomp indent (c.rest.length + 1) breaks c
      else (if chomp == .keep then breaks else [], c)

end Quotation

end Yaml

end Roster
