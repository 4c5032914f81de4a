import Roster.Figure.Formula.Box
import Roster.Figure.Formula.Words
import Roster.Number.Reading

/-!
# Reading Formulas

A formula is a row of pieces: blanks, changes of the font, and things with what hangs on
them. A thing is a character, a sign by its name, a group in braces, or a command, which
wants groups or another thing behind it. What stands behind `_` or `^` hangs on the thing
before it, or on nothing, once below and once above; apostrophes behind all that are
raised.

Blanks between pieces mean nothing. Only right behind `_` or `^` a blank is the thing that
hangs there, unless a mark over something follows it.

The readers return the boxes that they have read and what is left. They are bounded by the
length of the formula, since each nested call has read a character first or goes on with
another kind of reading. They never go back: what begins a piece tells its kind.

## Main definitions

* `Formula.Reader`: A reader of a piece of a formula.
* `Formula.row`: Reads pieces up to an ending.
* `Formula.read`: Reads a formula.
-/

namespace Roster

namespace Formula

/-- Reads a part of a formula: what it stands for, and what is left behind it. -/
abbrev Reader (α : Type) := List Char → Except Fault (α × List Char)

/-! ## Words and Marks -/

/-- A name at the front, and what follows it. -/
def spanName (cs : List Char) : String × List Char :=
  (String.ofList (cs.takeWhile Char.isAlpha), cs.dropWhile Char.isAlpha)

/-- Without blanks at the front. -/
def dropBlanks (cs : List Char) : List Char := cs.dropWhile (· == ' ')

/-- What follows the longest of some words that a text begins with. -/
def afterWord? (words : List String) (cs : List Char) : Option (List Char) :=
  let found := words.filter fun word => word.toList.isPrefixOf cs
  if found.isEmpty then none
  else some (cs.drop ((found.map String.length).foldl max 0))

/-- What follows a character after blanks. -/
def after (c : Char) (cs : List Char) : Except Fault (List Char) :=
  match dropBlanks cs with
  | x :: rest => if x == c then .ok rest else .error .badValue
  | [] => .error .badValue

/-- Reads a text up to a brace, in which a backslash stands before a character that is
    meant as it is. -/
def quoted : Reader (List Char)
  | [] => .error .badValue
  | '\\' :: c :: rest => do
    let (text, rest) ← quoted rest
    return (c :: text, rest)
  | '\x7d' :: rest => .ok ([], rest)
  | c :: rest => do
    let (text, rest) ← quoted rest
    return (c :: text, rest)

/-- The box of a character in a text: a blank has no gap behind it. -/
def textParts (c : Char) : List Box :=
  if c == ' ' then [.mark false] else (Box.mark false).spread

/-- Reads a bracket of any height, which is invisible if it is a point. -/
def delimiter : Reader Bool := fun cs =>
  match dropBlanks cs with
  | '\\' :: rest =>
    match rest with
    | c :: others =>
      if isEscapedBracket c then .ok (true, others)
      else ((afterWord? brackets rest).map fun rest => (true, rest)).elim (.error .badValue) .ok
    | [] => .error .badValue
  | c :: rest => if isBracket c then .ok (c != '.', rest) else .error .badValue
  | [] => .error .badValue

/-- Reads a bracket in braces, if there is one. -/
def bracedDelimiter : Reader (Option Bool) := fun cs => do
  let cs ← after '\x7b' cs
  match delimiter cs with
  | .ok (isVisible, rest) => return (some isVisible, ← after '\x7d' rest)
  | .error _ => return (none, ← after '\x7d' cs)

/-- What follows a decimal without an exponent. -/
def afterDecimal? (cs : List Char) : Option (List Char) :=
  let unsigned := match cs with
    | '+' :: rest => rest
    | '-' :: rest => rest
    | _ => cs
  let whole := unsigned.takeWhile Char.isDigit
  match unsigned.drop whole.length with
  | '.' :: rest =>
    let part := rest.takeWhile Char.isDigit
    if whole.isEmpty && part.isEmpty then none else some (rest.drop part.length)
  | rest => if whole.isEmpty then none else some rest

/-- What follows a decimal in braces. -/
def afterWidth (cs : List Char) : Except Fault (List Char) := do
  match afterDecimal? (dropBlanks (← after '\x7b' cs)) with
  | some rest => after '\x7d' rest
  | none => .error .badValue

/-- What follows a style in braces, which may be left out. -/
def afterStyle (cs : List Char) : Except Fault (List Char) := do
  match dropBlanks (← after '\x7b' cs) with
  | c :: rest => if "0123".toList.contains c then after '\x7d' rest else after '\x7d' (c :: rest)
  | [] => .error .badValue

/-- What follows the head of a group, which is a brace, or `math` and a font before it. -/
def afterHead? (cs : List Char) : Option (List Char) :=
  match cs with
  | '\x7b' :: rest => some rest
  | '\\' :: rest =>
    if "math".toList.isPrefixOf rest then
      (afterWord? fonts (dropBlanks (rest.drop 4))).bind fun rest => (after '\x7b' rest).toOption
    else none
  | _ => none

/-! ## Signs -/

/-- The box of a character that stands for itself. -/
def markOf (c : Char) : Box := if isSpaced c then .spacedMark else .mark false

/-- The box of a name that stands for a sign or a function, if it is one. -/
def signOf? (name : String) : Option Box :=
  if symbols.contains name then
    some (if spacedSymbols.contains name then .spacedMark
      else .mark (tallSymbols.contains name))
  else if functions.contains name then
    some (.row ((List.replicate name.length (Box.mark false)).flatMap Box.spread)
      (tallFunctions.contains name))
  else none

/-- What follows the name of a mark over something, if one comes next. -/
def afterAccent? : List Char → Option (List Char)
  | '\\' :: c :: rest =>
    if isAccentMark c then some rest
    else
      let (name, others) := spanName (c :: rest)
      if accents.contains name then some others else none
  | _ => none

/-- What follows a blank that is written out or a blank of some width, if one comes next. -/
def afterBlank? : List Char → Option (List Char)
  | '~' :: rest => some rest
  | '\\' :: c :: rest => if isBlankMark c then some rest else afterWord? blanks (c :: rest)
  | _ => none

/-- What follows a change of the font, if one comes next. -/
def afterFont? : List Char → Option (List Char)
  | '\\' :: rest =>
    let (name, others) := spanName rest
    if fonts.contains name then some others else none
  | _ => none

/-- What follows a command, if it comes next. -/
def afterCommand? (name : String) : List Char → Option (List Char)
  | '\\' :: rest =>
    let (here, others) := spanName rest
    if here == name then some others else none
  | _ => none

/-! ## Nesting -/

/-- The room for pieces within pieces. They take up the more of it the more is tried for
    them. -/
structure Room where
  /-- How much is left. -/
  left : Nat

namespace Room

/-- The room for all that is nested in a formula. -/
def whole : Room := ⟨895⟩

/-- What a group takes up. -/
def group : Nat := 30

/-- What a thing under a mark takes up. -/
def accent : Nat := 14

/-- What a thing that hangs on another takes up. -/
def script : Nat := 3

/-- What the degree of a root takes up beyond the root. -/
def degree : Nat := 2

/-- What all that a command wants takes up. -/
def command : String → Nat
  | "operatorname" | "boldsymbol" => 32
  | "overset" | "underset" => 43
  | "overline" | "underline" => 39
  | "phantom" | "llap" | "rlap" => 40
  | "substack" => 55
  | "left" => 30
  | "text" => 0
  | _ => 42

/-- The room within something that takes up so much, if there is so much. -/
def enter (room : Room) (needed : Nat) : Except Fault Room :=
  if room.left < needed then .error .tooDeep else .ok ⟨room.left - needed⟩

end Room

/-! ## Rows -/

/-- Where a row ends. -/
inductive Ending where
  | text
  | brace
  | square
  /-- Behind a line of a stack. -/
  | line

/-- Whether a row ends at a place. -/
def Ending.isAt : Ending → List Char → Bool
  | .text, cs => cs.isEmpty
  | .brace, cs => cs.head? == some '\x7d'
  | .square, cs => cs.head? == some ']'
  | .line, cs => cs.head? == some '\x7d' || ['\\', '\\'].isPrefixOf cs

/-- A line of a stack, or a stack in its place, which cannot be set unless it is empty. -/
inductive Line where
  | row
  | stack (isEmpty : Bool)

/-- What hangs on a thing: below and above. -/
structure Scripts where
  below : Option Box
  above : Option Box

mutual

/-- Reads pieces up to an ending. -/
def row (ending : Ending) (room : Room) : Nat → Reader (List Box)
  | 0, _ => .error .badValue
  | fuel + 1, cs => do
    let cs := dropBlanks cs
    if ending.isAt cs then return ([], cs)
    let (boxes, rest) ← piece room fuel cs
    let (others, rest) ← row ending room fuel rest
    return (boxes ++ others, rest)

/-- Reads pieces up to an ending, of which there has to be one. -/
def someRow (ending : Ending) (room : Room) : Nat → Reader (List Box)
  | 0, _ => .error .badValue
  | fuel + 1, cs =>
    if ending.isAt (dropBlanks cs) then .error .badValue else row ending room fuel cs

/-- Reads a group in braces, which may be empty unless something is needed. -/
def group (isNeeded : Bool) (room : Room) : Nat → Reader Box
  | 0, _ => .error .badValue
  | fuel + 1, cs => do
    let cs ← after '\x7b' cs
    let (boxes, rest) ← if isNeeded then someRow .brace room fuel cs else row .brace room fuel cs
    return (Box.ofBoxes boxes, ← after '\x7d' rest)

/-- Reads two groups, of which neither may be empty if something is needed. -/
def twoGroups (isNeeded : Bool) (room : Room) : Nat → Reader Unit
  | 0, _ => .error .badValue
  | fuel + 1, cs => do
    let (_, rest) ← group isNeeded room fuel cs
    let (_, rest) ← group isNeeded room fuel rest
    return ((), rest)

/-- Reads a piece: a blank, a change of the font, or a thing with what hangs on it. -/
def piece (room : Room) : Nat → Reader (List Box)
  | 0, _ => .error .badValue
  | fuel + 1, cs =>
    match afterBlank? cs with
    | some rest => .ok ([.blank], rest)
    | none =>
      match afterCommand? "hspace" cs with
      | some rest => do return ([.blank], ← afterWidth rest)
      | none =>
        match afterFont? cs with
        | some rest => .ok ([], rest)
        | none => do
          let (box, rest) ← carrier room fuel cs
          return ([box], rest)

/-- Reads a thing with what hangs on it. Either may be left out, and apostrophes hang on
    nothing unless more hangs on the first of them. -/
def carrier (room : Room) : Nat → Reader Box
  | 0, _ => .error .badValue
  | fuel + 1, cs => do
    let (base, rest) ←
      match cs with
      | '_' :: _ => pure (none, cs)
      | '^' :: _ => pure (none, cs)
      | '\'' :: rest =>
        match dropBlanks rest with
        | '_' :: _ => pure (some (Box.mark false), rest)
        | '^' :: _ => pure (some (Box.mark false), rest)
        | _ => pure (none, cs)
      | _ => do
        let (box, rest) ← thing room fuel cs
        pure (some box, rest)
    let (hanging, rest) ← scripts room fuel rest
    let rest := dropBlanks rest
    let apostrophes := rest.takeWhile (· == '\'')
    let box ← Box.carrying base hanging.below hanging.above apostrophes.length
    return (box, rest.drop apostrophes.length)

/-- Reads what hangs on a thing, at most once below and once above. -/
def scripts (room : Room) : Nat → Reader Scripts
  | 0, _ => .error .badValue
  | fuel + 1, cs =>
    match dropBlanks cs with
    | '_' :: rest => do
      let (box, rest) ← hanging (← room.enter Room.script) fuel rest
      let (others, rest) ← scripts room fuel rest
      if others.below.isSome then .error .badValue
      else return ({ others with below := some box }, rest)
    | '^' :: rest => do
      let (box, rest) ← hanging (← room.enter Room.script) fuel rest
      let (others, rest) ← scripts room fuel rest
      if others.above.isSome then .error .badValue
      else return ({ others with above := some box }, rest)
    | _ => .ok (⟨none, none⟩, cs)

/-- Reads a thing that hangs on another, for which a blank is one unless a mark over
    something follows it. -/
def hanging (room : Room) : Nat → Reader Box
  | 0, _ => .error .badValue
  | fuel + 1, cs =>
    match cs with
    | ' ' :: rest =>
      if (afterAccent? (dropBlanks rest)).isSome then thing room fuel (dropBlanks rest)
      else .ok (.mark false, rest)
    | _ => thing room fuel cs

/-- Reads a thing that something can hang on. -/
def thing (room : Room) : Nat → Reader Box
  | 0, _ => .error .badValue
  | fuel + 1, cs =>
    match afterAccent? cs with
    | some rest => do
      let (_, rest) ← thing (← room.enter Room.accent) fuel (dropBlanks rest)
      return (.column, rest)
    | none =>
      match afterHead? cs with
      | some rest => do
        let (boxes, rest) ← row .brace (← room.enter Room.group) fuel rest
        return (Box.ofBoxes boxes, ← after '\x7d' rest)
      | none =>
        match cs with
        | '\\' :: c :: rest =>
          if isEscaped c rest then .ok (.mark false, rest)
          else
            let (name, rest) := spanName (c :: rest)
            match signOf? name with
            | some box => .ok (box, rest)
            | none => command name room fuel rest
        | c :: rest => if isSymbol c then .ok (markOf c, rest) else .error .badValue
        | [] => .error .badValue

/-- Reads what a command wants. -/
def command (name : String) (room : Room) : Nat → Reader Box
  | 0, _ => .error .badValue
  | fuel + 1, cs => do
    let room ← room.enter (Room.command name)
    match name with
    | "operatorname" =>
      let (boxes, rest) ← row .brace room fuel (← after '\x7b' cs)
      let gap := if boxes.isEmpty then [] else [Box.blank]
      return (Box.ofBoxes (boxes ++ gap), ← after '\x7d' rest)
    | "boldsymbol" =>
      let (boxes, rest) ← row .brace room fuel (← after '\x7b' cs)
      let rest ← after '\x7d' rest
      return (← Box.bold boxes, rest)
    | "frac" | "dfrac" | "binom" =>
      let (_, rest) ← twoGroups true room fuel cs
      return (.row [.column, .blank] false, rest)
    | "genfrac" =>
      let (left, rest) ← bracedDelimiter cs
      let (right, rest) ← bracedDelimiter rest
      let (_, rest) ← twoGroups true room fuel (← afterStyle (← afterWidth rest))
      if left.isNone && right.isNone then return (.row [.column, .blank] false, rest)
      else
        let inner := [.box (.row [.column, .blank] false)]
        return (← Box.between (left.getD false) (right.getD false) inner, rest)
    | "overset" | "underset" =>
      let (_, rest) ← twoGroups false room fuel cs
      return (.column, rest)
    | "sqrt" =>
      let rest ←
        match dropBlanks cs with
        | '[' :: rest => do
          let (_, rest) ← someRow .square (← room.enter Room.degree) fuel rest
          after ']' rest
        | rest => pure rest
      let (_, rest) ← group true room fuel rest
      return (.row [.column, .blank, .column, .column] false, rest)
    | "overline" | "underline" =>
      let (_, rest) ← group true room fuel cs
      return (.ofColumn, rest)
    | "text" =>
      let (text, rest) ← quoted (← after '\x7b' cs)
      return (.row (text.flatMap textParts) false, rest)
    | "phantom" | "llap" | "rlap" =>
      let (_, rest) ← group false room fuel cs
      return (.row [.blank, .column] false, rest)
    | "substack" =>
      let (lines, rest) ← stack room fuel (← after '\x7b' cs)
      if lines.any fun line => line matches .stack false then .error .wrongKind
      else if lines.isEmpty then .error .badValue
      else return (.ofColumn, rest)
    | "left" =>
      let (hasLeft, rest) ← delimiter cs
      let (inner, rest) ← bracketed room fuel rest
      let (hasRight, rest) ← delimiter rest
      return (← Box.between hasLeft hasRight inner, rest)
    | _ => .error .badValue

/-- Reads the lines of a stack up to its brace. -/
def stack (room : Room) : Nat → Reader (List Line)
  | 0, _ => .error .badValue
  | fuel + 1, cs =>
    match dropBlanks cs with
    | '\x7d' :: rest => .ok ([], rest)
    | '\x7b' :: rest => do
      let (inner, rest) ← stack room fuel rest
      let (others, rest) ← stack room fuel rest
      return (.stack inner.isEmpty :: others, rest)
    | rest => do
      let (_, rest) ← someRow .line room fuel rest
      let (others, rest) ← stack room fuel (afterBreaks fuel rest)
      return (.row :: others, rest)

/-- What follows the ends of lines in a stack. -/
def afterBreaks : Nat → List Char → List Char
  | 0, cs => cs
  | fuel + 1, cs =>
    match dropBlanks cs with
    | '\\' :: '\\' :: rest => afterBreaks fuel rest
    | rest => rest

/-- Reads what stands between brackets of any height, up to the second of them. -/
def bracketed (room : Room) : Nat → Reader (List Box.Inner)
  | 0, _ => .error .badValue
  | fuel + 1, cs => do
    let cs := dropBlanks cs
    match afterCommand? "right" cs with
    | some rest => return ([], rest)
    | none =>
      match afterCommand? "middle" cs with
      | some rest => do
        let (isVisible, rest) ← delimiter rest
        let (others, rest) ← bracketed room fuel rest
        return (.bracket isVisible :: others, rest)
      | none => do
        let (boxes, rest) ← piece room fuel cs
        let (others, rest) ← bracketed room fuel rest
        return (boxes.map Box.Inner.box ++ others, rest)

end

/-- Reads a formula. -/
def read (formula : List Char) : Except Fault Box := do
  let (boxes, _) ← someRow .text Room.whole (8 * formula.length + 8) formula
  return Box.ofBoxes boxes

end Formula

end Roster
