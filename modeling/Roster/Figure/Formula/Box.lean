import Roster.Fault

/-!
# Boxes of a Formula

What a piece of a formula becomes on the page, as far as it decides whether the formula
can be set at all. Most pieces can stand anywhere. Three rules look into a box:

* Apostrophes are raised. Where something is raised already they go to its end, so it has
  to be a row: a bare character or a column has no end that could take them.
* What hangs on a row is set at its last character, for which a blank at the end is passed
  over. A row of nothing but one blank has nothing before it.
* A row within bold signs is looked at behind its first part, since a sign with room
  around it has its character there. A row with fewer parts fails.

A character in a row has a blank behind it, which closes the gap to what follows. So a
row of one character has two parts, and a row of one blank has one.

## Main definitions

* `Formula.Box`: A piece of a formula on the page.
* `Formula.Box.ofBoxes`: A row of boxes.
* `Formula.Box.carrying`: A box with what hangs on it.
* `Formula.Box.bold`: A row of bold signs.
* `Formula.Box.between`: A row between brackets of any height.
-/

namespace Roster

namespace Formula

/-- A piece of a formula on the page. A tall one has what hangs on it below and above, and
    not behind it. -/
inductive Box where
  /-- A character. -/
  | mark (isTall : Bool)
  /-- A gap of some width. -/
  | blank
  /-- Boxes above each other. -/
  | column
  /-- Boxes beside each other. -/
  | row (parts : List Box) (isTall : Bool)

namespace Box

/-- A box as it stands in a row: with a gap behind it if it is a character. -/
def spread : Box → List Box
  | .mark isTall => [.mark isTall, .blank]
  | box => [box]

/-- A row of boxes. -/
def ofBoxes (boxes : List Box) : Box := .row (boxes.flatMap spread) false

/-- A sign with room around it. -/
def spacedMark : Box := .row [.blank, .mark false, .blank] false

/-- A row with one column in it. -/
def ofColumn : Box := .row [.column] false

/-- Whether what hangs on the box stands below and above it. -/
def isTall : Box → Bool
  | .mark isTall => isTall
  | .row _ isTall => isTall
  | _ => false

/-- Whether the box is a row, which can take more at its end. -/
def isRow : Box → Bool
  | .row _ _ => true
  | _ => false

/-- Whether the box is a row of nothing but one blank. -/
def isLoneBlank : Box → Bool
  | .row [.blank] _ => true
  | _ => false

/-- Whether the box is a row with nothing behind its first part. -/
def isShortRow : Box → Bool
  | .row parts _ => parts.length < 2
  | _ => false

/-- A box, or none, with what hangs on it: something below, something above, and
    apostrophes. -/
def carrying (base below above : Option Box) (apostrophes : Nat) : Except Fault Box :=
  if apostrophes == 0 && below.isNone && above.isNone then .ok (base.getD (.row [] false))
  else if apostrophes != 0 && above.any (!·.isRow) then .error .lacksField
  else if base.any isTall then .ok ofColumn
  else if base.any isLoneBlank then .error .badValue
  else .ok (.row [.row [] false, .column] false)

/-- A row of bold signs. -/
def bold (boxes : List Box) : Except Fault Box :=
  if boxes.any isShortRow then .error .badValue else .ok (ofBoxes boxes)

/-- What stands between brackets of any height. -/
inductive Inner where
  | box (inside : Box)
  /-- Another bracket, which may be an invisible one. -/
  | bracket (isVisible : Bool)

/-- Whether what stands between brackets is no bracket. -/
def Inner.isBox : Inner → Bool
  | .box .. => true
  | .bracket _ => false

/-- What stands between brackets as parts of a row. -/
def Inner.parts : Inner → List Box
  | .box inside => inside.spread
  | .bracket isVisible => if isVisible then [.column] else []

/-- Whether another bracket comes right behind an invisible one, by which it is missed. -/
def Inner.hasMissed : List Inner → Bool
  | .bracket false :: .bracket _ :: _ => true
  | _ :: rest => hasMissed rest
  | [] => false

/-- A row between brackets, of which those at the ends may be invisible. The height of
    other brackets is that of the boxes around them, so there has to be one. -/
def between (hasLeft hasRight : Bool) (inner : List Inner) : Except Fault Box :=
  if !inner.isEmpty && !inner.any Inner.isBox then .error .badValue
  else if Inner.hasMissed inner then .error .lacksField
  else
    let all := [Inner.bracket hasLeft] ++ inner ++ [Inner.bracket hasRight]
    .ok (.row (all.flatMap Inner.parts) false)

end Box

end Formula

end Roster
