import Roster.Figure.Basic

/-!
# A Figure in Pixels

The heatmap as coloured pixels: a block for each cell, from light for the least cost to
dark for the greatest, with a frame in each matched cell. Text is not drawn.

## Main definitions

* `Colour`: The colour of a pixel.
* `Raster`: A rectangle of pixels.
* `Raster.ofFigure`: The pixels of a figure.
-/

namespace Roster

/-- The colour of a pixel. -/
structure Colour where
  red : UInt8
  green : UInt8
  blue : UInt8
  deriving DecidableEq

namespace Colour

/-- The frames of matched cells. -/
def signal : Colour := { red := 228, green := 26, blue := 28 }

/-- The light end of the scale. -/
def light : Colour := { red := 253, green := 231, blue := 37 }

/-- The dark end of the scale. -/
def dark : Colour := { red := 68, green := 1, blue := 84 }

/-- A step of `share` 255ths from one intensity to another. -/
def blend (share a b : UInt8) : UInt8 :=
  (((255 - share.toNat) * a.toNat + share.toNat * b.toNat) / 255).toUInt8

/-- The colour at `share` 255ths of the scale. -/
def onScale (share : UInt8) : Colour where
  red := blend share light.red dark.red
  green := blend share light.green dark.green
  blue := blend share light.blue dark.blue

end Colour

/-- A rectangle of pixels. -/
structure Raster where
  width : Nat
  height : Nat
  pixel : (row column : Nat) → Colour

namespace Raster

/-- The side of a cell in pixels. -/
def cellSide : Nat := 32

/-- The width of a frame in pixels. -/
def frameWidth : Nat := Figure.outlineWidth.toUInt64.toNat

/-- Where a cost lies between the least and the greatest, in 255ths. -/
def share (least greatest cost : Float) : UInt8 :=
  if least < greatest then ((cost - least) / (greatest - least) * 255.0).toUInt8 else 0

/-- The colours of the cells of a figure. -/
def cellColours (costs : Grid Float) : Grid Colour :=
  let first := (costs.toList.head?).getD 0.0
  let least := costs.toList.foldl (Figure.extreme fun a b => a < b) first
  let greatest := costs.toList.foldl (Figure.extreme fun a b => b < a) first
  costs.map fun cost => Colour.onScale (share least greatest cost)

/-- Whether a place within a cell belongs to its frame. -/
def isFrame (y x : Nat) : Bool :=
  decide (min y x < frameWidth) || decide (cellSide ≤ max y x + frameWidth)

/-- The pixels of a figure. -/
def ofFigure (figure : Figure) : Raster :=
  let colours := cellColours figure.costs
  { width := figure.costs.width * cellSide
    height := figure.costs.height * cellSide
    pixel := fun y x =>
      let w := y / cellSide
      let j := x / cellSide
      if isFrame (y % cellSide) (x % cellSide) &&
          figure.outlines.any fun o => o.index == w && o.column == j then Colour.signal
      else (colours.get? w j).getD Colour.light }

end Raster

end Roster
