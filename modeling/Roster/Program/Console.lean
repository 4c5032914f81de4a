/-!
# Console Output

What a program has written, as pieces of text with two kinds of gaps: the time a solve
took, which may have been measured, and the time at which a line was logged. Whoever
shows the output fills them in.

## Main definitions

* `Piece`: Text or a gap.
* `Output`: Pieces in order.
* `Output.render`: The text of some output.
* `Console`: What was written on the two streams.
-/

namespace Roster

namespace Program

/-- Text, or a gap for a time. -/
inductive Piece where
  | text (text : String)
  | elapsed (measured : Option Float)
  | stamp

/-- Pieces in order. -/
abbrev Output := List Piece

namespace Output

/-- A line of text. -/
def line (text : String) : Output := [.text (text ++ "\n")]

/-- Some lines of text. -/
def lines (texts : List String) : Output := texts.flatMap line

/-- The text of some output, with the gaps filled. -/
def render (elapsed : Option Float → String) (stamp : String) (output : Output) : String :=
  String.join (output.map fun piece =>
    match piece with
    | .text text => text
    | .elapsed measured => elapsed measured
    | .stamp => stamp)

end Output

/-- What a program wrote on its two streams. -/
structure Console where
  out : Output
  err : Output

namespace Console

/-- What was written first, and what was written then. -/
def append (a b : Console) : Console := { out := a.out ++ b.out, err := a.err ++ b.err }

instance : Append Console := ⟨append⟩

/-- Output on the first stream. -/
def ofOut (output : Output) : Console := { out := output, err := [] }

/-- Output on the second stream. -/
def ofErr (output : Output) : Console := { out := [], err := output }

end Console

end Program

end Roster
