import Roster.Fault

/-!
# Arrays of Any Dimension

Costs arrive as nested lists of any depth. Such a nesting has a shape only if all lists
at one depth have one length and all entries sit at one depth; otherwise the leading
dimensions that are even are still known, and the fault names them. A nesting that is
even but too deep, as every list that lies within itself may be, has a fault of its own.

The shape is settled before any entry is read, so an uneven nesting is reported even
when one of its entries is no number.

## Main definitions

* `Tensor`: Doubles with a shape.
* `entry`: The double that one scalar stands for.
* `Tensor.ofDatum`: The array of a nested list.
-/

namespace Roster

/-- Doubles in row order with their shape; no dimension at all is a single double. -/
structure Tensor where
  shape : List Nat
  entries : List Float

namespace Tensor

/-- The text of bytes, of which none may be beyond ASCII or one of the separators that are
    blanks in texts alone. -/
def bytesText? (bytes : List UInt8) : Option String :=
  if bytes.all fun b => b.toNat < 0x1C || (0x1F < b.toNat && b.toNat < 0x80) then
    some (String.ofList (bytes.map fun b => Char.ofNat b.toNat))
  else none

/-- The double that a scalar stands for: nothing is the value that is no number, and a text
    or bytes are read as a number. -/
def entry : Datum → Except Fault Float
  | .null => .ok Decimal.notANumber
  | .number n =>
    match n.toDouble? with
    | some x => .ok x
    | none => .error .tooLarge
  | .text s =>
    match Decimal.read? s with
    | some x => .ok x
    | none => .error (.notANumber (.text s))
  | .codes ns => .error (.notANumber (.codes ns))
  | .bytes value =>
    match (bytesText? value).bind Decimal.read? with
    | some x => .ok x
    | none => .error (.notANumber (.bytes value))
  | _ => .error .wrongKind

/-- The dimensions that two shapes share from the front. -/
def commonShape : List Nat → List Nat → List Nat
  | a :: as, b :: bs => if a = b then a :: commonShape as bs else []
  | _, _ => []

/-- The items of a datum that makes a dimension of its own. -/
def row? (d : Datum) : Option (List Datum) :=
  match d.opened with
  | .list items => some items
  | .pair first second => some [first, second]
  | _ => none

/-- The leading dimensions that the items of a list share, from those of each item, if there
    is an item, and whether the items are even and of one shape. -/
def sharedShape : List (List Nat × Bool) → Option (List Nat) × Bool
  | [] => (none, true)
  | (first, firstEven) :: rest =>
    let (others, othersEven) := sharedShape rest
    match others with
    | none => (some first, firstEven)
    | some shape => (some (commonShape first shape), firstEven && othersEven && first == shape)

/-- The leading even dimensions of a nesting, at most so many, and whether that is all of
    it. -/
def evenShape : Nat → Datum → List Nat × Bool
  | 0, d => ([], (row? d).isNone)
  | limit + 1, d =>
    match row? d with
    | some items =>
      let (shape, even) := sharedShape (items.map (evenShape limit))
      (items.length :: shape.getD [], even)
    | none => ([], true)

mutual

/-- The entries of a nesting in row order, up to the first that stands for no double. -/
def readEntries : Datum → Except Fault (List Float)
  | .list items => readAllEntries items
  | .pair first second =>
    (readEntries first).bind fun before => (readEntries second).map (before ++ ·)
  | d => (entry d).map ([·])

/-- The entries of all items in order. -/
def readAllEntries : List Datum → Except Fault (List Float)
  | [] => .ok []
  | d :: rest =>
    match readEntries d with
    | .error fault => .error fault
    | .ok first => (readAllEntries rest).map (first ++ ·)

end

/-- The greatest number of dimensions. -/
def maxDimensions : Nat := 64

/-- The array of a nested list; anything but a list is a single entry. -/
def ofDatum (d : Datum) : Except Fault Tensor :=
  let (shape, even) := evenShape maxDimensions d
  if even then (readEntries d).map fun entries => { shape := shape, entries := entries }
  else if shape.length = maxDimensions then .error (.tooManyDimensions maxDimensions)
  else .error (.unevenNesting shape)

end Tensor

end Roster
