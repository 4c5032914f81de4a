import Roster.Cost.Tensor
import Roster.Text.Blank

/-!
# Tables of Numbers

A table is a text with one row a line and a comma between two fields. A `#` ends a
line; a line that is then empty counts for nothing, while one of blanks is a row with a
blank field. Fields are plain decimal numbers with blanks around them, and every row
has as many fields as the first.

Rows are read one after the other, so of two faults the one in the earlier row is
reported, and in one row a wrong number of fields comes before a field that is no
number. A table without rows is taken to have one column.

## Main definitions

* `Table.rows`: The fields of the rows of a text.
* `Table.read`: The array of a text.
-/

namespace Roster

namespace Table

/-- A line up to its comment. -/
def withoutComment (line : String) : String :=
  String.ofList (line.toList.takeWhile (· != '#'))

/-- The fields of the rows of a text. -/
def rows (text : String) : List (List String) :=
  (((text.splitOn "\n").map withoutComment).filter fun line => !line.isEmpty).map
    (·.splitOn ",")

/-- The number in a field. -/
def readField (row column : Nat) (field : String) : Except Fault Float :=
  match Decimal.parse? (Text.strip field) with
  | some x => .ok x
  | none => .error (.fieldNotANumber field row (column + 1))

/-- The numbers in the fields of a row, which has to be so wide. -/
def readRow (width row : Nat) (fields : List String) : Except Fault (List Float) :=
  if fields.length ≠ width then .error (.fieldCountChanged width fields.length (row + 1))
  else fields.zipIdx.mapM fun (field, column) => readField row column field

/-- The array of a text. -/
def read (text : String) : Except Fault Tensor :=
  let found := rows text
  let width := match found with
    | first :: _ => first.length
    | [] => 1
  (found.zipIdx.mapM fun (fields, row) => readRow width row fields).map
    fun (numbers : List (List Float)) =>
      { shape := [found.length, width], entries := numbers.flatten }

end Table

end Roster
