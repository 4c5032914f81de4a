import Roster.Figure.Formula.Reading

/-!
# Formulas in Texts

A line of text may hold formulas, each between two dollars. A dollar behind a backslash
is a plain one. If the number of all others is odd, or there is none, the whole line is
plain; otherwise every formula in it has to be readable.

The dollars are counted without a look at what stands between them, so a line may be
found to hold formulas whose last one does not end. Such a line cannot be read.

## Main definitions

* `Formula.spans`: The formulas of a line.
* `Formula.checkLine`: The fault of a line, if a formula in it cannot be read.
* `Formula.check`: The fault of a text, if a formula in it cannot be read.
-/

namespace Roster

namespace Formula

/-- The formulas of a line that end, and whether all do, where `inside` is what has been
    read of a formula that is not over. A formula has no return in it. -/
def spans (inside : Option (List Char)) : List Char → List (List Char) × Bool
  | [] => ([], inside.isNone)
  | '\\' :: '$' :: rest => spans (inside.map ('$' :: '\\' :: ·)) rest
  | '\\' :: c :: rest =>
    match inside with
    | some formula => spans (some (c :: '\\' :: formula)) rest
    | none => spans none (c :: rest)
  | '$' :: rest =>
    match inside with
    | some formula =>
      let (others, areOver) := spans none rest
      (formula.reverse :: others, areOver)
    | none => spans (some []) rest
  | '\r' :: rest => if inside.isNone then spans none rest else ([], false)
  | c :: rest => spans (inside.map (c :: ·)) rest

/-- The number of dollars that are not plain. -/
def dollars : List Char → Nat
  | '\\' :: '$' :: rest => dollars rest
  | '$' :: rest => dollars rest + 1
  | _ :: rest => dollars rest
  | [] => 0

/-- The fault of a line, if a formula in it cannot be read. A tabulator is as good as a
    blank. -/
def checkLine (line : List Char) : Except Fault Unit :=
  if dollars line == 0 || dollars line % 2 == 1 then .ok ()
  else do
    let (formulas, areOver) := spans none (line.map fun c => if c == '\t' then ' ' else c)
    formulas.forM fun formula => discard (read formula)
    if !areOver then throw .badValue

/-- The fault of a text, if a formula in it cannot be read. -/
def check (text : String) : Except Fault Unit :=
  (text.splitOn "\n").forM fun line => checkLine line.toList

end Formula

end Roster
