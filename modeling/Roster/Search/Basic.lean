import Roster.Arithmetic

/-!
# Successive Shortest Augmenting Paths

The search matches the rows of a square cost table to its columns one row at a time.
Rows and columns carry potentials; a cell's reduced cost is its cost less the
potentials of its row and column. A new row starts at the virtual column `0` and grows
a tree of columns: each step looks at the row matched to the column just reached,
records for every column outside the tree the least reduced cost at which it can be
reached, moves to the least of them, and shifts the potentials so that this step costs
nothing. The tree ends at a column without a row. Walking back from there, every column
takes over the row of the column it was reached from, and the new row ends up matched.

Slots are numbered from `0`: slot `0` as a column is the virtual one, which holds the
row that is being inserted, and slot `0` as a row means "no row". Every slot is a
`Fin (N + 1)`, so no look-up can fail. The search for a row ends by itself before its
bound - one step per slot - stops it, whatever the arithmetic does.

The way back is another matter. One part of the state outlives a row although nothing
asks for it: `cameFrom` keeps what earlier rows wrote. A column that no reduced cost ever
improved is still left along what an earlier row wrote there, and with such links the way
back can close a circle. Then it never reaches the virtual column, there is no state
behind that row, and the run ends with it.

## Main definitions

* `State`: Potentials, matched rows and the backward links between rows.
* `Probe`: The state of the search for one row.
* `Probe.step`: Reaching one more column.
* `Probe.run`: Reaching columns until one is free.
* `trail`: The way back along the links, if it ends.
* `flip`: Handing the rows back along it.
* `Stage`: One inserted row.
* `stages`: The insertion of all rows in turn.

## Theorems

* `put_get`, `ofFn_get`, `replicate_get`: The entries of a table of slots.
* `Probe.mem_outside`: What lies outside the tree.
* `Probe.nearest_mem`: The nearest of some columns is one of them.
* `mem_rows`: All slots but the virtual one are rows.
-/

namespace Roster

namespace Search

variable {α : Type} {N : Nat}

/-- A row or a column of the table; `0` is virtual. -/
abbrev Slot (N : Nat) := Fin (N + 1)

/-- A slot is never out of range, so an entry is looked up without a proof. -/
scoped instance slotEntry : GetElem (Vector α (N + 1)) (Slot N) α fun _ _ => True where
  getElem v j _ := v.get j

/-- A table of slots with one entry replaced. -/
def put (v : Vector α (N + 1)) (j : Slot N) (x : α) : Vector α (N + 1) := v.set j.val x j.isLt

theorem put_get (v : Vector α (N + 1)) (j : Slot N) (x : α) (k : Slot N) :
    (put v j x)[k] = if j = k then x else v[k] := by
  simp only [Fin.ext_iff]
  exact Vector.getElem_set j.isLt k.isLt

@[simp] theorem ofFn_get (f : Slot N → α) (j : Slot N) : (Vector.ofFn f)[j] = f j :=
  Vector.getElem_ofFn j.isLt

@[simp] theorem replicate_get (x : α) (j : Slot N) : (Vector.replicate (N + 1) x)[j] = x :=
  Vector.getElem_replicate j.isLt

/-- What the search keeps from row to row. -/
structure State (α : Type) (N : Nat) where
  /-- The potential of each row. -/
  rowPotential : Vector α (N + 1)
  /-- The potential of each column. -/
  colPotential : Vector α (N + 1)
  /-- The row matched to each column, or `0`. -/
  rowOf : Vector (Slot N) (N + 1)
  /-- The column from which each column was last reached. -/
  cameFrom : Vector (Slot N) (N + 1)

/-- The state before the first row: no potentials and no matches. -/
def State.start (A : Arithmetic α) (N : Nat) : State α N where
  rowPotential := Vector.replicate (N + 1) A.zero
  colPotential := Vector.replicate (N + 1) A.zero
  rowOf := Vector.replicate (N + 1) 0
  cameFrom := Vector.replicate (N + 1) 0

/-- The state of the search for one row. -/
structure Probe (α : Type) (N : Nat) extends State α N where
  /-- The least reduced cost at which each column was seen, less all shifts since. -/
  slack : Vector α (N + 1)
  /-- The columns in the tree, the latest first. -/
  visited : List (Slot N)
  /-- The column that is reached and not yet in the tree. -/
  column : Slot N

namespace Probe

/-- The search for row `i` before its first step: the virtual column holds the row, and
    every column is as far away as `reach`. -/
def start (s : State α N) (i : Slot N) (reach : α) : Probe α N where
  toState := { s with rowOf := put s.rowOf 0 i }
  slack := Vector.replicate (N + 1) reach
  visited := []
  column := 0

/-- The columns outside the tree, in increasing order. The virtual column is in it from the
    first step on. -/
def outside (visited : List (Slot N)) : List (Slot N) :=
  (List.finRange (N + 1)).filter fun j => decide (j ≠ 0) && !visited.contains j

theorem mem_outside {visited : List (Slot N)} {j : Slot N} :
    j ∈ outside visited ↔ j ≠ 0 ∧ j ∉ visited := by
  simp [outside]

/-- The reduced cost of a cell: the cost less the potential of its row, then less that of
    its column. -/
def reduced (A : Arithmetic α) (cost : Slot N → Slot N → α) (s : State α N) (i j : Slot N) : α :=
  A.sub (A.sub (cost i j) s.rowPotential[i]) s.colPotential[j]

/-- Takes the reached column into the tree. -/
def enter (p : Probe α N) : Probe α N := { p with visited := p.column :: p.visited }

/-- Whether the cell of the entered column's row improves the slack of column `j`. -/
def improves (A : Arithmetic α) (cost : Slot N → Slot N → α) (p : Probe α N) (j : Slot N) : Bool :=
  decide (j ≠ 0) && !p.visited.contains j &&
    A.less (reduced A cost p.toState p.rowOf[p.column] j) p.slack[j]

/-- Looks at every column outside the tree from the row of the entered column: where the
    reduced cost is less than the slack, it becomes the slack and the column is linked. -/
def scan (A : Arithmetic α) (cost : Slot N → Slot N → α) (p : Probe α N) : Probe α N :=
  { p with
    slack := Vector.ofFn fun j =>
      if p.improves A cost j then reduced A cost p.toState p.rowOf[p.column] j else p.slack[j]
    cameFrom := Vector.ofFn fun j => if p.improves A cost j then p.column else p.cameFrom[j] }

/-- The column of least slack among some columns, the lowest one if there are several. -/
def nearest (A : Arithmetic α) (slack : Vector α (N + 1)) (j : Slot N) (js : List (Slot N)) :
    Slot N :=
  (j :: js).get ((A.least slack[j] (js.map fun k => slack[k])).cast (by simp))

theorem nearest_mem (A : Arithmetic α) (slack : Vector α (N + 1)) (j : Slot N)
    (js : List (Slot N)) : nearest A slack j js ∈ j :: js :=
  List.get_mem _ _

/-- Shifts the potentials by `delta`: the rows of the tree rise, its columns fall, and every
    slack outside the tree falls. -/
def shift (A : Arithmetic α) (p : Probe α N) (delta : α) : Probe α N :=
  let rows := p.visited.map fun j => p.rowOf[j]
  { p with
    rowPotential := Vector.ofFn fun r =>
      if rows.contains r then A.add p.rowPotential[r] delta else p.rowPotential[r]
    colPotential := Vector.ofFn fun j =>
      if p.visited.contains j then A.sub p.colPotential[j] delta else p.colPotential[j]
    slack := Vector.ofFn fun j =>
      if p.visited.contains j then p.slack[j] else A.sub p.slack[j] delta }

/-- Reaches one more column: the one of least slack, at the price of that slack. -/
def step (A : Arithmetic α) (cost : Slot N → Slot N → α) (p : Probe α N) : Probe α N :=
  let seen := p.enter.scan A cost
  match outside seen.visited with
  | [] => seen
  | j :: js =>
    let next := nearest A seen.slack j js
    { seen.shift A seen.slack[next] with column := next }

/-- Whether the reached column has no row. -/
def done (p : Probe α N) : Bool := p.rowOf[p.column] == 0

/-- Reaches columns until one has no row, at most `fuel` of them. -/
def run (A : Arithmetic α) (cost : Slot N → Slot N → α) : Nat → Probe α N → Probe α N
  | 0, p => p
  | fuel + 1, p =>
    let next := p.step A cost
    if next.done then next else run A cost fuel next

end Probe

/-- The columns on the way back from column `j` along the links, without the virtual column
    at its end; none if there are more than `fuel` of them. -/
def trail (cameFrom : Vector (Slot N) (N + 1)) : Nat → Slot N → Option (List (Slot N))
  | 0, j => if j = 0 then some [] else none
  | fuel + 1, j =>
    if j = 0 then some [] else (trail cameFrom fuel cameFrom[j]).map (j :: ·)

/-- Hands rows back along a trail: every column takes the row of the column it was reached
    from. -/
def flip (cameFrom : Vector (Slot N) (N + 1)) :
    List (Slot N) → Vector (Slot N) (N + 1) → Vector (Slot N) (N + 1)
  | [], rowOf => rowOf
  | j :: rest, rowOf => flip cameFrom rest (put rowOf j rowOf[cameFrom[j]])

/-- One inserted row. -/
structure Stage (α : Type) (N : Nat) where
  row : Slot N
  /-- The search when it ended, at a column without a row. -/
  probe : Probe α N
  /-- The state after the rows were handed back; none if the way back never ends. -/
  state : Option (State α N)

/-- Inserts row `i` into a state. A row meets each slot at most once in the search, and a way
    back that ends passes each column at most once. -/
def insertRow (A : Arithmetic α) (cost : Slot N → Slot N → α) (reach : α) (s : State α N)
    (i : Slot N) : Stage α N :=
  let probe := (Probe.start s i reach).run A cost (N + 1)
  { row := i
    probe := probe
    state := (trail probe.cameFrom N probe.column).map fun columns =>
      { probe.toState with rowOf := flip probe.cameFrom columns probe.rowOf } }

/-- Inserts some rows in turn, up to one whose way back never ends. -/
def insertRows (A : Arithmetic α) (cost : Slot N → Slot N → α) (reach : α) :
    State α N → List (Slot N) → List (Stage α N)
  | _, [] => []
  | s, i :: rest =>
    let stage := insertRow A cost reach s i
    stage :: match stage.state with
      | some next => insertRows A cost reach next rest
      | none => []

/-- The rows of the table, without the virtual one. -/
def rows (N : Nat) : List (Slot N) := (List.finRange N).map Fin.succ

theorem mem_rows {i : Slot N} : i ∈ rows N ↔ i ≠ 0 := by
  constructor
  · intro h
    obtain ⟨k, _, rfl⟩ := List.mem_map.mp h
    exact Fin.succ_ne_zero k
  · intro h
    exact List.mem_map.mpr ⟨i.pred h, List.mem_finRange _, Fin.succ_pred i h⟩

/-- The insertion of all rows in turn. -/
def stages (A : Arithmetic α) (N : Nat) (cost : Slot N → Slot N → α) (reach : α) :
    List (Stage α N) :=
  insertRows A cost reach (State.start A N) (rows N)

/-- The state after all rows are inserted; none if the way back of a row never ends. -/
def final (A : Arithmetic α) (N : Nat) (cost : Slot N → Slot N → α) (reach : α) :
    Option (State α N) :=
  match (stages A N cost reach).getLast? with
  | some stage => stage.state
  | none => some (State.start A N)

end Search

end Roster
