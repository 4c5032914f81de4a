import Roster.Cost.Input
import Roster.Proofs.Cost.Acceptance

/-!
# Rows of Doubles

A matrix mostly comes as a list of rows. On the way to a table it is walked three times: for
its items, for the widths of its rows, and for the shape of the nesting, before any entry is
read. With doubles for entries none of these can go wrong but the widths, and two of them say
the same: rows of one width are an even nesting.

Rows without entries are the delicate case. They have lost one dimension, and if the declared
size has a zero it wins over the shape that is seen; so the table may have another size than
the list, and still has the same entries, which is none.

## Main definitions

* `CostInput.ofRows`: Rows of doubles as an input.
* `CostInput.IsEven`: Rows of one width.
* `CostInput.Describes`: Rows that are a matrix of a declared size.
* `CostInput.Holdable`: Rows and a declared size within what arrays can hold.
* `CostInput.entryAt`: The entry of some rows in a row and a column.
* `CostInput.reshape`: An array in a shape of two dimensions.

## Theorems

* `Grid.findCell?_eq_some_iff`: The cell that is found is the first one in row order.
* `CostInput.rowTensor_eq`: An array of rows in steps.
* `CostInput.rowTensor_ragged`, `CostInput.rowTensor_even`: The array of some rows.
* `CostInput.exists_toGrid`: Their table for a declared size.
-/

namespace Roster

/-! ### Cells by position -/

namespace Grid

variable {α : Type} {g : Grid α} {p : α → Bool} {i j : Nat} {x : α}

/-- Positions in row order are in the order of their rows, and within a row in that of their
    columns. -/
theorem position_lt_iff {w i' j' : Nat} (hj : j < w) (hj' : j' < w) :
    i' * w + j' < i * w + j ↔ i' < i ∨ i' = i ∧ j' < j := by
  rcases Nat.lt_trichotomy i' i with h | h | h
  -- A whole row lies between cells of different rows.
  · have hle := Nat.mul_le_mul_right w (Nat.succ_le_of_lt h)
    rw [Nat.succ_mul] at hle
    omega
  · subst h
    omega
  · have hle := Nat.mul_le_mul_right w (Nat.succ_le_of_lt h)
    rw [Nat.succ_mul] at hle
    omega

theorem get?_eq_some_iff : g.get? i j = some x ↔
    i < g.height ∧ j < g.width ∧ g.toList[i * g.width + j]? = some x := by
  by_cases h : i < g.height ∧ j < g.width
  · have hlen : i * g.width + j < g.toList.length := by
      rw [toList, Vector.length_toList]
      exact (position (⟨i, h.1⟩ : Fin g.height) (⟨j, h.2⟩ : Fin g.width)).isLt
    rw [get?, dif_pos h, List.getElem?_eq_getElem hlen]
    simp only [h.1, h.2, true_and]
    rfl
  · rw [get?, dif_neg h]
    simp only [reduceCtorEq, false_iff]
    exact fun hx => h ⟨hx.1, hx.2.1⟩

theorem get?_div_mod {k : Nat} (h : g.toList[k]? = some x) :
    g.get? (k / g.width) (k % g.width) = some x := by
  have hk := (List.getElem?_eq_some_iff.mp h).1
  rw [toList, Vector.length_toList] at hk
  rw [get?_eq_some_iff, Nat.div_add_mod' k g.width]
  exact ⟨Nat.div_lt_of_lt_mul (Nat.mul_comm g.height g.width ▸ hk),
    Nat.mod_lt k (width_pos ⟨k, hk⟩), h⟩

theorem findCell?_of_findIdx? {k : Nat} (hk : g.toList.findIdx? p = some k)
    (hx : g.toList[k]? = some x) : g.findCell? p = some (k / g.width, k % g.width, x) := by
  have hidx : g.cells.toList.findIdx? p = some k := hk
  have hcell : g.cells[k]? = some x := by
    rw [← Vector.getElem?_toList]
    exact hx
  unfold findCell?
  rw [hidx]
  simp only [hcell, Option.map_some]

/-- The cell that is found has the property, and no cell before it has. -/
theorem findCell?_eq_some_iff : g.findCell? p = some (i, j, x) ↔
    g.get? i j = some x ∧ p x = true ∧ ∀ i' j' y, g.get? i' j' = some y →
      i' < i ∨ i' = i ∧ j' < j → p y = false := by
  constructor
  · intro h
    cases hidx : g.toList.findIdx? p with
    | none =>
        have hnone := findCell?_eq_none_iff.mpr (List.findIdx?_eq_none_iff.mp hidx)
        rw [hnone] at h
        exact absurd h (by simp)
    | some k =>
        rcases List.findIdx?_eq_some_iff_getElem.mp hidx with ⟨hk, hp, hbefore⟩
        have hcell := List.getElem?_eq_getElem hk
        rw [findCell?_of_findIdx? hidx hcell, Option.some.injEq, Prod.mk.injEq,
          Prod.mk.injEq] at h
        rcases h with ⟨rfl, rfl, rfl⟩
        refine ⟨get?_div_mod hcell, hp, fun i' j' y hy hlt => ?_⟩
        rcases get?_eq_some_iff.mp hy with ⟨_, hj', hy⟩
        rw [← position_lt_iff (Nat.mod_lt k (by omega)) hj', Nat.div_add_mod' k g.width] at hlt
        rw [List.getElem?_eq_getElem (hlt.trans hk), Option.some.injEq] at hy
        exact Bool.eq_false_iff.mpr (hy ▸ hbefore _ hlt)
  · rintro ⟨hx, hp, hbefore⟩
    rcases get?_eq_some_iff.mp hx with ⟨hi, hj, hcell⟩
    rcases List.getElem?_eq_some_iff.mp hcell with ⟨hk, hget⟩
    -- No cell before this one has the property, so the search by position stops here.
    have hidx : g.toList.findIdx? p = some (i * g.width + j) := by
      refine List.findIdx?_eq_some_iff_getElem.mpr ⟨hk, hget ▸ hp, fun k hlt => ?_⟩
      have hy := get?_div_mod (List.getElem?_eq_getElem (hlt.trans hk))
      refine Bool.eq_false_iff.mp (hbefore _ _ _ hy ?_)
      rw [← position_lt_iff hj (Nat.mod_lt k (by omega)), Nat.div_add_mod' k g.width]
      exact hlt
    rw [findCell?_of_findIdx? hidx hcell, Nat.mul_comm i, Nat.mul_add_div (by omega),
      Nat.div_eq_of_lt hj, Nat.add_zero, Nat.mul_add_mod, Nat.mod_eq_of_lt hj]

theorem exists_ofList? {height width : Nat} {cells : List α} (h : cells.length = height * width) :
    ∃ g, ofList? height width cells = some g ∧ g.height = height ∧ g.width = width ∧
      g.toList = cells := by
  have hsize : cells.toArray.size = height * width := h
  rw [ofList?, dif_pos hsize]
  exact ⟨_, rfl, rfl, rfl, rfl⟩

theorem size_of_ofList? {height width : Nat} {cells : List α}
    (h : ofList? height width cells = some g) : g.height = height ∧ g.width = width := by
  unfold ofList? at h
  split at h
  · rcases Option.some.inj h with rfl
    exact ⟨rfl, rfl⟩
  · exact absurd h nofun

end Grid

/-! ### Even nestings -/

namespace CostInput

/-- The entries of a row of doubles as data. -/
def rowData (row : List Float) : List Datum := row.map fun x => .number (.real x)

/-- Rows of doubles as data. -/
def rowsData (rows : List (List Float)) : List Datum := rows.map fun row => .list (rowData row)

/-- Rows of doubles as an input. -/
def ofRows (rows : List (List Float)) : CostInput := .rows (.list (rowsData rows))

/-- All rows have one width. -/
def IsEven {α : Type} (rows : List (List α)) : Prop := ∃ width, ∀ row ∈ rows, row.length = width

end CostInput

namespace Tensor

open CostInput (rowData rowsData)

theorem commonShape_self (shape : List Nat) : commonShape shape shape = shape := by
  induction shape with
  | nil => rfl
  | cons n rest ih => rw [commonShape, if_pos rfl, ih]

/-- Items of one even shape share it. -/
theorem sharedShape_of_forall {shape : List Nat} {items : List (List Nat × Bool)}
    (h : ∀ x ∈ items, x = (shape, true)) :
    sharedShape items = (if items.isEmpty then none else some shape, true) := by
  induction items with
  | nil => rfl
  | cons x rest ih =>
      rcases h x List.mem_cons_self with rfl
      rw [sharedShape, ih fun y hy => h y (List.mem_cons_of_mem _ hy)]
      -- The last item has nothing to share with.
      cases rest with
      | nil => rfl
      | cons y rest => simp [commonShape_self]

/-- A list of data of one even shape has this shape behind its length, if it has any item. -/
theorem evenShape_list {limit : Nat} {items : List Datum} {shape : List Nat}
    (h : ∀ d ∈ items, evenShape limit d = (shape, true)) :
    evenShape (limit + 1) (.list items) =
      (items.length :: if items.isEmpty then [] else shape, true) := by
  -- All items have one shape, and this is the one they share.
  have hshared : sharedShape (items.map (evenShape limit)) =
      (if items.isEmpty then none else some shape, true) := by
    rw [sharedShape_of_forall fun x hx => ?_, List.isEmpty_map]
    rcases List.mem_map.mp hx with ⟨d, hd, rfl⟩
    exact h d hd
  have hrow : row? (.list items) = some items := rfl
  rw [evenShape, hrow]
  simp only [hshared]
  cases items with
  | nil => rfl
  | cons d rest => rfl

theorem evenShape_number (limit : Nat) (n : Number) : evenShape limit (.number n) = ([], true) := by
  cases limit with
  | zero => rfl
  | succ limit => rfl

theorem evenShape_row (limit : Nat) (row : List Float) :
    evenShape (limit + 1) (.list (rowData row)) = ([row.length], true) := by
  have hnumbers : ∀ d ∈ rowData row, evenShape limit d = ([], true) := by
    intro d hd
    rcases List.mem_map.mp hd with ⟨x, _, rfl⟩
    exact evenShape_number limit _
  rw [evenShape_list hnumbers, ite_self, rowData, List.length_map]

/-- Rows of one width make an even nesting. -/
theorem evenShape_rows {rows : List (List Float)} (h : CostInput.IsEven rows) (limit : Nat) :
    (evenShape (limit + 2) (.list (rowsData rows))).2 = true := by
  rcases h with ⟨width, hwidth⟩
  have hrows : ∀ d ∈ rowsData rows, evenShape (limit + 1) d = ([width], true) := by
    intro d hd
    rcases List.mem_map.mp hd with ⟨row, hrow, rfl⟩
    rw [evenShape_row, hwidth row hrow]
  rw [evenShape_list hrows]

theorem readAllEntries_row (row : List Float) : readAllEntries (rowData row) = .ok row := by
  induction row with
  | nil => rfl
  | cons x rest ih =>
      change readAllEntries (.number (.real x) :: rowData rest) = _
      rw [readAllEntries, ih]
      rfl

theorem readAllEntries_rows (rows : List (List Float)) :
    readAllEntries (rowsData rows) = .ok rows.flatten := by
  induction rows with
  | nil => rfl
  | cons row rest ih =>
      change readAllEntries (.list (rowData row) :: rowsData rest) = _
      rw [readAllEntries, readEntries, readAllEntries_row, ih]
      rfl

/-- The array of rows of one width has their entries one after the other. -/
theorem exists_ofDatum {rows : List (List Float)} (h : CostInput.IsEven rows) :
    ∃ shape, ofDatum (.list (rowsData rows)) = .ok { shape := shape, entries := rows.flatten } := by
  -- The nesting is two deep, and the limit leaves room for more. The shape that is found does not
  -- matter, since rows are given one of their own.
  have heven := evenShape_rows h 62
  unfold ofDatum
  rw [show maxDimensions = 62 + 2 from rfl]
  generalize evenShape (62 + 2) (.list (rowsData rows)) = found at heven
  rcases found with ⟨shape, even⟩
  rw [show even = true from heven]
  simp only [if_true, readEntries, readAllEntries_rows]
  exact ⟨shape, rfl⟩

end Tensor

/-! ### Widths -/

namespace CostInput

theorem nodup_eraseDups (xs : List Nat) : xs.eraseDups.Nodup := by
  -- The recursion goes on with a filtered list, so the induction is on the length.
  induction h : xs.length using Nat.strong_induction_on generalizing xs with
  | _ k ih =>
      cases xs with
      | nil => exact List.nodup_nil
      | cons x rest =>
          rw [List.eraseDups_cons, List.nodup_cons, List.mem_eraseDups]
          refine ⟨by simp, ih _ ?_ _ rfl⟩
          have hle := List.length_filter_le (fun y => !y == x) rest
          rw [List.length_cons] at h
          omega

section Widths

variable {rows : List (List Datum)} {width : Nat}

theorem mem_distinctWidths {k : Nat} : k ∈ distinctWidths rows ↔ ∃ row ∈ rows, row.length = k := by
  rw [distinctWidths, List.mem_mergeSort, List.mem_eraseDups, List.mem_map]

theorem pairwise_distinctWidths (rows : List (List Datum)) :
    (distinctWidths rows).Pairwise (· < ·) := by
  -- Sorted and each once is strictly increasing.
  have hsorted : (distinctWidths rows).Pairwise fun a b => decide (a ≤ b) = true := by
    refine List.pairwise_mergeSort (fun a b c hab hbc => ?_) (fun a b => ?_) _
    · exact decide_eq_true ((of_decide_eq_true hab).trans (of_decide_eq_true hbc))
    · rw [Bool.or_eq_true, decide_eq_true_eq, decide_eq_true_eq]
      exact Nat.le_total a b
  have hnodup : (distinctWidths rows).Nodup :=
    (List.mergeSort_perm _ _).nodup_iff.mpr (nodup_eraseDups _)
  exact (List.pairwise_and_iff.mpr ⟨hsorted, hnodup⟩).imp fun h =>
    Nat.lt_of_le_of_ne (of_decide_eq_true h.1) h.2

/-- Rows of one width have no other. -/
theorem distinctWidths_eq (h : ∀ row ∈ rows, row.length = width) :
    distinctWidths rows = if rows.isEmpty then [] else [width] := by
  have hsorted := pairwise_distinctWidths rows
  have hall : ∀ k ∈ distinctWidths rows, k = width := by
    intro k hk
    rcases mem_distinctWidths.mp hk with ⟨row, hrow, rfl⟩
    exact h row hrow
  cases rows with
  | nil => simp [distinctWidths]
  | cons row rest =>
      have hmem : row.length ∈ distinctWidths (row :: rest) :=
        mem_distinctWidths.mpr ⟨row, List.mem_cons_self, rfl⟩
      rw [h row List.mem_cons_self] at hmem
      generalize distinctWidths (row :: rest) = widths at hsorted hall hmem
      -- In an increasing list there is no room for the same width again.
      match widths with
      | [] => exact absurd hmem List.not_mem_nil
      | [k] => rw [hall k List.mem_cons_self]; rfl
      | k :: l :: others =>
          have hlt := (List.pairwise_cons.mp hsorted).1 l List.mem_cons_self
          have hk := hall k List.mem_cons_self
          have hl := hall l (List.mem_cons_of_mem _ List.mem_cons_self)
          omega

theorem isEven_iff : IsEven rows ↔ (distinctWidths rows).length ≤ 1 := by
  constructor
  · rintro ⟨width, hwidth⟩
    rw [distinctWidths_eq hwidth]
    split
    · exact Nat.zero_le 1
    · exact Nat.le_refl 1
  · intro hlen
    have hmem : ∀ row ∈ rows, row.length ∈ distinctWidths rows := fun row hrow =>
      mem_distinctWidths.mpr ⟨row, hrow, rfl⟩
    -- At most one width: none if there are no rows, or that of all of them.
    match hwidths : distinctWidths rows with
    | [] =>
        rw [hwidths] at hmem
        exact ⟨0, fun row hrow => absurd (hmem row hrow) List.not_mem_nil⟩
    | [k] =>
        rw [hwidths] at hmem
        exact ⟨k, fun row hrow => List.mem_singleton.mp (hmem row hrow)⟩
    | k :: l :: others =>
        rw [hwidths, List.length_cons, List.length_cons] at hlen
        omega

end Widths

/-! ### The array of some rows -/

/-- The width that rows of some widths are given: their own, or the declared one if there are
    no rows. -/
def givenWidth (m : Int) : List Nat → Int
  | w :: _ => w
  | [] => m

/-- An array in a shape of two dimensions. -/
def reshape (found : Tensor) (height : Nat) (width : Int) : Except Fault Tensor :=
  if width < 0 ∨ found.entries.length ≠ height * width.toNat then
    .error (.cannotReshape found.entries.length [height, width])
  else if !Grid.isHoldable [height, width.toNat] then .error .badValue
  else .ok { shape := [height, width.toNat], entries := found.entries }

/-- An array of rows is the array of the nesting in the shape that the rows have. -/
theorem rowTensor_eq (data : Datum) (m : Int) :
    rowTensor data m = (splitRows data).bind fun rows =>
      if 1 < (distinctWidths rows).length then .error (.matrix (.ragged (distinctWidths rows)))
      else (Tensor.ofDatum (.list (rows.map .list))).bind fun found =>
        reshape found rows.length (givenWidth m (distinctWidths rows)) := by
  unfold rowTensor
  refine bind_congr fun rows => ?_
  by_cases hragged : 1 < (distinctWidths rows).length
  · simp only [if_pos hragged]
    rfl
  · simp only [if_neg hragged]
    refine bind_congr fun found => ?_
    -- Both kinds of widths go the same way once the width is known.
    have hreshape : ∀ width : Int, (do
        if width < 0 ∨ found.entries.length ≠ rows.length * width.toNat then
          throw (Fault.cannotReshape found.entries.length [rows.length, width])
        if !Grid.isHoldable [rows.length, width.toNat] then throw Fault.badValue
        return { shape := [rows.length, width.toNat], entries := found.entries }) =
        reshape found rows.length width := by
      intro width
      unfold reshape
      by_cases hfits : width < 0 ∨ found.entries.length ≠ rows.length * width.toNat
      · rw [if_pos hfits, if_pos hfits]
        rfl
      · rw [if_neg hfits, if_neg hfits]
        split
        · rfl
        · rfl
    cases distinctWidths rows with
    | nil => exact hreshape m
    | cons w others => exact hreshape w

theorem reshape_ok {found tensor : Tensor} {height : Nat} {width : Int}
    (h : reshape found height width = .ok tensor) :
    Grid.isHoldable tensor.shape = true ∧ tensor.shape = [height, width.toNat] := by
  unfold reshape at h
  split at h
  · exact absurd h nofun
  · split at h
    · exact absurd h nofun
    · rename_i hhold
      rcases Except.ok.inj h with rfl
      exact ⟨by simpa using hhold, rfl⟩

variable {rows : List (List Float)} {width : Nat} {n m : Int}

theorem splitRows_rowsData (rows : List (List Float)) :
    splitRows (.list (rowsData rows)) = .ok (rows.map rowData) := by
  change (rows.map fun row => Datum.list (rowData row)).mapM _ = _
  rw [List.mapM_map]
  exact List.mapM_pure

theorem isEven_rowData : IsEven (rows.map rowData) ↔ IsEven rows := by
  simp only [IsEven, List.forall_mem_map, rowData, List.length_map]

theorem mem_distinctWidths_rowData {k : Nat} :
    k ∈ distinctWidths (rows.map rowData) ↔ ∃ row ∈ rows, row.length = k := by
  rw [mem_distinctWidths]
  simp only [List.mem_map, exists_exists_and_eq_and, rowData, List.length_map]

/-- Nothing else lists the widths of some rows in increasing order. -/
theorem eq_distinctWidths {widths : List Nat} (hsorted : widths.Pairwise (· < ·))
    (hmem : ∀ k, k ∈ widths ↔ ∃ row ∈ rows, row.length = k) :
    widths = distinctWidths (rows.map rowData) :=
  hsorted.eq_of_mem_iff (pairwise_distinctWidths _) fun k =>
    (hmem k).trans mem_distinctWidths_rowData.symm

theorem rowTensor_ragged (h : ¬ IsEven rows) (m : Int) :
    rowTensor (.list (rowsData rows)) m =
      .error (.matrix (.ragged (distinctWidths (rows.map rowData)))) := by
  rw [← isEven_rowData, isEven_iff, Nat.not_le] at h
  rw [rowTensor_eq, splitRows_rowsData]
  exact if_pos h

theorem length_flatten (h : ∀ row ∈ rows, row.length = width) :
    rows.flatten.length = rows.length * width := by
  rw [List.length_flatten, List.map_congr_left h, List.map_const', List.sum_replicate_nat]

/-- Rows of one width make an array, as wide as declared if there are none. -/
theorem rowTensor_even (h : ∀ row ∈ rows, row.length = width)
    (hnone : rows = [] → (width : Int) = m)
    (hhold : Grid.isHoldable [rows.length, width] = true) :
    rowTensor (.list (rowsData rows)) m =
      .ok { shape := [rows.length, width], entries := rows.flatten } := by
  have hdata : ∀ row ∈ rows.map rowData, row.length = width := by
    simpa only [List.forall_mem_map, rowData, List.length_map] using h
  have hone : ¬ 1 < (distinctWidths (rows.map rowData)).length :=
    Nat.not_lt.mpr (isEven_iff.mp ⟨width, hdata⟩)
  have hwide : givenWidth m (distinctWidths (rows.map rowData)) = width := by
    rw [distinctWidths_eq hdata]
    cases rows with
    | nil => exact (hnone rfl).symm
    | cons row rest => rfl
  have hlists : (rows.map rowData).map Datum.list = rowsData rows := by
    rw [List.map_map]
    rfl
  -- The entries fill the shape exactly, so nothing is left to go wrong but its size.
  have hfits : ¬ ((width : Int) < 0 ∨ rows.flatten.length ≠ rows.length * width) := by
    rw [length_flatten h]
    omega
  rcases Tensor.exists_ofDatum ⟨width, h⟩ with ⟨shape, htensor⟩
  rw [rowTensor_eq, splitRows_rowsData]
  simp only [Except.bind, if_neg hone, hlists, htensor, hwide, List.length_map]
  unfold reshape
  rw [Int.toNat_natCast, if_neg hfits, hhold]
  rfl

/-! ### Tables of some rows -/

/-- The entry of some rows in a row and a column, if there is one. -/
def entryAt {α : Type} (rows : List (List α)) (i j : Nat) : Option α :=
  rows[i]?.bind fun row => row[j]?

theorem entryAt_eq_none {i j : Nat} (h : ∀ row ∈ rows, row = []) : entryAt rows i j = none := by
  refine Option.bind_eq_none_iff.mpr fun row hrow => ?_
  rw [h row (List.mem_of_getElem? hrow)]
  rfl

theorem getElem?_flatten {i j : Nat} (h : ∀ row ∈ rows, row.length = width) (hj : j < width) :
    rows.flatten[i * width + j]? = entryAt rows i j := by
  induction rows generalizing i with
  | nil => rfl
  | cons row rest ih =>
      rcases List.forall_mem_cons.mp h with ⟨hrow, hrest⟩
      rw [List.flatten_cons]
      cases i with
      | zero =>
          rw [Nat.zero_mul, Nat.zero_add, List.getElem?_append_left (hrow.symm ▸ hj)]
          rfl
      | succ i =>
          -- The position lies behind the first row, and in the rest it is one row less.
          have hle : row.length ≤ (i + 1) * width + j := by
            rw [Nat.succ_mul]
            omega
          have hsub : (i + 1) * width + j - row.length = i * width + j := by
            rw [Nat.succ_mul]
            omega
          rw [List.getElem?_append_right hle, hsub, ih hrest]
          rfl

theorem entryAt_lt {i j : Nat} {x : Float} (h : ∀ row ∈ rows, row.length = width)
    (hx : entryAt rows i j = some x) : i < rows.length ∧ j < width := by
  rcases Option.bind_eq_some_iff.mp hx with ⟨row, hrow, hcell⟩
  have hmem := List.mem_of_getElem? hrow
  exact ⟨(List.getElem?_eq_some_iff.mp hrow).1,
    h row hmem ▸ (List.getElem?_eq_some_iff.mp hcell).1⟩

/-- A table that holds the entries of some rows one after the other has them in their places. -/
theorem get?_eq_entryAt {g : Grid Float} (h : ∀ row ∈ rows, row.length = width)
    (hheight : g.height = rows.length) (hwidth : g.width = width) (hlist : g.toList = rows.flatten)
    (i j : Nat) : g.get? i j = entryAt rows i j := by
  apply Option.ext
  intro x
  rw [Grid.get?_eq_some_iff, hheight, hwidth, hlist]
  constructor
  · rintro ⟨_, hj, hx⟩
    exact getElem?_flatten h hj ▸ hx
  · intro hx
    rcases entryAt_lt h hx with ⟨hi, hj⟩
    exact ⟨hi, hj, (getElem?_flatten h hj).trans hx⟩

/-- Some rows are a matrix of a declared size: they have this size, or they have no entry and
    it has none either. -/
def Describes (n m : Int) (rows : List (List Float)) : Prop :=
  ((rows.length : Int) = n ∧ ∀ row ∈ rows, (row.length : Int) = m) ∨
    ((n = 0 ∨ m = 0) ∧ ∀ row ∈ rows, row = [])

/-- Some rows and a declared size are within what arrays can hold. A size matters only where
    an array of that size is made. -/
structure Holdable (n m : Int) (rows : List (List Float)) : Prop where
  ownSize : ∀ row ∈ rows, Grid.isHoldable [rows.length, row.length] = true
  noRows : rows = [] → Grid.isHoldable [0, m.toNat] = true
  noEntries : (n = 0 ∨ m = 0) → (∀ row ∈ rows, row = []) →
    Grid.isHoldable [n.toNat, m.toNat] = true

theorem Holdable.isHoldable (hhold : Holdable n m rows) (h : ∀ row ∈ rows, row.length = width)
    (hnone : rows = [] → (width : Int) = m) : Grid.isHoldable [rows.length, width] = true := by
  by_cases hnil : rows = []
  · have hm : m.toNat = width := by
      have := hnone hnil
      omega
    rw [hnil, ← hm]
    exact hhold.noRows hnil
  · rcases List.exists_mem_of_ne_nil rows hnil with ⟨row, hrow⟩
    rw [← h row hrow]
    exact hhold.ownSize row hrow

/-- A table for some rows of one width: it has their entries, the declared size if they are a
    matrix of that size, and else their own. -/
structure Tabulates (n m : Int) (rows : List (List Float)) (width : Nat) (g : Grid Float) :
    Prop where
  entries : ∀ i j, g.get? i j = entryAt rows i j
  declared : Describes n m rows → (g.height : Int) = n ∧ (g.width : Int) = m
  seen : ¬ Describes n m rows → g.height = rows.length ∧ g.width = width

/-- A declared size with a zero has a table without entries. -/
theorem exists_declaredGrid (hn : 0 ≤ n) (hm : 0 ≤ m) (hzero : n = 0 ∨ m = 0)
    (hhold : Grid.isHoldable [n.toNat, m.toNat] = true) :
    ∃ g, declaredGrid n m = .ok g ∧ (g.height : Int) = n ∧ (g.width : Int) = m ∧
      ∀ i j, g.get? i j = none := by
  -- A zero on either side leaves no cell to fill.
  have hsize : ([] : List Float).length = n.toNat * m.toNat := by
    rcases hzero with rfl | rfl
    · exact (Nat.zero_mul _).symm
    · exact (Nat.mul_zero _).symm
  have hfine : ¬ (n < 0 ∨ m < 0 ∨ (!Grid.isHoldable [n.toNat, m.toNat]) = true) := by
    rw [hhold]
    simp only [Bool.not_true, Bool.false_eq_true, or_false]
    omega
  rcases Grid.exists_ofList? hsize with ⟨g, hg, hheight, hwidth, hlist⟩
  refine ⟨g, ?_, by omega, by omega, fun i j => Option.eq_none_iff_forall_ne_some.mpr ?_⟩
  · rw [declaredGrid, if_neg hfine, hg]
  · intro x hx
    rw [Grid.get?_eq_some_iff, hlist] at hx
    exact absurd hx.2.2 (by simp)

/-- Rows of one width have a table for every declared size. -/
theorem exists_toGrid (hn : 0 ≤ n) (hm : 0 ≤ m) (h : ∀ row ∈ rows, row.length = width)
    (hnone : rows = [] → (width : Int) = m) (hhold : Holdable n m rows) :
    ∃ g, (ofRows rows).toGrid (some n) (some m) = .ok g ∧ Tabulates n m rows width g := by
  have htensor := rowTensor_even h hnone (hhold.isHoldable h hnone)
  have hgrid : (ofRows rows).toGrid (some n) (some m) =
      tensorGrid { shape := [rows.length, width], entries := rows.flatten } (some n) (some m) := by
    change (rowTensor (.list (rowsData rows)) m).bind _ = _
    rw [htensor]
    rfl
  rw [hgrid, tensorGrid]
  by_cases hvacant : (n = 0 ∨ m = 0) ∧ ∀ row ∈ rows, row = []
  · -- The declared size wins, and there is no entry to lose.
    rcases exists_declaredGrid hn hm hvacant.1 (hhold.noEntries hvacant.1 hvacant.2) with
      ⟨g, hg, hheight, hwidth, hentries⟩
    have hcond : (rows.flatten.isEmpty = true) ∧ (some n = some 0 ∨ some m = some 0) :=
      ⟨List.isEmpty_iff.mpr (List.flatten_eq_nil_iff.mpr hvacant.2),
        hvacant.1.imp (congrArg some) (congrArg some)⟩
    refine ⟨g, ?_, fun i j => ?_, fun _ => ⟨hheight, hwidth⟩,
      fun hno => absurd (Or.inr hvacant) hno⟩
    · rw [if_pos hcond, Option.getD_some, Option.getD_some, hg]
    · rw [hentries, entryAt_eq_none hvacant.2]
  -- Otherwise the rows keep their own size, and it is the declared one if they are such a matrix.
  · have hcond : ¬ ((rows.flatten.isEmpty = true) ∧ (some n = some 0 ∨ some m = some 0)) := by
      rw [List.isEmpty_iff, List.flatten_eq_nil_iff, Option.some.injEq, Option.some.injEq]
      exact fun hboth => hvacant hboth.symm
    rcases Grid.exists_ofList? (length_flatten h) with ⟨g, hg, hheight, hwidth, hlist⟩
    refine ⟨g, ?_, get?_eq_entryAt h hheight hwidth hlist, fun hdescribes => ?_,
      fun _ => ⟨hheight, hwidth⟩⟩
    · rw [if_neg hcond]
      simp only [hg]
    · rcases hdescribes with ⟨hlen, hwide⟩ | hempty
      · refine ⟨by omega, ?_⟩
        by_cases hnil : rows = []
        · rw [hwidth]
          exact hnone hnil
        · rcases List.exists_mem_of_ne_nil rows hnil with ⟨row, hrow⟩
          rw [hwidth, ← h row hrow]
          exact hwide row hrow
      · exact absurd hempty hvacant

end CostInput

end Roster
