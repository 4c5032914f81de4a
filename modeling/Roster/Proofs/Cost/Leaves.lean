import Roster.Proofs.Cost.Rows
import Roster.Proofs.Fallible

/-!
# Leaves of a Nesting

A nesting is read leaf by leaf in row order, up to the first leaf that stands for no double.
A text that is no number is a bad value, and a user is told so. The other two faults are not of
that kind: an integer beyond all doubles, and a leaf that is no scalar at all, as a date, a set
or a mapping is. Neither comes up if an earlier leaf is a bad value, or if the shape is one.

What is done with the entries afterwards, to give them a shape of two dimensions, fails with bad
values only.

## Main definitions

* `Unreported`: A step fails, and the fault is not one that a user is told.
* `Tensor.leaves`: The entries of a nesting as they are given.
* `Tensor.Stray`: A leaf whose fault a user is not told.
* `CostInput.IsTable`: Data with rows that have cells.
* `CostInput.Strays`: Rows with such a leaf that is reached.

## Theorems

* `Unreported.bind_iff`: Two steps fail so as the first of them that fails.
* `Tensor.readEntries_eq`: The entries are those of the leaves.
* `Tensor.stray_iff`: Which leaves stray.
* `CostInput.toGrid_unreported_iff`: How rows fail so.
-/

namespace Roster

/-- A step fails with a fault that a command line does not report to its user. -/
def Unreported {α : Type} (a : Except Fault α) (fault : Fault) : Prop :=
  a = .error fault ∧ fault.isReportable = false

namespace Unreported

variable {α β : Type} {a : Except Fault α} {f : α → Except Fault β} {g : α → β}
  {fault : Fault} {p : Prop}

theorem ok_iff (x : α) : Unreported (.ok x : Except Fault α) fault ↔ False := by
  simp [Unreported]

theorem error_iff {other : Fault} : Unreported (.error other : Except Fault α) fault ↔
    other.isReportable = false ∧ fault = other := by
  rw [Unreported, Except.error.injEq]
  constructor
  · rintro ⟨rfl, h⟩
    exact ⟨h, rfl⟩
  · rintro ⟨h, rfl⟩
    exact ⟨rfl, h⟩

theorem not_ok (x : α) : ¬ Unreported (.ok x : Except Fault α) fault := (ok_iff x).mp

/-- A fault that is reported is no fault of this kind. -/
theorem not_error {other : Fault} (h : other.isReportable = true) :
    ¬ Unreported (.error other : Except Fault α) fault := by
  rw [error_iff, h]
  exact fun hfault => absurd hfault.1 (by decide)

theorem bind_iff : Unreported (a >>= f) fault ↔
    Unreported a fault ∨ ∃ x, a = .ok x ∧ Unreported (f x) fault := by
  rw [Unreported, bind_eq_error_iff, or_and_right, exists_and_right.symm]
  simp only [Unreported, and_assoc]

theorem map_iff : Unreported (a.map g) fault ↔ Unreported a fault := by
  cases a with
  | ok x => simp [Except.map, ok_iff]
  | error other => simp [Except.map, error_iff]

/-- A step with one fault, which is not reported, fails so unless its condition holds. -/
theorem of_answersIf {other : Fault} (h : AnswersIf p other a)
    (hother : other.isReportable = false) :
    Unreported a fault ↔ ¬ p ∧ fault = other := by
  rcases h with ⟨hp, x, rfl⟩ | ⟨hp, rfl⟩
  · simp [ok_iff, hp]
  · simp [error_iff, hp, hother]

end Unreported

namespace Tensor

/-! ### Leaves -/

mutual

/-- The entries of a nesting in row order, as they are given. -/
def leaves : Datum → List Datum
  | .list items => allLeaves items
  | .pair first second => leaves first ++ leaves second
  | d => [d]

/-- The entries of all items in order. -/
def allLeaves : List Datum → List Datum
  | [] => []
  | d :: rest => leaves d ++ allLeaves rest

end

theorem mapM_append_bind (before after : List Datum) : (before ++ after).mapM entry =
    (before.mapM entry).bind fun xs => (after.mapM entry).map (xs ++ ·) := by
  rw [List.mapM_append]
  rfl

theorem mapM_single (d : Datum) : [d].mapM entry = (entry d).map ([·]) := by
  rw [List.mapM_cons, List.mapM_nil]
  cases entry d with
  | ok x => rfl
  | error fault => rfl

mutual

/-- A nesting is read leaf by leaf. -/
theorem readEntries_eq (d : Datum) : readEntries d = (leaves d).mapM entry := by
  cases d with
  | list items =>
      rw [readEntries, leaves]
      exact readAllEntries_eq items
  -- A pair stands where a list could, and is read one item after the other.
  | pair first second =>
      rw [readEntries, leaves, mapM_append_bind, readEntries_eq first, readEntries_eq second]
  | _ => exact (mapM_single _).symm

theorem readAllEntries_eq (items : List Datum) :
    readAllEntries items = (allLeaves items).mapM entry := by
  cases items with
  | nil => rfl
  | cons d rest =>
      rw [readAllEntries, allLeaves, mapM_append_bind, readEntries_eq d, readAllEntries_eq rest]
      cases (leaves d).mapM entry with
      | ok xs => rfl
      | error fault => rfl

end

/-- Whether a leaf is a scalar that is read as a number. -/
def isScalar : Datum → Bool
  | .null => true
  | .number _ => true
  | .text _ => true
  | .codes _ => true
  | .bytes _ => true
  | _ => false

/-- A leaf that stands for no double, for a reason that a user is not told: an integer beyond
    all doubles, or no scalar at all. -/
inductive Stray : Datum → Fault → Prop
  | huge {n : Number} (h : n.toDouble? = none) : Stray (.number n) .tooLarge
  | misplaced {d : Datum} (h : isScalar d = false) : Stray d .wrongKind

theorem stray_iff {d : Datum} {fault : Fault} : Stray d fault ↔ Unreported (entry d) fault := by
  constructor
  -- Kind by kind. All scalars but integers beyond the doubles are entries or are told to be none.
  · rintro (@⟨n, h⟩ | ⟨h⟩)
    · exact ⟨by rw [entry, h], rfl⟩
    · cases d with
      | null | number | text | codes | bytes => exact absurd h (by simp [isScalar])
      | _ => exact ⟨rfl, rfl⟩
  · intro h
    unfold entry at h
    split at h
    · exact absurd h (Unreported.not_ok _)
    · split at h
      · exact absurd h (Unreported.not_ok _)
      · rename_i hnone
        rcases Unreported.error_iff.mp h with ⟨_, rfl⟩
        exact .huge hnone
    · split at h
      · exact absurd h (Unreported.not_ok _)
      · exact absurd h (Unreported.not_error rfl)
    · exact absurd h (Unreported.not_error rfl)
    · split at h
      · exact absurd h (Unreported.not_ok _)
      · exact absurd h (Unreported.not_error rfl)
    · rcases Unreported.error_iff.mp h with ⟨_, rfl⟩
      refine .misplaced ?_
      cases d with
      | null | number | text | codes | bytes => simp_all
      | _ => rfl

/-- Entries with a leaf that strays, behind leaves that all stand for doubles. -/
def StraysAmong (found : List Datum) (fault : Fault) : Prop :=
  ∃ before leaf after, found = before ++ leaf :: after ∧
    (∀ d ∈ before, ∃ x, entry d = .ok x) ∧ Stray leaf fault

theorem readEntries_unreported_iff {d : Datum} {fault : Fault} :
    Unreported (readEntries d) fault ↔ StraysAmong (leaves d) fault := by
  rw [readEntries_eq, Unreported, mapM_eq_error_iff]
  -- The first leaf that fails is the one that counts, and all leaves before it are entries.
  constructor
  · rintro ⟨⟨before, leaf, after, hparts, hbefore, hleaf⟩, hfault⟩
    exact ⟨before, leaf, after, hparts, hbefore, stray_iff.mpr ⟨hleaf, hfault⟩⟩
  · rintro ⟨before, leaf, after, hparts, hbefore, hleaf⟩
    rcases stray_iff.mp hleaf with ⟨hleaf, hfault⟩
    exact ⟨⟨before, leaf, after, hparts, hbefore, hleaf⟩, hfault⟩

/-- Whether all items at one depth of a nesting have one shape, up to the greatest depth. -/
def IsEven (d : Datum) : Prop := (evenShape maxDimensions d).2 = true

theorem ofDatum_unreported_iff {d : Datum} {fault : Fault} :
    Unreported (ofDatum d) fault ↔ IsEven d ∧ StraysAmong (leaves d) fault := by
  unfold ofDatum IsEven
  rcases evenShape maxDimensions d with ⟨shape, even⟩
  -- An uneven nesting is a bad value, and none of its leaves is read.
  cases even with
  | true =>
      simp only [if_true, true_and]
      rw [Unreported.map_iff, readEntries_unreported_iff]
  | false =>
      simp only [Bool.false_eq_true, if_false, false_and, iff_false]
      split
      · exact Unreported.not_error rfl
      · exact Unreported.not_error rfl

end Tensor

namespace CostInput

variable {data : Datum} {rows : List (List Datum)} {fault : Fault}

/-! ### Rows -/

/-- Data with items that have items in turn: rows with cells. -/
def IsTable (data : Datum) : Prop :=
  ∃ found, data.items? = some found ∧ ∀ row ∈ found, row.items?.isSome = true

theorem splitRows_answersIf (data : Datum) :
    AnswersIf (IsTable data) .wrongKind (splitRows data) := by
  unfold splitRows IsTable
  cases data.items? with
  | none => exact Or.inr ⟨by simp, rfl⟩
  | some found =>
      simp only [Option.some.injEq, exists_eq_left']
      refine AnswersIf.mapM fun row _ => ?_
      cases row.items? with
      | none => exact Or.inr ⟨by simp, rfl⟩
      | some cells => exact Or.inl ⟨rfl, cells, rfl⟩

/-- Rows of one width that nest evenly, with a leaf that strays and is reached. -/
structure Strays (rows : List (List Datum)) (fault : Fault) : Prop where
  width : IsEven rows
  shape : Tensor.IsEven (.list (rows.map .list))
  leaf : Tensor.StraysAmong (Tensor.leaves (.list (rows.map .list))) fault

/-- Entries that do not fit into a shape are bad values. -/
theorem reshape_reported (found : Tensor) (height : Nat) (width : Int) :
    ¬ Unreported (reshape found height width) fault := by
  unfold reshape
  split
  · exact Unreported.not_error rfl
  · split
    · exact Unreported.not_error rfl
    · exact Unreported.not_ok _

theorem declaredGrid_reported (n m : Int) : ¬ Unreported (declaredGrid n m) fault := by
  unfold declaredGrid
  split
  · exact Unreported.not_error rfl
  · split
    · exact Unreported.not_ok _
    · exact Unreported.not_error rfl

theorem tensorGrid_reported (tensor : Tensor) (n m : Option Int) :
    ¬ Unreported (tensorGrid tensor n m) fault := by
  unfold tensorGrid
  split
  · exact declaredGrid_reported _ _
  · split
    · split
      · exact Unreported.not_ok _
      · exact Unreported.not_error rfl
    · exact Unreported.not_error rfl

/-- The array of rows of one width fails without a report if a leaf of theirs strays. -/
theorem rowTensor_unreported_iff {m : Int} : Unreported (rowTensor data m) fault ↔
    ¬ IsTable data ∧ fault = .wrongKind ∨
      ∃ rows, splitRows data = .ok rows ∧ Strays rows fault := by
  rw [rowTensor_eq]
  refine Unreported.bind_iff.trans ?_
  rw [Unreported.of_answersIf (splitRows_answersIf data) rfl]
  refine or_congr_right (exists_congr fun rows => and_congr_right fun _ => ?_)
  by_cases heven : IsEven rows
  · rw [if_neg (Nat.not_lt.mpr (isEven_iff.mp heven))]
    refine Unreported.bind_iff.trans ?_
    simp only [reshape_reported, and_false, exists_false, or_false, Tensor.ofDatum_unreported_iff]
    exact ⟨fun h => ⟨heven, h.1, h.2⟩, fun h => ⟨h.shape, h.leaf⟩⟩
  · -- Rows of several widths are refused before any leaf is read.
    rw [if_pos (Nat.not_le.mp (isEven_iff.not.mp heven))]
    exact iff_of_false (Unreported.not_error rfl) fun h => heven h.width

/-- Rows fail without a report if they are none, or if they have a leaf that strays. -/
theorem toGrid_unreported_iff {n m : Option Int} :
    Unreported ((CostInput.rows data).toGrid n m) fault ↔
      ¬ IsTable data ∧ fault = .wrongKind ∨
      ∃ rows, splitRows data = .ok rows ∧ Strays rows fault := by
  refine Unreported.bind_iff.trans ?_
  simp only [tensorGrid_reported, and_false, exists_false, or_false]
  exact rowTensor_unreported_iff

end CostInput

end Roster
