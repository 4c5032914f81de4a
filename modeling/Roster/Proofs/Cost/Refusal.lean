import Roster.Proofs.Cost.Rows
import Roster.Proofs.Padded.Termination
import Roster.Proofs.Pairing.Inside

/-!
# Refused Matrices

A matrix may have many defects at once, and is refused for one of them. The reasons have an
order: a negative size, uneven rows, a size that does not match, a cost that is not finite, a
negative cost, a cost that reaches the padding sentinel. What is told is the first reason of
all that apply, and for a cost the first one in row order; cells of later classes do not
matter, wherever they lie.

The checks are spread over several functions, some of them are made twice, and matrices without
entries go ways of their own. The reasons are stated here about the rows that are given, and no
table, array or width on the way occurs in them.

Two things are left to settings and sizes. A cost is compared with the double next to the
sentinel, so a sentinel beyond all doubles compares with nothing; and a size without entries
may be too large for an array.

## Main definitions

* `CostInput.IsMatrix`: Rows that are a matrix of a declared size that is not negative.
* `CostInput.Accepts`: Rows without a defect.
* `CostInput.Refuses`: The first reason against some rows.

## Theorems

* `CostInput.Refuses.prepare_eq`: The first reason against some rows is the one that is told.
* `CostInput.Accepts.not_refuses`: Rows without a defect are not refused.
* `CostInput.prepare_cases`, `CostInput.solve_cases`: What a check and a solve may come to.
* `CostInput.exists_outcome_of_isAmple`: With the cap far above the padding, checked costs have an
  outcome.
* `Config.build_ordered`: Settings that are taken are in order.
* `solve_acceptance`: A solve accepts rows without a defect and refuses all others with the
  first reason.
-/

namespace Roster

namespace CostInput

/-! ### Reasons -/

section Reasons

variable (n m : Int) (rows : List (List Float)) (sentinel : Number)

/-- Some rows are a matrix of a declared size, which is not negative. -/
structure IsMatrix : Prop where
  workers : 0 ≤ n
  jobs : 0 ≤ m
  describes : Describes n m rows

/-- An entry with a property, such that no entry before it in row order has it. -/
structure IsFirstEntry (p : Float → Prop) (i j : Nat) (x : Float) : Prop where
  entry : entryAt rows i j = some x
  holds : p x
  first : ∀ i' j' y, entryAt rows i' j' = some y → i' < i ∨ i' = i ∧ j' < j → ¬ p y

/-- No entry has a property. -/
def NoEntry (p : Float → Prop) : Prop := ∀ row ∈ rows, ∀ x ∈ row, ¬ p x

end Reasons

/-- A cost is at least the double next to a sentinel. -/
def Reaches (sentinel : Number) (x : Float) : Prop :=
  ∃ bound, sentinel.toDouble? = some bound ∧ bound ≤ x

/-- A cost is below the double next to a sentinel. -/
def IsBelow (sentinel : Number) (x : Float) : Prop :=
  ∃ bound, sentinel.toDouble? = some bound ∧ x < bound

/-- Some rows are a matrix of a declared size, and all costs are finite, not negative and below
    the sentinel. -/
structure Accepts (n m : Int) (rows : List (List Float)) (sentinel : Number) : Prop
    extends IsMatrix n m rows where
  entries : ∀ row ∈ rows, ∀ x ∈ row, x.isFinite = true ∧ 0.0 ≤ x ∧ IsBelow sentinel x

/-- The first reason that applies against some rows as a matrix of a declared size. -/
inductive Refuses (n m : Int) (rows : List (List Float)) (sentinel : Number) :
    MatrixFault → Prop
  | negativeSize (h : n < 0 ∨ m < 0) : Refuses n m rows sentinel (.negativeSize n m)
  /-- The widths of uneven rows are told in increasing order, each once. -/
  | ragged {widths : List Nat} (hn : 0 ≤ n) (hm : 0 ≤ m) (h : ¬ IsEven rows)
      (sorted : widths.Pairwise (· < ·)) (mem : ∀ k, k ∈ widths ↔ ∃ row ∈ rows, row.length = k) :
      Refuses n m rows sentinel (.ragged widths)
  /-- If there are no rows, their width is the declared one. -/
  | sizeMismatch {width : Nat} (hn : 0 ≤ n) (hm : 0 ≤ m)
      (heven : ∀ row ∈ rows, row.length = width) (hnone : rows = [] → (width : Int) = m)
      (h : ¬ Describes n m rows) :
      Refuses n m rows sentinel (.sizeMismatch n m [rows.length, width])
  | notFinite {i j : Nat} {x : Float} (h : IsMatrix n m rows)
      (first : IsFirstEntry rows (fun x => x.isFinite = false) i j x) :
      Refuses n m rows sentinel (.notFinite i j x)
  | negative {i j : Nat} {x : Float} (h : IsMatrix n m rows)
      (hfinite : NoEntry rows fun x => x.isFinite = false)
      (first : IsFirstEntry rows (fun x => x < 0.0) i j x) :
      Refuses n m rows sentinel (.negative i j x)
  | notBelowSentinel {i j : Nat} {x : Float} (h : IsMatrix n m rows)
      (hfinite : NoEntry rows fun x => x.isFinite = false)
      (hnegative : NoEntry rows fun x => x < 0.0)
      (first : IsFirstEntry rows (Reaches sentinel) i j x) :
      Refuses n m rows sentinel (.notBelowSentinel i j x sentinel)

variable {n m : Int} {rows : List (List Float)} {width : Nat} {sentinel : Number}

theorem reaches_eq {bound : Float} (h : sentinel.toDouble? = some bound) :
    Reaches sentinel = fun x => bound ≤ x := by
  funext x
  simp only [Reaches, h, Option.some.injEq, exists_eq_left']

theorem Describes.isEven (h : Describes n m rows) : IsEven rows := by
  rcases h with ⟨_, hwide⟩ | ⟨_, hempty⟩
  · exact ⟨m.toNat, fun row hrow => by have := hwide row hrow; omega⟩
  · exact ⟨0, fun row hrow => by rw [hempty row hrow, List.length_nil]⟩

theorem exists_width (h : IsEven rows) (hm : 0 ≤ m) :
    ∃ width, (∀ row ∈ rows, row.length = width) ∧ (rows = [] → (width : Int) = m) := by
  by_cases hnil : rows = []
  · subst hnil
    exact ⟨m.toNat, fun row hrow => absurd hrow List.not_mem_nil, fun _ => by omega⟩
  · rcases h with ⟨width, hwidth⟩
    exact ⟨width, hwidth, fun hno => absurd hno hnil⟩

theorem exists_entryAt_iff {x : Float} :
    (∃ i j, entryAt rows i j = some x) ↔ ∃ row ∈ rows, x ∈ row := by
  constructor
  · rintro ⟨i, j, hx⟩
    rcases Option.bind_eq_some_iff.mp hx with ⟨row, hrow, hcell⟩
    exact ⟨row, List.mem_of_getElem? hrow, List.mem_of_getElem? hcell⟩
  · rintro ⟨row, hrow, hx⟩
    rcases List.getElem?_of_mem hrow with ⟨i, hi⟩
    rcases List.getElem?_of_mem hx with ⟨j, hj⟩
    exact ⟨i, j, Option.bind_eq_some_iff.mpr ⟨row, hi, hj⟩⟩

/-! ### Checks of a table -/

namespace Tabulates

variable {g : Grid Float} {p : Float → Bool} {cause : Nat → Nat → Float → MatrixFault}
  {fault : Fault}

theorem mem_toList_iff (ht : Tabulates n m rows width g) {x : Float} :
    x ∈ g.toList ↔ ∃ row ∈ rows, x ∈ row := by
  rw [← exists_entryAt_iff]
  constructor
  · intro hx
    rcases List.getElem?_of_mem hx with ⟨k, hk⟩
    exact ⟨_, _, (ht.entries _ _).symm.trans (Grid.get?_div_mod hk)⟩
  · rintro ⟨i, j, hx⟩
    exact List.mem_of_getElem? (Grid.get?_eq_some_iff.mp ((ht.entries i j).trans hx)).2.2

theorem refuse_eq_ok_iff (ht : Tabulates n m rows width g) :
    Cost.refuse g p cause = .ok () ↔ NoEntry rows fun x => p x = true := by
  rw [Cost.refuse_eq_ok_iff]
  constructor
  · intro h row hrow x hx
    exact Bool.eq_false_iff.mp (h x (ht.mem_toList_iff.mpr ⟨row, hrow, hx⟩))
  · intro h x hx
    rcases ht.mem_toList_iff.mp hx with ⟨row, hrow, hx⟩
    exact Bool.eq_false_iff.mpr (h row hrow x hx)

theorem refuse_eq_error_iff (ht : Tabulates n m rows width g) :
    Cost.refuse g p cause = .error fault ↔
      ∃ i j x, IsFirstEntry rows (fun x => p x = true) i j x ∧ fault = .matrix (cause i j x) := by
  -- A table is searched in the order in which its rows were given.
  have hfound : ∀ i j x, g.findCell? p = some (i, j, x) ↔
      IsFirstEntry rows (fun x => p x = true) i j x := by
    intro i j x
    simp only [Grid.findCell?_eq_some_iff, ht.entries, ← Bool.not_eq_true]
    exact ⟨fun h => ⟨h.1, h.2.1, h.2.2⟩, fun h => ⟨h.entry, h.holds, h.first⟩⟩
  simp only [← hfound]
  unfold Cost.refuse
  cases g.findCell? p with
  | none => simp
  | some found =>
      rcases found with ⟨i, j, x⟩
      simp [eq_comm]

/-- The checks of all cells fail with the first class of costs that occurs, and then with the
    first cost of that class. -/
theorem checkCells_eq_error_iff (ht : Tabulates n m rows width g) :
    Cost.checkCells g sentinel = .error fault ↔
      (∃ i j x, IsFirstEntry rows (fun x => x.isFinite = false) i j x ∧
          fault = .matrix (.notFinite i j x)) ∨
        NoEntry rows (fun x => x.isFinite = false) ∧
          ((∃ i j x, IsFirstEntry rows (fun x => x < 0.0) i j x ∧
              fault = .matrix (.negative i j x)) ∨
            NoEntry rows (fun x => x < 0.0) ∧
              ((∃ i j x, IsFirstEntry rows (Reaches sentinel) i j x ∧
                  fault = .matrix (.notBelowSentinel i j x sentinel)) ∨
                sentinel.toDouble? = none ∧ fault = .tooLarge)) := by
  unfold Cost.checkCells
  simp only [bind_eq_error_iff, Unique.exists_iff, ht.refuse_eq_ok_iff,
    ht.refuse_eq_error_iff, Bool.not_eq_true', decide_eq_true_eq]
  refine or_congr_right (and_congr_right fun _ => or_congr_right (and_congr_right fun _ => ?_))
  -- The third pass compares with a double, which there may not be.
  cases hs : sentinel.toDouble? with
  | none =>
      have hnone : ∀ i j x, ¬ IsFirstEntry rows (Reaches sentinel) i j x := by
        rintro i j x ⟨_, ⟨bound, hbound, _⟩, _⟩
        rw [hs] at hbound
        exact absurd hbound (by simp)
      simp only [hnone, false_and, exists_false, false_or, true_and]
      exact ⟨fun h => (Except.error.inj h).symm, fun h => h ▸ rfl⟩
  | some bound =>
      simp only [ht.refuse_eq_error_iff, decide_eq_true_eq, reaches_eq hs, reduceCtorEq, false_and,
        or_false]

/-- The checks of all cells pass if no cost belongs to any class. -/
theorem checkCells_eq_ok_iff (ht : Tabulates n m rows width g) :
    Cost.checkCells g sentinel = .ok () ↔
      NoEntry rows (fun x => x.isFinite = false) ∧ NoEntry rows (fun x => x < 0.0) ∧
        sentinel.toDouble?.isSome ∧ NoEntry rows (Reaches sentinel) := by
  unfold Cost.checkCells
  simp only [bind_eq_ok_iff, Unique.exists_iff, ht.refuse_eq_ok_iff,
    Bool.not_eq_true', decide_eq_true_eq]
  refine and_congr_right fun _ => and_congr_right fun _ => ?_
  cases hs : sentinel.toDouble? with
  | none => simp [throw, throwThe, MonadExceptOf.throw]
  | some bound =>
      simp only [ht.refuse_eq_ok_iff, decide_eq_true_eq, reaches_eq hs, Option.isSome_some,
        true_and]

end Tabulates

/-! ### Checks of an input -/

section Prepare

variable {config : Config} {input : CostInput} {cause : MatrixFault} {g : Grid Float}

theorem prepare_negative (h : n < 0 ∨ m < 0) :
    prepare (some (n, m)) input config = .error (.matrix (.negativeSize n m)) := by
  rw [prepare]
  simp only [Cost.checkDeclared, if_pos h]
  rfl

theorem checkDeclared_eq_ok (hn : 0 ≤ n) (hm : 0 ≤ m) : Cost.checkDeclared n m = .ok () := by
  rw [Cost.checkDeclared, if_neg (by omega)]

theorem prepare_ragged (hn : 0 ≤ n) (hm : 0 ≤ m) (h : ¬ IsEven rows) :
    prepare (some (n, m)) (ofRows rows) config =
      .error (.matrix (.ragged (distinctWidths (rows.map rowData)))) := by
  have hgrid : (ofRows rows).toGrid (some n) (some m) =
      .error (.matrix (.ragged (distinctWidths (rows.map rowData)))) := by
    change (rowTensor (.list (rowsData rows)) m).bind _ = _
    rw [rowTensor_ragged h]
    rfl
  rw [prepare]
  simp only [checkDeclared_eq_ok hn hm, Option.map_some, hgrid]
  rfl

/-- With a table at hand, an input is as good as its table. -/
theorem prepare_of_toGrid (hn : 0 ≤ n) (hm : 0 ≤ m) (hvalid : config.validates = true)
    (hgrid : input.toGrid (some n) (some m) = .ok g) :
    prepare (some (n, m)) input config =
      (Cost.check g n m config.paddingSentinel).map fun _ => g := by
  rw [prepare]
  simp only [checkDeclared_eq_ok hn hm, Option.map_some, hgrid, hvalid, if_true,
    Option.getD_some, bind, Except.bind]
  cases Cost.check g n m config.paddingSentinel with
  | error fault => rfl
  | ok u => rfl

theorem prepare_mismatch (hn : 0 ≤ n) (hm : 0 ≤ m) (hvalid : config.validates = true)
    (hhold : Holdable n m rows) (heven : ∀ row ∈ rows, row.length = width)
    (hnone : rows = [] → (width : Int) = m) (h : ¬ Describes n m rows) :
    prepare (some (n, m)) (ofRows rows) config =
      .error (.matrix (.sizeMismatch n m [rows.length, width])) := by
  rcases exists_toGrid hn hm heven hnone hhold with ⟨g, hgrid, ht⟩
  rcases ht.seen h with ⟨hheight, hwidth⟩
  -- Not as many rows as declared, or rows of another width: the table has seen either.
  have hsize : (g.height : Int) ≠ n ∨ (g.width : Int) ≠ m := by
    rw [← not_and_or, hheight, hwidth]
    rintro ⟨hlen, rfl⟩
    exact h (Or.inl ⟨hlen, fun row hrow => congrArg Int.ofNat (heven row hrow)⟩)
  have hcheck : Cost.check g n m config.paddingSentinel =
      .error (.matrix (.sizeMismatch n m [g.height, g.width])) := by
    rw [Cost.check, checkDeclared_eq_ok hn hm]
    simp only [bind, Except.bind, if_pos hsize]
    rfl
  rw [prepare_of_toGrid hn hm hvalid hgrid, hcheck, hheight, hwidth]
  rfl

/-- A matrix of the declared size is decided by its cells, if it has any. -/
theorem exists_prepare_matrix (h : IsMatrix n m rows) (hvalid : config.validates = true)
    (hhold : Holdable n m rows) : ∃ width g, Tabulates n m rows width g ∧
      (g.height : Int) = n ∧ (g.width : Int) = m ∧
      prepare (some (n, m)) (ofRows rows) config = if g.isEmpty then .ok g else
        (Cost.checkCells g config.paddingSentinel).map fun _ => g := by
  rcases exists_width h.describes.isEven h.jobs with ⟨width, heven, hnone⟩
  rcases exists_toGrid h.workers h.jobs heven hnone hhold with ⟨g, hgrid, ht⟩
  rcases ht.declared h.describes with ⟨hheight, hwidth⟩
  refine ⟨width, g, ht, hheight, hwidth, ?_⟩
  rw [prepare_of_toGrid h.workers h.jobs hvalid hgrid, ← hheight, ← hwidth, Cost.check_eq]
  split
  · rfl
  · rfl

/-- The first reason against some rows is the one that is told. -/
theorem Refuses.prepare_eq (h : Refuses n m rows config.paddingSentinel cause)
    (hvalid : config.validates = true) (hhold : Holdable n m rows) :
    prepare (some (n, m)) (ofRows rows) config = .error (.matrix cause) := by
  -- A reason about a cell needs a cell, so the checks of cells are not passed over.
  have hcells : ∀ {i j x}, IsMatrix n m rows → entryAt rows i j = some x →
      (∀ {width g}, Tabulates n m rows width g →
        Cost.checkCells g config.paddingSentinel = .error (.matrix cause)) →
      prepare (some (n, m)) (ofRows rows) config = .error (.matrix cause) := by
    intro i j x hmatrix hentry hcheck
    rcases exists_prepare_matrix hmatrix hvalid hhold with ⟨width, g, ht, _, _, hprepare⟩
    have hmem : x ∈ g.toList := ht.mem_toList_iff.mpr (exists_entryAt_iff.mp ⟨i, j, hentry⟩)
    have hempty : ¬ g.isEmpty = true := fun hno =>
      List.ne_nil_of_mem hmem (g.toList_eq_nil_iff.mpr hno)
    rw [hprepare, if_neg hempty, hcheck ht]
    rfl
  cases h with
  | negativeSize h => exact prepare_negative h
  | ragged hn hm h sorted mem =>
      rw [prepare_ragged hn hm h, eq_distinctWidths sorted mem]
  | sizeMismatch hn hm heven hnone h =>
      exact prepare_mismatch hn hm hvalid hhold heven hnone h
  | notFinite h first =>
      exact hcells h first.entry fun ht =>
        ht.checkCells_eq_error_iff.mpr (Or.inl ⟨_, _, _, first, rfl⟩)
  | negative h hfinite first =>
      exact hcells h first.entry fun ht =>
        ht.checkCells_eq_error_iff.mpr (Or.inr ⟨hfinite, Or.inl ⟨_, _, _, first, rfl⟩⟩)
  | notBelowSentinel h hfinite hnegative first =>
      exact hcells h first.entry fun ht =>
        ht.checkCells_eq_error_iff.mpr
          (Or.inr ⟨hfinite, Or.inr ⟨hnegative, Or.inl ⟨_, _, _, first, rfl⟩⟩⟩)

/-- Rows without a defect are not refused. -/
theorem Accepts.not_refuses (h : Accepts n m rows sentinel) :
    ¬ Refuses n m rows sentinel cause := by
  have hentry : ∀ {i j x}, entryAt rows i j = some x →
      x.isFinite = true ∧ 0.0 ≤ x ∧ IsBelow sentinel x := by
    intro i j x hx
    rcases exists_entryAt_iff.mp ⟨i, j, hx⟩ with ⟨row, hrow, hx⟩
    exact h.entries row hrow x hx
  -- Each reason denies a part of acceptance, and for the costs it is an order of doubles.
  have hirrefl : ∀ {x y : Float}, x ≤ y → ¬ y < x := by
    intro x y hle hlt
    rcases Binary64.lt_iff.mp (Binary64.lt_of_le_of_lt hle hlt) with ⟨a, b, ha, hb, hab⟩
    rw [ha, Option.some.injEq] at hb
    exact absurd hab (hb ▸ lt_irrefl a)
  intro hrefuses
  cases hrefuses with
  | negativeSize hsize =>
      have := h.workers
      have := h.jobs
      omega
  | ragged _ _ huneven _ _ => exact huneven h.describes.isEven
  | sizeMismatch _ _ _ _ hother => exact hother h.describes
  | notFinite _ first =>
      have hfinite := (hentry first.entry).1
      rw [first.holds] at hfinite
      exact absurd hfinite Bool.false_ne_true
  | negative _ _ first => exact hirrefl (hentry first.entry).2.1 first.holds
  | notBelowSentinel _ _ _ first =>
      rcases (hentry first.entry).2.2 with ⟨bound, hbound, hlt⟩
      have hreaches := first.holds
      rw [reaches_eq hbound] at hreaches
      exact hirrefl hreaches hlt

/-- Without a double for the sentinel, no cost is below it. -/
theorem not_accepts_of_none (hsides : n ≠ 0 ∧ m ≠ 0) (hnone : sentinel.toDouble? = none) :
    ¬ Accepts n m rows sentinel := by
  rintro ⟨⟨hn, hm, ⟨hlen, hwide⟩ | ⟨hzero, _⟩⟩, hentries⟩
  · cases rows with
    | nil => exact hsides.1 hlen.symm
    | cons row rest =>
        have hrow := hwide row List.mem_cons_self
        cases row with
        | nil => exact hsides.2 hrow.symm
        | cons x others =>
            rcases (hentries _ List.mem_cons_self x List.mem_cons_self).2.2 with ⟨bound, hbound, _⟩
            rw [hnone] at hbound
            exact absurd hbound nofun
  · omega

/-- A check comes to a reason against the rows or to their table, unless the sentinel has no
    double to compare with. -/
theorem prepare_cases (hvalid : config.validates = true) (hhold : Holdable n m rows)
    (hnumber : ∀ bound, config.paddingSentinel.toDouble? = some bound →
      (Binary64.key? bound).isSome) :
    (∃ cause, Refuses n m rows config.paddingSentinel cause) ∨
      (Accepts n m rows config.paddingSentinel ∧ ∃ g,
        prepare (some (n, m)) (ofRows rows) config = .ok g ∧
          (g.height : Int) = n ∧ (g.width : Int) = m) ∨
      ((n ≠ 0 ∧ m ≠ 0) ∧ config.paddingSentinel.toDouble? = none ∧
        prepare (some (n, m)) (ofRows rows) config = .error .tooLarge) := by
  -- One question after the other, in the order of the reasons. The last one is left to the cells.
  by_cases hsize : n < 0 ∨ m < 0
  · exact Or.inl ⟨_, .negativeSize hsize⟩
  have hn : 0 ≤ n := by omega
  have hm : 0 ≤ m := by omega
  by_cases heven : IsEven rows
  swap
  · exact Or.inl ⟨_, .ragged hn hm heven (pairwise_distinctWidths (rows.map rowData))
      fun _ => mem_distinctWidths_rowData⟩
  by_cases hdescribes : Describes n m rows
  swap
  · rcases exists_width heven hm with ⟨width, hwidth, hnone⟩
    exact Or.inl ⟨_, .sizeMismatch hn hm hwidth hnone hdescribes⟩
  have hmatrix : IsMatrix n m rows := ⟨hn, hm, hdescribes⟩
  rcases exists_prepare_matrix hmatrix hvalid hhold with
    ⟨width, g, ht, hheight, hwidth, hprepare⟩
  by_cases hempty : g.isEmpty = true
  · -- Without entries nothing is left to ask.
    have hnil := g.toList_eq_nil_iff.mpr hempty
    refine Or.inr (Or.inl ⟨⟨hmatrix, fun row hrow x hx => ?_⟩, g, ?_, hheight, hwidth⟩)
    · have hmem := ht.mem_toList_iff.mpr ⟨row, hrow, hx⟩
      rw [hnil] at hmem
      exact absurd hmem List.not_mem_nil
    · rw [hprepare, if_pos hempty]
  · rw [if_neg hempty] at hprepare
    cases hcheck : Cost.checkCells g config.paddingSentinel with
    | ok u =>
        rcases ht.checkCells_eq_ok_iff.mp hcheck with ⟨hfinite, hnegative, hbound, hreaches⟩
        rcases Option.isSome_iff_exists.mp hbound with ⟨bound, hbound⟩
        rw [reaches_eq hbound] at hreaches
        refine Or.inr (Or.inl ⟨⟨hmatrix, fun row hrow x hx => ?_⟩, g, ?_, hheight, hwidth⟩)
        -- A cost that is a number and not below zero is at least zero.
        · have hx' : x.isFinite = true := Bool.not_eq_false _ ▸ hfinite row hrow x hx
          have hkey := Binary64.isSome_key?_of_isFinite hx'
          refine ⟨hx', ?_, bound, hbound, ?_⟩
          · exact (Binary64.not_lt_iff hkey (by decide)).mp (hnegative row hrow x hx)
          · exact (Binary64.not_le_iff (hnumber bound hbound) hkey).mp (hreaches row hrow x hx)
        · rw [hprepare, hcheck]
          rfl
    | error fault =>
        have hcells : n ≠ 0 ∧ m ≠ 0 := by
          rw [Grid.isEmpty, beq_iff_eq, Nat.mul_eq_zero] at hempty
          omega
        rcases ht.checkCells_eq_error_iff.mp hcheck with ⟨i, j, x, first, _⟩ | ⟨hfinite, h⟩
        · exact Or.inl ⟨_, .notFinite hmatrix first⟩
        rcases h with ⟨i, j, x, first, _⟩ | ⟨hnegative, h⟩
        · exact Or.inl ⟨_, .negative hmatrix hfinite first⟩
        rcases h with ⟨i, j, x, first, _⟩ | ⟨hnone, rfl⟩
        · exact Or.inl ⟨_, .notBelowSentinel hmatrix hfinite hnegative first⟩
        · refine Or.inr (Or.inr ⟨hcells, hnone, ?_⟩)
          rw [hprepare, hcheck]
          rfl

theorem Accepts.exists_prepare (h : Accepts n m rows config.paddingSentinel)
    (hvalid : config.validates = true) (hhold : Holdable n m rows)
    (hnumber : ∀ bound, config.paddingSentinel.toDouble? = some bound →
      (Binary64.key? bound).isSome) :
    ∃ g, prepare (some (n, m)) (ofRows rows) config = .ok g ∧
      (g.height : Int) = n ∧ (g.width : Int) = m := by
  rcases prepare_cases hvalid hhold hnumber with ⟨cause, hcause⟩ | ⟨_, hg⟩ | ⟨hsides, hnone, _⟩
  · exact absurd hcause h.not_refuses
  · exact hg
  · exact absurd h (not_accepts_of_none hsides hnone)

end Prepare

end CostInput

/-! ### Settings -/

namespace Config

/-- Settings that are taken are in order. -/
theorem ofSettings_ordered {padding infinity validate scale : Datum} {config : Config}
    (h : ofSettings padding infinity validate scale = .ok config) :
    Number.less (.real 0.0) config.paddingSentinel = true ∧
      config.paddingSentinel.less config.searchInfinity = true ∧
      config.costScale.atMost (.whole 0) = false := by
  simp only [ofSettings, bind_eq_ok_iff, guarded_eq_ok_iff, Bool.not_eq_true', Bool.not_eq_true,
    Bool.not_eq_false] at h
  rcases h with ⟨sentinel, _, hpositive, reach, _, hbelow, factor, _, hscale, h⟩
  rcases Except.ok.inj h with rfl
  exact ⟨hpositive, hbelow, hscale⟩

theorem ofSettings_eq {sentinel reach factor : Number} {validate : Datum}
    (hpositive : Number.less (.real 0.0) sentinel = true) (hbelow : sentinel.less reach = true)
    (hscale : factor.atMost (.whole 0) = false) :
    ofSettings (.number sentinel) (.number reach) validate (.number factor) =
      .ok ⟨sentinel, reach, validate, factor⟩ := by
  simp only [ofSettings, numeric, Datum.number?, hpositive, hbelow, hscale, bind, Except.bind]
  rfl

theorem build_ordered {entries : List (Datum × Datum)} {config : Config}
    (h : build entries = .ok config) :
    Number.less (.real 0.0) config.paddingSentinel = true ∧
      config.paddingSentinel.less config.searchInfinity = true ∧
      config.costScale.atMost (.whole 0) = false := by
  rw [build] at h
  split at h
  · exact ofSettings_ordered h
  · exact absurd h nofun

end Config

/-- The double of a number above zero is a number, too. -/
theorem Number.isSome_key?_toDouble? {x : Number} {bound : Float}
    (hpositive : Number.less (.real 0.0) x = true) (hbound : x.toDouble? = some bound) :
    (Binary64.key? bound).isSome := by
  cases x with
  | whole i =>
      change Binary64.ofInt? i = some bound at hbound
      rw [Binary64.ofInt?] at hbound
      split at hbound
      · rename_i hfinite
        exact Option.some.inj hbound ▸ Binary64.isSome_key?_of_isFinite hfinite
      · exact absurd hbound nofun
  | truth b =>
      rcases Option.some.inj hbound with rfl
      cases b with
      | false => decide
      | true => decide
  | real y =>
      rcases Option.some.inj hbound with rfl
      have hlt : 0.0 < y := by
        -- Only a number is above zero, so the comparison tells that this is one.
        change ((if 0.0 < y then some Ordering.lt else if y < 0.0 then some .gt else
          if 0.0 == y then some .eq else none) == some .lt) = true at hpositive
        by_contra hno
        rw [if_neg hno] at hpositive
        split at hpositive
        · exact absurd hpositive (by decide)
        · split at hpositive
          · exact absurd hpositive (by decide)
          · exact absurd hpositive (by decide)
      rcases Binary64.lt_iff.mp hlt with ⟨_, b, _, hb, _⟩
      rw [hb, Option.isSome_some]

/-! ### Solves -/

namespace CostInput

variable {config : Config} {input : CostInput} {g : Grid Float} {n m : Int}

theorem solve_of_prepare_error {fault : Fault}
    (h : prepare (some (n, m)) input config = .error fault) :
    solve n m input config = .error fault := by
  rw [solve, h]
  rfl

/-- If there is nothing to match, no setting is looked at. -/
theorem solve_vacant (h : prepare (some (n, m)) input config = .ok g)
    (hheight : (g.height : Int) = n) (hwidth : (g.width : Int) = m) (hzero : n = 0 ∨ m = 0) :
    solve n m input config = .ok
      { total := 0.0
        workerOf := Matching.unassigned m.toNat
        idle := List.range n.toNat
        status := .vacant
        rowPotentials := []
        colPotentials := [] } := by
  have hempty : n.toNat = 0 ∨ m.toNat = 0 := by omega
  have hside : g.height = 0 ∨ g.width = 0 := by omega
  -- No entry names a worker, so all of them are left over.
  have hidle : (Matching.unassigned m.toNat).idle g.height = List.range n.toNat := by
    rw [show n.toNat = g.height by omega]
    refine List.filter_eq_self.mpr fun w _ => ?_
    simp only [Bool.not_eq_eq_eq_not, Bool.not_true, List.contains_eq_mem, decide_eq_false_iff_not]
    intro hmem
    have := List.eq_of_mem_replicate hmem
    omega
  rw [solve, h]
  simp only [bind, Except.bind, searchPrepared, if_pos hempty, Padded.solve]
  rw [Outcome.ofMatching, Matching.pairs_unassigned, hidle, Status.ofSize, if_pos hside]
  rfl

/-- A prepared matrix has an outcome, unless a setting has no double or the search does not
    end. -/
theorem solve_of_prepare (h : prepare (some (n, m)) input config = .ok g)
    (hheight : (g.height : Int) = n) (hwidth : (g.width : Int) = m) :
    (∃ o, solve n m input config = .ok o) ∨ solve n m input config = .error .endless ∨
      (¬ (n = 0 ∨ m = 0) ∧ ¬ config.IsInRange ∧ solve n m input config = .error .tooLarge) := by
  by_cases hzero : n = 0 ∨ m = 0
  · exact Or.inl ⟨_, solve_vacant h hheight hwidth hzero⟩
  have hempty : ¬ (n.toNat = 0 ∨ m.toNat = 0) := by omega
  -- The settings are turned into doubles before the search begins, and that may fail.
  by_cases hrange : config.IsInRange
  · rcases exists_settingDouble_iff.mpr hrange.1 with ⟨padding, hpadding⟩
    rcases exists_settingDouble_iff.mpr hrange.2 with ⟨reach, hreach⟩
    rw [solve_eq_padded h hpadding hreach hempty, show n.toNat = g.height by omega,
      show m.toNat = g.width by omega]
    rcases Padded.exists_outcome_or_endless .double g padding reach with ho | hendless
    · exact Or.inl ho
    · exact Or.inr (Or.inl hendless)
  · have hfits : Padded.exceeds g n.toNat m.toNat = false := by
      rw [show n.toNat = g.height by omega, show m.toNat = g.width by omega, Padded.exceeds_own]
    refine Or.inr (Or.inr ⟨hzero, hrange, ?_⟩)
    rw [solve, h]
    simp only [bind, Except.bind, searchPrepared, if_neg hempty, Settings.ofConfig, hfits,
      Bool.false_eq_true, if_false]
    cases hpadding : settingDouble config.paddingSentinel with
    | error fault => rw [settingDouble_error hpadding]
    | ok padding =>
        cases hreach : settingDouble config.searchInfinity with
        | error fault => rw [settingDouble_error hreach]
        | ok reach =>
            exact absurd ⟨exists_settingDouble_iff.mp ⟨padding, hpadding⟩,
              exists_settingDouble_iff.mp ⟨reach, hreach⟩⟩ hrange

/-- With the cap far above the padding, everything that passes the checks has an outcome. -/
theorem exists_outcome_of_isAmple (hvalid : config.validates = true)
    (hnumber : ∀ bound, config.paddingSentinel.toDouble? = some bound →
      (Binary64.key? bound).isSome)
    (hample : config.IsAmple n.toNat m.toNat) (h : prepare (some (n, m)) input config = .ok g) :
    ∃ o, solve n m input config = .ok o := by
  rcases hample.isInRange with ⟨hpadding, hreach⟩
  rcases Option.isSome_iff_exists.mp hpadding with ⟨bound, hbound⟩
  rcases fits_of_prepare hvalid hbound (hnumber bound hbound) h with ⟨hheight, hwidth, hfits⟩
  -- That they pass the check is all that has to be known of the costs.
  have hsteady : config.IsSteady g n.toNat m.toNat := hample.isSteady fun padding hpadding =>
    Option.some.inj (hbound.symm.trans hpadding) ▸ hfits
  rcases solve_of_prepare h hheight hwidth with ho | hend | ⟨_, hno, _⟩
  · exact ho
  · exact absurd hend (hsteady.solve_ne_endless h)
  · exact absurd hample.isInRange hno

/-- A solve comes to a reason against the rows or to a result, unless a setting has no double
    or the search does not end. -/
theorem solve_cases {rows : List (List Float)} (hvalid : config.validates = true)
    (hhold : Holdable n m rows)
    (hnumber : ∀ bound, config.paddingSentinel.toDouble? = some bound →
      (Binary64.key? bound).isSome) :
    (∃ cause, Refuses n m rows config.paddingSentinel cause ∧
        solve n m (ofRows rows) config = .error (.matrix cause)) ∨
      (Accepts n m rows config.paddingSentinel ∧
        ((∃ o, solve n m (ofRows rows) config = .ok o) ∨
          solve n m (ofRows rows) config = .error .endless)) ∨
      (¬ (n = 0 ∨ m = 0) ∧ ¬ config.IsInRange ∧
        solve n m (ofRows rows) config = .error .tooLarge) := by
  rcases prepare_cases hvalid hhold hnumber with
    ⟨cause, hcause⟩ | ⟨haccept, g, hprepare, hheight, hwidth⟩ | ⟨hsides, hnone, hlarge⟩
  · exact Or.inl ⟨cause, hcause, solve_of_prepare_error (hcause.prepare_eq hvalid hhold)⟩
  · rcases solve_of_prepare hprepare hheight hwidth with ho | hend | hlarge
    · exact Or.inr (Or.inl ⟨haccept, Or.inl ho⟩)
    · exact Or.inr (Or.inl ⟨haccept, Or.inr hend⟩)
    · exact Or.inr (Or.inr hlarge)
  · refine Or.inr (Or.inr ⟨not_or.mpr hsides, fun hrange => ?_, solve_of_prepare_error hlarge⟩)
    rw [Config.IsInRange, hnone] at hrange
    exact absurd hrange.1 Bool.false_ne_true

end CostInput

open CostInput

/-- With checks on, some rows are refused for the first reason that applies, and for nothing
    else; if the settings have doubles or there is nothing to match, they are accepted if and
    only if no reason applies. Accepted rows have a result, unless the search does not end, which
    a steady one does; rows without a worker or a job always have one. With the cap far above the
    padding nothing is left open: rows have a result if and only if they are accepted. The reason
    is told, unless a declared size is too long to be written. -/
theorem solve_acceptance {entries : List (Datum × Datum)} {config : Config} {n m : Int}
    {rows : List (List Float)} (hbuild : Config.build entries = .ok config)
    (hvalid : config.validates = true) (hhold : Holdable n m rows) :
    (∀ cause, solve n m (ofRows rows) config = .error (.matrix cause) ↔
      Refuses n m rows config.paddingSentinel cause) ∧
    (n = 0 ∨ m = 0 ∨ config.IsInRange →
      ((∃ cause, Refuses n m rows config.paddingSentinel cause) ↔
        ¬ Accepts n m rows config.paddingSentinel) ∧
      ((∃ o, solve n m (ofRows rows) config = .ok o) ∨
          solve n m (ofRows rows) config = .error .endless ↔
        Accepts n m rows config.paddingSentinel)) ∧
    (n = 0 ∨ m = 0 → Accepts n m rows config.paddingSentinel →
      solve n m (ofRows rows) config = .ok
        { total := 0.0
          workerOf := Matching.unassigned m.toNat
          idle := List.range n.toNat
          status := .vacant
          rowPotentials := []
          colPotentials := [] }) ∧
    (config.IsInRange → Accepts n m rows config.paddingSentinel →
      (∀ costs, prepare (some (n, m)) (ofRows rows) config = .ok costs →
        config.IsSteady costs n.toNat m.toNat) →
      ∃ o, solve n m (ofRows rows) config = .ok o) ∧
    (config.IsAmple n.toNat m.toNat →
      ((∃ o, solve n m (ofRows rows) config = .ok o) ↔
        Accepts n m rows config.paddingSentinel)) ∧
    ((Number.whole n).isWritable = true ∧ (Number.whole m).isWritable = true →
      ∀ cause, Refuses n m rows config.paddingSentinel cause →
        (Fault.matrix cause).isTold = true) := by
  have hnumber : ∀ bound, config.paddingSentinel.toDouble? = some bound →
      (Binary64.key? bound).isSome := fun bound hbound =>
    Number.isSome_key?_toDouble? (Config.build_ordered hbuild).1 hbound
  have hcases := solve_cases hvalid hhold hnumber
  refine ⟨fun cause => ⟨fun hsolve => ?_, fun hcause => ?_⟩, fun hrange => ?_, ?_, ?_, ?_, ?_⟩
  · rcases hcases with ⟨other, hother, ho⟩ | ⟨_, ⟨o, ho⟩ | ho⟩ | ⟨_, _, ho⟩
    · have hsame := ho.symm.trans hsolve
      rw [Except.error.injEq, Fault.matrix.injEq] at hsame
      exact hsame ▸ hother
    · exact absurd (ho.symm.trans hsolve) nofun
    · exact absurd (ho.symm.trans hsolve) nofun
    · exact absurd (ho.symm.trans hsolve) nofun
  · exact solve_of_prepare_error (hcause.prepare_eq hvalid hhold)
  · -- The settings have doubles where they are needed, so two things are left.
    have htwo : (∃ cause, Refuses n m rows config.paddingSentinel cause ∧
          solve n m (ofRows rows) config = .error (.matrix cause)) ∨
        (Accepts n m rows config.paddingSentinel ∧
          ((∃ o, solve n m (ofRows rows) config = .ok o) ∨
            solve n m (ofRows rows) config = .error .endless)) := by
      rcases hcases with h | h | ⟨hzero, hno, _⟩
      · exact Or.inl h
      · exact Or.inr h
      · exact absurd (or_assoc.mpr hrange) (not_or.mpr ⟨hzero, hno⟩)
    rcases htwo with ⟨cause, hcause, ho⟩ | ⟨haccept, ho⟩
    · have hno : ¬ Accepts n m rows config.paddingSentinel := fun h => h.not_refuses hcause
      refine ⟨iff_of_true ⟨cause, hcause⟩ hno, iff_of_false ?_ hno⟩
      rw [ho]
      exact nofun
    · exact ⟨iff_of_false (fun ⟨_, hcause⟩ => haccept.not_refuses hcause) (not_not.mpr haccept),
        iff_of_true ho haccept⟩
  · intro hzero haccept
    rcases haccept.exists_prepare hvalid hhold hnumber with ⟨g, hprepare, hheight, hwidth⟩
    exact solve_vacant hprepare hheight hwidth hzero
  · -- A search that is known to end leaves only the result.
    intro hrange haccept hsteady
    rcases haccept.exists_prepare hvalid hhold hnumber with ⟨g, hprepare, hheight, hwidth⟩
    rcases solve_of_prepare hprepare hheight hwidth with ho | hend | ⟨_, hno, _⟩
    · exact ho
    · exact absurd hend ((hsteady g hprepare).solve_ne_endless hprepare)
    · exact absurd hrange hno
  · refine fun hample => ⟨fun ⟨o, ho⟩ => ?_, fun haccept => ?_⟩
    · rcases hcases with ⟨_, _, hfault⟩ | ⟨haccept, _⟩ | ⟨_, _, hfault⟩
      · exact absurd (ho.symm.trans hfault) nofun
      · exact haccept
      · exact absurd (ho.symm.trans hfault) nofun
    · rcases haccept.exists_prepare hvalid hhold hnumber with ⟨g, hprepare, _⟩
      exact exists_outcome_of_isAmple hvalid hnumber hample hprepare
  · rintro ⟨hn, hm⟩ cause hcause
    cases hcause with
    | negativeSize _ => simp [Fault.isTold, MatrixFault.sizes, Datum.isWritable, hn, hm]
    | sizeMismatch _ _ _ _ _ => simp [Fault.isTold, MatrixFault.sizes, Datum.isWritable, hn, hm]
    | ragged _ _ _ _ _ => rfl
    | notFinite _ _ => rfl
    | negative _ _ _ => rfl
    | notBelowSentinel _ _ _ _ => rfl

/-- A matrix with a defect of every class that a cost can have. -/
def defectiveRows : List (List Float) := [[1.0, -2.0], [Decimal.infinity, 5.0e9]]

/-- A matrix of fractional costs without a defect. -/
def pricedRows : List (List Float) := [[0.1, 999999999.5, 0.3], [12.75, 0.0, 7.0e-9]]

theorem solve_acceptance_defectiveRows_emptyRows :
    Config.build [] = .ok Config.default ∧ Config.default.validates = true ∧
    (Holdable 2 2 defectiveRows ∧
      solve 2 2 (ofRows defectiveRows) Config.default =
        .error (.matrix (.notFinite 1 0 Decimal.infinity))) ∧
    (Holdable 0 3 [[], []] ∧
      solve 0 3 (ofRows [[], []]) Config.default =
        .ok ⟨0.0, [-1, -1, -1], [], .vacant, [], []⟩) ∧
    Holdable 2 3 pricedRows ∧ Config.default.IsAmple 2 3 ∧
      Accepts 2 3 pricedRows Config.default.paddingSentinel ∧
      ∃ o, solve 2 3 (ofRows pricedRows) Config.default = .ok o := by
  have hbuild : Config.build [] = .ok Config.default := rfl
  have hdefective : Holdable 2 2 defectiveRows := ⟨by decide, nofun, by decide⟩
  have hempty : Holdable 0 3 [[], []] := ⟨by decide, nofun, fun _ _ => by decide⟩
  have hpriced : Holdable 2 3 pricedRows := ⟨by decide, nofun, nofun⟩
  have haccepts : Accepts 2 3 pricedRows Config.default.paddingSentinel := by
    refine ⟨⟨by decide, by decide, Or.inl (by decide)⟩, fun row hrow x hx => ?_⟩
    have hbelow : ∀ row ∈ pricedRows, ∀ x ∈ row, x.isFinite = true ∧ 0.0 ≤ x ∧ x < 1.0e9 := by
      decide +kernel
    rcases hbelow row hrow x hx with ⟨hfinite, hzero, hlt⟩
    exact ⟨hfinite, hzero, 1.0e9, rfl, hlt⟩
  have hample : Config.default.IsAmple 2 3 := Config.isAmple_default (by decide)
  refine ⟨hbuild, rfl, ⟨hdefective, ?_⟩, ⟨hempty, ?_⟩, hpriced, hample, haccepts, ?_⟩
  · -- The negative cost comes first in row order, and its class comes later.
    have hmatrix : IsMatrix 2 2 defectiveRows := ⟨by decide, by decide, Or.inl (by decide)⟩
    have hfirst : IsFirstEntry defectiveRows (fun x => x.isFinite = false) 1 0
        Decimal.infinity := by
      refine ⟨rfl, by decide, fun i j x hx hlt => ?_⟩
      have hi : i = 0 := by omega
      subst hi
      match j with
      | 0 => exact Option.some.inj hx ▸ by decide
      | 1 => exact Option.some.inj hx ▸ by decide
      | j + 2 => exact absurd hx nofun
    exact ((solve_acceptance hbuild rfl hdefective).1 _).mpr (.notFinite hmatrix hfirst)
  · have haccepts : Accepts 0 3 [[], []] Config.default.paddingSentinel :=
      ⟨⟨by decide, by decide, Or.inr (by decide)⟩, by simp⟩
    exact (solve_acceptance hbuild rfl hempty).2.2.1 (Or.inl rfl) haccepts
  · refine (solve_acceptance hbuild rfl hpriced).2.2.2.1 hample.isInRange haccepts ?_
    intro costs hprepare
    refine hample.isSteady fun padding hpadding => ?_
    exact Option.some.inj hpadding ▸ (fits_of_prepare rfl rfl (by decide) hprepare).2.2

/-! ### Exceptions -/

namespace CostInput

section Single

variable {x : Float} {p : Float → Prop}

theorem isMatrix_single (x : Float) : IsMatrix 1 1 [[x]] :=
  ⟨by decide, by decide, Or.inl ⟨rfl, fun row hrow => by rw [List.mem_singleton.mp hrow]; rfl⟩⟩

theorem holdable_single (x : Float) : Holdable 1 1 [[x]] where
  ownSize := fun row hrow => by rw [List.mem_singleton.mp hrow]; rfl
  noRows := nofun
  noEntries := nofun

theorem noEntry_single : NoEntry [[x]] p ↔ ¬ p x := by
  simp [NoEntry]

theorem isFirstEntry_single (h : p x) : IsFirstEntry [[x]] p 0 0 x where
  entry := rfl
  holds := h
  first := fun i j y _ hlt => by omega

end Single

end CostInput

/-- A whole sentinel half way between two doubles. It is compared as the lower one. -/
def halfwayConfig : Config :=
  { Config.default with
    paddingSentinel := .whole 9007199254740993
    searchInfinity := .whole 100000000000000000 }

/-- A whole sentinel beyond all doubles. -/
def giantConfig : Config :=
  { Config.default with
    paddingSentinel := .whole (10 ^ 200 * 10 ^ 200)
    searchInfinity := .real Decimal.infinity }

/-- The size of a side that is too long to be written. -/
def overlongSize : Int := -((10 ^ 4300 : Nat) : Int)

/-- Without these exceptions the rows alone do not decide. A cost below a whole sentinel is
    refused if it is the double next to it, and compared with nothing if there is no such
    double; a size without entries is refused if no array can have it; and a reason is not
    told if a size is too long. -/
theorem solve_not_by_rows_alone :
    (Config.build [(.text "padding_sentinel", .number (.whole 9007199254740993)),
        (.text "search_infinity", .number (.whole 100000000000000000))] = .ok halfwayConfig ∧
      halfwayConfig.validates = true ∧
      Number.less (.real 9007199254740992.0) halfwayConfig.paddingSentinel = true ∧
      solve 1 1 (ofRows [[9007199254740992.0]]) halfwayConfig =
        .error (.matrix (.notBelowSentinel 0 0 9007199254740992.0 (.whole 9007199254740993)))) ∧
    (Config.build [(.text "padding_sentinel", .number (.whole (10 ^ 200 * 10 ^ 200))),
        (.text "search_infinity", .number (.real Decimal.infinity))] = .ok giantConfig ∧
      giantConfig.validates = true ∧
      Number.less (.real 1.0) giantConfig.paddingSentinel = true ∧
      solve 1 1 (ofRows [[1.0]]) giantConfig = .error .tooLarge) ∧
    solve 0 1152921504606846976 (ofRows []) Config.default = .error .badValue ∧
    (solve overlongSize 1 (ofRows []) Config.default =
        .error (.matrix (.negativeSize overlongSize 1)) ∧
      (Fault.matrix (.negativeSize overlongSize 1)).isTold = false) := by
  refine ⟨⟨?_, rfl, by decide +kernel, ?_⟩, ⟨?_, rfl, by decide +kernel, ?_⟩, ?_, ?_, ?_⟩
  · exact Config.ofSettings_eq (by decide +kernel) (by decide +kernel) (by decide +kernel)
  · have hfinite : NoEntry [[9007199254740992.0]] fun x => x.isFinite = false :=
      noEntry_single.mpr (by decide)
    have hnegative : NoEntry [[9007199254740992.0]] fun x => x < 0.0 :=
      noEntry_single.mpr (by decide)
    have hreaches : Reaches halfwayConfig.paddingSentinel 9007199254740992.0 :=
      ⟨Float.ofInt 9007199254740993, rfl, by decide +kernel⟩
    exact solve_of_prepare_error ((Refuses.notBelowSentinel (isMatrix_single _) hfinite hnegative
      (isFirstEntry_single hreaches)).prepare_eq rfl (holdable_single _))
  · exact Config.ofSettings_eq (by decide +kernel) (by decide +kernel) (by decide +kernel)
  -- The cost is compared with nothing, and it is the comparison that fails.
  · have hvalid : giantConfig.validates = true := rfl
    rcases exists_prepare_matrix (isMatrix_single 1.0) hvalid (holdable_single 1.0) with
      ⟨width, g, ht, hheight, hwidth, hprepare⟩
    have hempty : ¬ g.isEmpty = true := by
      rw [Grid.isEmpty, beq_iff_eq, Nat.mul_eq_zero]
      omega
    have hnone : giantConfig.paddingSentinel.toDouble?.isNone = true := by decide +kernel
    have hcheck : Cost.checkCells g giantConfig.paddingSentinel = .error .tooLarge :=
      ht.checkCells_eq_error_iff.mpr (Or.inr ⟨noEntry_single.mpr (by decide),
        Or.inr ⟨noEntry_single.mpr (by decide), Or.inr ⟨Option.isNone_iff_eq_none.mp hnone, rfl⟩⟩⟩)
    rw [if_neg hempty, hcheck] at hprepare
    exact solve_of_prepare_error hprepare
  -- No array can have so many columns, even with no row to fill.
  · refine solve_of_prepare_error ?_
    have htensor : rowTensor (.list (rowsData [])) 1152921504606846976 = .error .badValue := by
      have hwidths : distinctWidths [] = [] := by simp [distinctWidths]
      rw [rowTensor, splitRows_rowsData]
      simp only [bind, Except.bind, List.map_nil, hwidths]
      rfl
    have hgrid : (ofRows []).toGrid (some 0) (some 1152921504606846976) = .error .badValue := by
      change (rowTensor _ _).bind _ = _
      rw [Option.getD_some, htensor]
      rfl
    rw [prepare]
    simp only [checkDeclared_eq_ok (n := 0) (m := 1152921504606846976) (by decide) (by decide),
      Option.map_some, hgrid]
    rfl
  · exact solve_of_prepare_error (prepare_negative (Or.inl (by decide +kernel)))
  · decide +kernel

end Roster
