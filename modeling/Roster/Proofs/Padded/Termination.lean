import Roster.Proofs.Padded.Ample
import Roster.Proofs.Padded.Saturation
import Roster.Proofs.Padded.Whole
import Roster.Proofs.Search.Freshness

/-!
# When a Padded Search Ends

Each row search of a padded square ends by itself. The way back from where it ends does not have
to: its links may close a circle, and then the search as a whole has no end.

What it takes for that is known. A way back goes wrong only by a link that an earlier row has
left, so a run whose rows improve every column that they reach comes to its end, with no more
links than columns in any way back. This is said of doubles, whatever the entries are and
whether or not they were checked. A run is always like that if the costs and the padding are whole
and not too large, and also if the cap lies far above them, whole or not. At the default settings
it does, so there all accepted costs have a run like that, up to a side of thirty thousand.

Otherwise nothing makes it be so, not even that an input passes every check. With costs of the
size of the cap, a slack that no cost ever improved can come out of its shifts equal to one that
a cost did improve, because both are rounded to the same double. The tie goes to the lower
column, and `clashingCosts` are costs at which it should not have. They are whole, but doubles
have no room for their sums.

## Main definitions

* `Padded.LinksAfresh`: A run that follows no link of an earlier row.
* `Padded.IsSteady`: What makes a run be so.
* `Config.IsInRange`, `Config.IsSteady`, `Config.IsAmple`: What a configuration has to do with it.

## Theorems

* `Outcome.ofMatching_error`: Only a way back can keep a solve from ending.
* `Padded.LinksAfresh.exists_stage`: Every way back of such a run ends.
* `Padded.WholeSquare.linksAfresh`, `Padded.AmpleReach.linksAfresh`: Runs of whole costs and
  runs with a cap far above the costs are such runs.
* `Config.IsAmple.isSteady`, `Config.isAmple_default`: So it is for all accepted costs if the cap
  lies far above the padding, as the default one does.
* `solve_ends`: A solve ends if its rows link afresh, at whole costs and far below the cap.
* `solve_endless_clashingCosts`: A solve of checked costs that does not.
-/

namespace Roster

open Search

namespace Outcome

variable {α : Type} {A : Arithmetic α} {costs : Grid α} {fault : Fault}

theorem addCosts_error (pairs : List (Nat × Nat)) (sum : α)
    (h : addCosts A costs pairs sum = .error fault) : fault = .outOfBounds := by
  induction pairs generalizing sum with
  | nil => exact absurd h (by simp only [addCosts, reduceCtorEq, not_false_eq_true])
  | cons pair rest ih =>
      rw [addCosts] at h
      cases hcell : costs.get? pair.1 pair.2 with
      | none =>
          rw [hcell] at h
          exact (Except.error.inj h).symm
      | some cost =>
          rw [hcell] at h
          exact ih _ h

/-- An outcome may lack a cell, and fails in no other way. -/
theorem ofMatching_error {matching : Matching} {rowPotentials colPotentials : List α}
    (h : ofMatching A costs matching rowPotentials colPotentials = .error fault) :
    fault = .outOfBounds := by
  rw [ofMatching] at h
  cases hsum : addCosts A costs matching.pairs A.zero with
  | error cause =>
      rw [hsum] at h
      rcases Except.error.inj h with rfl
      exact addCosts_error _ _ hsum
  | ok total =>
      rw [hsum] at h
      exact absurd h (by simp only [Except.map, reduceCtorEq, not_false_eq_true])

theorem ofMatching_ne_endless (matching : Matching) (rowPotentials colPotentials : List α) :
    ofMatching A costs matching rowPotentials colPotentials ≠ .error .endless := by
  intro h
  exact absurd (ofMatching_error h) (by simp only [reduceCtorEq, not_false_eq_true])

end Outcome

namespace Padded

variable {α : Type} {A : Arithmetic α} {costs : Grid α} {n m : Nat} {padding reach : α}

/-- Every row of a padded search reaches columns only that it has improved itself. -/
def LinksAfresh (A : Arithmetic α) (costs : Grid α) (n m : Nat) (padding reach : α) : Prop :=
  ∀ k (hk : k < max n m) before,
    inserted A (cell costs padding) reach (State.start A (max n m)) ((rows (max n m)).take k) =
      some before →
    Search.LinksAfresh A (cell costs padding) reach before (Fin.succ ⟨k, hk⟩)

theorem LinksAfresh.exists_stage (h : LinksAfresh A costs n m padding reach) {k : Nat}
    (hk : k < max n m) : ∃ stage columns,
      (stages A (max n m) (cell costs padding) reach)[k]? = some stage ∧ stage.row.val = k + 1 ∧
        trail stage.probe.cameFrom (max n m) stage.probe.column = some columns ∧
        columns.length ≤ max n m := by
  rcases exists_inserted_of_linksAfresh h k (Nat.le_of_lt hk) with ⟨before, hbefore, hs⟩
  -- All rows before have come in, so there is a state that this one starts from.
  rcases (h k hk before hbefore).exists_trail hs (succ_not_mem_take hk) (Fin.succ_ne_zero _)
    with ⟨columns, hc, _⟩
  exact ⟨_, columns, stages_get hk hbefore, rfl, hc, length_trail_le hc⟩

/-- Whole costs need no condition on the run. -/
theorem WholeSquare.linksAfresh {costs : Grid Float} {padding reach : Float} {top : ℤ}
    (h : WholeSquare costs (max n m) padding reach top) :
    LinksAfresh .double costs n m padding reach :=
  fun _ hk _ hbefore => h.wholeCosts.linksAfresh hk hbefore

/-- Nor do costs far below the cap. -/
theorem AmpleReach.linksAfresh {costs : Grid Float} {padding reach : Float} {top : ℤ}
    (h : AmpleReach costs (max n m) padding reach top) :
    LinksAfresh .double costs n m padding reach :=
  fun _ hk _ hbefore => h.roundedCosts.linksAfresh hk hbefore

/-- A padded search in doubles of which it is known that its rows link afresh: of the run itself,
    because costs and padding are whole and not too large, or because the cap lies far above
    them. -/
def IsSteady (costs : Grid Float) (n m : Nat) (padding reach : Float) : Prop :=
  LinksAfresh .double costs n m padding reach ∨
    (∃ top, WholeSquare costs (max n m) padding reach top) ∨
    ∃ top, AmpleReach costs (max n m) padding reach top

theorem IsSteady.linksAfresh {costs : Grid Float} {padding reach : Float}
    (h : IsSteady costs n m padding reach) : LinksAfresh .double costs n m padding reach := by
  rcases h with hlinks | ⟨top, hwhole⟩ | ⟨top, hample⟩
  · exact hlinks
  · exact hwhole.linksAfresh
  · exact hample.linksAfresh

theorem LinksAfresh.solve_ne_endless (h : LinksAfresh A costs n m padding reach) :
    solve A costs n m padding reach ≠ .error .endless := by
  rw [solve]
  by_cases hempty : n = 0 ∨ m = 0
  · rw [if_pos hempty]
    exact Outcome.ofMatching_ne_endless _ _ _
  · rw [if_neg hempty]
    by_cases hfit : exceeds costs n m = true
    · simp only [if_pos hfit]
      intro heq
      exact absurd (Except.error.inj heq) (by simp only [reduceCtorEq, not_false_eq_true])
    · -- All rows come in, so there is a final state to read the outcome from.
      rcases exists_inserted_of_linksAfresh h (max n m) (Nat.le_refl _) with ⟨s, hs, _⟩
      rw [take_rows, ← final_eq] at hs
      simp only [if_neg hfit, hs]
      exact Outcome.ofMatching_ne_endless _ _ _

end Padded

/-! ### Settings -/

theorem settingDouble_eq_ok_iff {n : Number} {x : Float} :
    settingDouble n = .ok x ↔ n.toDouble? = some x := by
  rw [settingDouble]
  cases n.toDouble? with
  | none => simp
  | some y => simp

theorem exists_settingDouble_iff {n : Number} :
    (∃ x, settingDouble n = .ok x) ↔ n.toDouble?.isSome := by
  simp only [settingDouble_eq_ok_iff, Option.isSome_iff_exists]

/-- A setting may be out of range, and fails in no other way. -/
theorem settingDouble_error {x : Number} {fault : Fault} (h : settingDouble x = .error fault) :
    fault = .tooLarge := by
  rw [settingDouble] at h
  cases hx : x.toDouble? with
  | none =>
      rw [hx] at h
      exact (Except.error.inj h).symm
  | some y =>
      rw [hx] at h
      exact absurd h (by simp only [reduceCtorEq, not_false_eq_true])

namespace Config

/-- The settings that a search computes with have doubles. -/
def IsInRange (config : Config) : Prop :=
  config.paddingSentinel.toDouble?.isSome ∧ config.searchInfinity.toDouble?.isSome

/-- The padded search for `n` workers and `m` jobs is steady, if the settings let it begin. -/
def IsSteady (config : Config) (costs : Grid Float) (n m : Nat) : Prop :=
  ∀ padding reach, settingDouble config.paddingSentinel = .ok padding →
    settingDouble config.searchInfinity = .ok reach → Padded.IsSteady costs n m padding reach

/-- The cap lies far above the padding, as far as a problem of some size needs it. -/
def IsAmple (config : Config) (n m : Nat) : Prop :=
  ∃ padding reach top, settingDouble config.paddingSentinel = .ok padding ∧
    settingDouble config.searchInfinity = .ok reach ∧
    Padded.AmpleSettings (max n m) padding reach top

theorem IsAmple.isInRange {config : Config} {n m : Nat} (h : config.IsAmple n m) :
    config.IsInRange := by
  rcases h with ⟨padding, reach, _, hpadding, hreach, _⟩
  exact ⟨exists_settingDouble_iff.mp ⟨padding, hpadding⟩,
    exists_settingDouble_iff.mp ⟨reach, hreach⟩⟩

/-- Then it is enough that the costs pass the check. -/
theorem IsAmple.isSteady {config : Config} {costs : Grid Float} {n m : Nat}
    (h : config.IsAmple n m)
    (hfits : ∀ padding, config.paddingSentinel.toDouble? = some padding → costs.Fits padding) :
    config.IsSteady costs n m := by
  rcases h with ⟨padding, reach, top, hpadding, hreach, hample⟩
  intro padding' reach' hpadding' hreach'
  rcases Except.ok.inj (hpadding.symm.trans hpadding') with rfl
  rcases Except.ok.inj (hreach.symm.trans hreach') with rfl
  exact Or.inr (Or.inr ⟨top, hample.of_fits (hfits _ (settingDouble_eq_ok_iff.mp hpadding))⟩)

/-- The default cap is a milliard times the default padding. -/
theorem isAmple_default {n m : Nat} (hside : max n m < 2 ^ 15) : Config.default.IsAmple n m := by
  -- Twenty times the padding for each of so many slots is still below the cap.
  have hslots : ((max n m : ℕ) : ℤ) + 1 ≤ 2 ^ 15 := by omega
  refine ⟨1.0e9, 1.0e18, 10 ^ 9, rfl, rfl, ⟨by decide +kernel, by decide +kernel⟩, hside, ?_, ?_⟩
  · calc 20 * (((max n m : ℕ) : ℤ) + 1) * 10 ^ 9 ≤ 2 ^ 64 := by omega
      _ ≤ 2 ^ 1023 := pow_le_pow_right₀ one_le_two (by decide)
  · have hvalue : Binary64.value 1.0e18 = 10 ^ 18 := by decide +kernel
    have hcap : Binary64.extended? 1.0e18 = some (.ofRat (10 ^ 18)) :=
      hvalue ▸ Binary64.extended?_of_isFinite rfl
    refine Number.less_iff.mpr ⟨_, _, rfl, hcap, Extended.strictMono_ofRat ?_⟩
    have hlt : 20 * (((max n m : ℕ) : ℤ) + 1) * 10 ^ 9 < 10 ^ 18 := by omega
    exact_mod_cast hlt

end Config

/-! ### Solves -/

/-- With both settings in range, a solve of a prepared table with something to match is a padded
    search. -/
theorem solve_eq_padded {n m : Int} {input : CostInput} {config : Config} {costs : Grid Float}
    {padding reach : Float} (hprepare : prepare (some (n, m)) input config = .ok costs)
    (hpadding : settingDouble config.paddingSentinel = .ok padding)
    (hreach : settingDouble config.searchInfinity = .ok reach)
    (hempty : ¬ (n.toNat = 0 ∨ m.toNat = 0)) :
    solve n m input config = Padded.solve .double costs n.toNat m.toNat padding reach := by
  rw [solve, hprepare]
  simp only [bind, Except.bind, searchPrepared, Settings.ofConfig, hpadding, hreach, if_neg hempty]
  by_cases hexceeds : Padded.exceeds costs n.toNat m.toNat = true
  · rw [if_pos hexceeds, Padded.solve_of_exceeds hempty hexceeds,
      Padded.solve_of_exceeds hempty hexceeds]
  · rw [if_neg hexceeds]

/-- What keeps a solve of a prepared table from ending is its padded search. -/
theorem exists_padded_of_endless {n m : Int} {input : CostInput} {config : Config}
    {costs : Grid Float} (hprepare : prepare (some (n, m)) input config = .ok costs)
    (h : solve n m input config = .error .endless) :
    ∃ padding reach, settingDouble config.paddingSentinel = .ok padding ∧
      settingDouble config.searchInfinity = .ok reach ∧
      Padded.solve .double costs n.toNat m.toNat padding reach = .error .endless := by
  rw [solve, hprepare] at h
  simp only [bind, Except.bind, searchPrepared, Settings.ofConfig] at h
  -- Step by step everything but the search is ruled out, as it fails in other ways.
  by_cases hempty : n.toNat = 0 ∨ m.toNat = 0
  · rw [if_pos hempty, Padded.solve, if_pos hempty] at h
    exact absurd h (Outcome.ofMatching_ne_endless _ _ _)
  · rw [if_neg hempty] at h
    cases hpadding : settingDouble config.paddingSentinel with
    | error fault =>
        rw [hpadding, settingDouble_error hpadding] at h
        exact absurd (Except.error.inj h) (by simp only [reduceCtorEq, not_false_eq_true])
    | ok padding =>
        have hfits : ¬ Padded.exceeds costs n.toNat m.toNat = true := by
          intro hexceeds
          simp only [hpadding, if_pos hexceeds, Padded.solve_of_exceeds hempty hexceeds] at h
          exact absurd (Except.error.inj h) (by simp only [reduceCtorEq, not_false_eq_true])
        simp only [hpadding, if_neg hfits] at h
        cases hreach : settingDouble config.searchInfinity with
        | error fault =>
            rw [hreach, settingDouble_error hreach] at h
            exact absurd (Except.error.inj h) (by simp only [reduceCtorEq, not_false_eq_true])
        | ok reach =>
            rw [hreach] at h
            exact ⟨padding, reach, rfl, rfl, h⟩

/-- A steady search does not keep a solve from ending. -/
theorem Config.IsSteady.solve_ne_endless {n m : Int} {input : CostInput} {config : Config}
    {costs : Grid Float} (h : config.IsSteady costs n.toNat m.toNat)
    (hprepare : prepare (some (n, m)) input config = .ok costs) :
    solve n m input config ≠ .error .endless := by
  intro hendless
  rcases exists_padded_of_endless hprepare hendless with ⟨padding, reach, hpadding, hreach, hsolve⟩
  exact (h padding reach hpadding hreach).linksAfresh.solve_ne_endless hsolve

/-- A solve in doubles ends if its rows link afresh, and also if costs and padding are whole and
    not too large, or lie far below the cap. Then every way back passes at most as many columns
    as the square has. The declared size, the entries and the configuration may be anything else
    that lets the input be prepared. -/
theorem solve_ends {n m : Int} {input : CostInput} {config : Config} {costs : Grid Float}
    (hprepare : prepare (some (n, m)) input config = .ok costs)
    (h : config.IsSteady costs n.toNat m.toNat) :
    (∀ padding reach, settingDouble config.paddingSentinel = .ok padding →
      settingDouble config.searchInfinity = .ok reach →
      ∀ k, k < max n.toNat m.toNat → ∃ stage columns,
        (stages .double (max n.toNat m.toNat) (Padded.cell costs padding) reach)[k]? = some stage ∧
          stage.row.val = k + 1 ∧
          trail stage.probe.cameFrom (max n.toNat m.toNat) stage.probe.column = some columns ∧
          columns.length ≤ max n.toNat m.toNat) ∧
    solve n m input config ≠ .error .endless :=
  ⟨fun padding reach hpadding hreach _ hk =>
    (h padding reach hpadding hreach).linksAfresh.exists_stage hk, h.solve_ne_endless hprepare⟩

/-- Costs of three jobs, some of them nearly as large as the padding. -/
def clashingCosts : Grid Float where
  height := 5
  width := 3
  cells := #v[9007199254740996.0, 0.0, 9007199254740992.0,
    9007199254740996.0, 0.0, 6.0,
    0.0, 0.0, 9007199254740992.0,
    9007199254740994.0, 0.0, 5.0,
    0.0, 0.0, 9007199254740992.0]

/-- A padding sentinel just above these costs, and a cap just above that. -/
def clashingConfig : Config :=
  { Config.default with
    paddingSentinel := .real 9007199254740998.0
    searchInfinity := .real 9007199254741000.0 }

/-- The configuration is accepted and the costs pass every check, and still the solve does not
    end: the way back of the last row is longer than any bound. -/
theorem solve_endless_clashingCosts :
    Config.build [(.text "padding_sentinel", .number (.real 9007199254740998.0)),
      (.text "search_infinity", .number (.real 9007199254741000.0))] = .ok clashingConfig ∧
    prepare (some (5, 3)) (CostMatrix.gridInput clashingCosts) clashingConfig =
      .ok clashingCosts ∧
    solve 5 3 (CostMatrix.gridInput clashingCosts) clashingConfig = .error .endless ∧
    ∃ stage, (stages .double 5 (Padded.cell clashingCosts 9007199254740998.0)
        9007199254741000.0)[4]? = some stage ∧
      ∀ fuel, trail stage.probe.cameFrom fuel stage.probe.column = none := by
  have hprepare : prepare (some (5, 3)) (CostMatrix.gridInput clashingCosts) clashingConfig =
      .ok clashingCosts := rfl
  -- The first four rows come in. The way back of the last one is not over after five columns.
  have hfinal : final .double (max (Int.toNat 5) (Int.toNat 3))
      (Padded.cell clashingCosts 9007199254740998.0) 9007199254741000.0 = none := by
    decide +kernel
  have hlast : ((stages .double 5 (Padded.cell clashingCosts 9007199254740998.0)
      9007199254741000.0)[4]?.any fun stage =>
        trail stage.probe.cameFrom 5 stage.probe.column == none) = true := by decide +kernel
  have hsolve := solve_eq_padded hprepare rfl rfl (by decide)
  refine ⟨rfl, hprepare, ?_, ?_⟩
  · exact hsolve.trans (Padded.solve_eq_endless (by decide) (by decide) hfinal)
  · cases hstage : (stages .double 5 (Padded.cell clashingCosts 9007199254740998.0)
        9007199254741000.0)[4]? with
    | none =>
        rw [hstage] at hlast
        exact absurd hlast Bool.false_ne_true
    | some stage =>
        rw [hstage] at hlast
        exact ⟨stage, rfl, trail_eq_none (eq_of_beq hlast)⟩

/-- Costs of two jobs of any sign and size. -/
def steepCosts : Grid Float where
  height := 3
  width := 2
  cells := #v[0.1, -1.5, 1.0e17, 0.3, -2.0e17, 0.7]

/-- Whole costs of three jobs, up to just below the padding. -/
def countedCosts : Grid Float where
  height := 2
  width := 3
  cells := #v[7.0, 999999999.0, 0.0, 12.0, 7.0, 999999998.0]

/-- Fractional costs of three jobs, up to just below the padding. -/
def pricedCosts : Grid Float where
  height := 2
  width := 3
  cells := #v[0.1, 999999999.5, 0.3, 12.75, 0.0, 7.0e-9]

theorem solve_ends_steepCosts_countedCosts :
    (prepare (some (3, 2)) (CostMatrix.gridInput steepCosts) unchecked = .ok steepCosts ∧
      (∀ padding reach, settingDouble unchecked.paddingSentinel = .ok padding →
        settingDouble unchecked.searchInfinity = .ok reach →
        Padded.LinksAfresh .double steepCosts 3 2 padding reach) ∧
      solve 3 2 (CostMatrix.gridInput steepCosts) unchecked ≠ .error .endless) ∧
    prepare (some (2, 3)) (CostMatrix.gridInput countedCosts) Config.default = .ok countedCosts ∧
      (∀ padding reach, settingDouble Config.default.paddingSentinel = .ok padding →
        settingDouble Config.default.searchInfinity = .ok reach →
        Padded.WholeSquare countedCosts 3 padding reach 1000000000) ∧
      solve 2 3 (CostMatrix.gridInput countedCosts) Config.default ≠ .error .endless ∧
    prepare (some (2, 3)) (CostMatrix.gridInput pricedCosts) Config.default = .ok pricedCosts ∧
      (∀ top, ¬ Padded.WholeSquare pricedCosts 3 1.0e9 1.0e18 top) ∧
      solve 2 3 (CostMatrix.gridInput pricedCosts) Config.default ≠ .error .endless := by
  have hsteep : prepare (some (3, 2)) (CostMatrix.gridInput steepCosts) unchecked =
      .ok steepCosts := rfl
  have hcounted : prepare (some (2, 3)) (CostMatrix.gridInput countedCosts) Config.default =
      .ok countedCosts := rfl
  have hpriced : prepare (some (2, 3)) (CostMatrix.gridInput pricedCosts) Config.default =
      .ok pricedCosts := rfl
  have hfits : pricedCosts.Fits 1.0e9 := by
    unfold Grid.Fits
    decide +kernel
  have hpart : ∀ top, ¬ Padded.WholeSquare pricedCosts 3 1.0e9 1.0e18 top := by
    intro top h
    have hden : ((Binary64.toRat? 0.1).any fun q => q.den == 1) = false := by decide +kernel
    rcases Binary64.isWholeUpTo_iff.mp
      (h.cells 0.1 (List.mem_cons_of_mem _ List.mem_cons_self)) with ⟨z, hz, _⟩
    rw [hz] at hden
    exact absurd hden (by simp)
  -- The states before all rows are computed, and each row is asked whether it sees all columns.
  have hsees : ∀ k : Fin 3, (inserted .double (Padded.cell steepCosts 1.0e9) 1.0e18
      (State.start .double 3) ((rows 3).take k.val)).all (fun before =>
        decide (SeesAll .double (Padded.cell steepCosts 1.0e9) 1.0e18 before k.succ)) = true := by
    decide +kernel
  have hafresh : ∀ padding reach, settingDouble unchecked.paddingSentinel = .ok padding →
      settingDouble unchecked.searchInfinity = .ok reach →
      Padded.LinksAfresh .double steepCosts 3 2 padding reach := by
    intro padding reach hpadding hreach k hk before hbefore
    rcases Except.ok.inj hpadding with rfl
    rcases Except.ok.inj hreach with rfl
    have hrow := hsees ⟨k, hk⟩
    rw [show inserted .double (Padded.cell steepCosts 1.0e9) 1.0e18 (State.start .double 3)
      ((rows 3).take k) = some before from hbefore] at hrow
    exact SeesAll.linksAfresh (Fin.succ_ne_zero _) (of_decide_eq_true hrow)
  have hwhole : ∀ padding reach, settingDouble Config.default.paddingSentinel = .ok padding →
      settingDouble Config.default.searchInfinity = .ok reach →
      Padded.WholeSquare countedCosts 3 padding reach 1000000000 := by
    intro padding reach hpadding hreach
    rcases Except.ok.inj hpadding with rfl
    rcases Except.ok.inj hreach with rfl
    exact ⟨by decide +kernel, by decide, by decide, by decide +kernel⟩
  refine ⟨⟨hsteep, hafresh, ?_⟩, hcounted, hwhole, ?_, hpriced, hpart, ?_⟩
  · exact (solve_ends (n := 3) (m := 2) hsteep fun padding reach hpadding hreach =>
      Or.inl (hafresh padding reach hpadding hreach)).2
  · exact (solve_ends (n := 2) (m := 3) hcounted fun padding reach hpadding hreach =>
      Or.inr (Or.inl ⟨_, hwhole padding reach hpadding hreach⟩)).2
  · refine (solve_ends (n := 2) (m := 3) hpriced ?_).2
    refine (Config.isAmple_default (by decide)).isSteady fun padding hpadding => ?_
    exact Option.some.inj hpadding ▸ hfits

end Roster
