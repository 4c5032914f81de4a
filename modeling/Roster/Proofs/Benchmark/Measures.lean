import Roster.Program.Compare
import Roster.Proofs.Number.Distance
import Roster.Proofs.Program.Configured

/-!
# What a Benchmark Measures

The measurements of a solver are those of its own trials, in their order: a trial changes
nothing but what stands under the name of its solver. So all that is known about a run is
known about the list of comparisons that it makes under one name, and this list is the same in
every scenario: one comparison for each mention of the name, where the first mention of all is
the baseline's and is compared with nothing.

A name that is mentioned twice is therefore measured twice in every scenario. Its costs are
then twice as many as there are scenarios, and a matching that differs counts twice.

## Main definitions

* `Stats.IsWidest`: The greatest of some distances.
* `Benchmark.comparisons`: What the trials of one matrix are compared with.
* `Benchmark.onMatrices`: A run on given matrices.
* `Benchmark.Measures`: What measurements say about answers.

## Theorems

* `Stats.IsWidest.foldl`: The greatest distance is found one by one.
* `Benchmark.lookup_foldl_record`: Under a name stands what was recorded under it.
* `Benchmark.filter_comparisons`: What is recorded under a name for one matrix.
* `Benchmark.measures_of_answers`: The measurements of a run whose solves succeed.
* `Benchmark.repeated_measures_twice`: A solver that is named twice has two costs and two
  differing matchings for one scenario.
-/

namespace Roster

/-! ### The greatest distance -/

namespace Stats

/-- The greatest of some distances, or zero if there are none. What is no number is passed
    over. -/
structure IsWidest (gap : Float) (distances : List Float) : Prop where
  number : gap.isNaN = false
  bound : ∀ d ∈ distances, d.isNaN = false → d ≤ gap
  attained : gap ∈ distances ∨ gap = 0.0 ∧ ∀ d ∈ distances, d.isNaN = true

/-- The greater of two distances, the first if they are equal. -/
def wider (gap d : Float) : Float := if gap < d then d else gap

theorem widerGap_real (gap a b : Float) :
    widerGap (.real gap) (.real a) (.real b) = .real (wider gap (a - b).abs) := by
  -- Both are doubles, so the comparison of numbers is that of doubles.
  have hless : Number.less (.real gap) (.real (a - b).abs) = decide (gap < (a - b).abs) := by
    unfold Number.less Number.compare?
    by_cases h : gap < (a - b).abs
    · simp [Number.asNumeral, h]
    · simp only [Number.asNumeral, if_neg h, decide_eq_false h]
      split
      · rfl
      · split <;> rfl
  simp only [widerGap, Number.distance?, Number.asNumeral, Number.toDouble?, Option.bind_some,
    Option.map_some, Number.greater, hless, wider, decide_eq_true_eq]
  split <;> rfl

variable {gap : Float} {ds : List Float}

theorem IsWidest.nil : IsWidest 0.0 [] where
  number := by decide +kernel
  bound := by simp
  attained := Or.inr ⟨rfl, by simp⟩

theorem IsWidest.congr (h : IsWidest gap ds) {ds' : List Float} (hds : ∀ d, d ∈ ds ↔ d ∈ ds') :
    IsWidest gap ds' := by
  refine ⟨h.number, fun d hd => h.bound d ((hds d).mpr hd), ?_⟩
  rcases h.attained with hmem | ⟨hzero, hnone⟩
  · exact Or.inl ((hds gap).mp hmem)
  · exact Or.inr ⟨hzero, fun d hd => hnone d ((hds d).mpr hd)⟩

theorem IsWidest.step (h : IsWidest gap ds) (x : Float) :
    IsWidest (wider gap x.abs) (ds ++ [x.abs]) := by
  have hgap := Binary64.isSome_key?_iff.mpr h.number
  unfold wider
  -- What is above the greatest so far is a number and replaces it. All else leaves it as it is.
  by_cases hlt : gap < x.abs
  · rw [if_pos hlt]
    rcases Binary64.lt_iff.mp hlt with ⟨_, b, _, hb, _⟩
    have hx : (Binary64.key? x.abs).isSome := by rw [hb, Option.isSome_some]
    refine ⟨Binary64.isSome_key?_iff.mp hx, fun d hd hnumber => ?_, Or.inl (by simp)⟩
    rcases List.mem_append.mp hd with hd | hd
    · exact Binary64.le_of_lt (Binary64.lt_of_le_of_lt (h.bound d hd hnumber) hlt)
    · rw [List.mem_singleton.mp hd]
      exact Binary64.le_iff.mpr ⟨b, b, hb, hb, le_refl b⟩
  · rw [if_neg hlt]
    refine ⟨h.number, fun d hd hnumber => ?_, ?_⟩
    · rcases List.mem_append.mp hd with hd | hd
      · exact h.bound d hd hnumber
      · rw [List.mem_singleton.mp hd] at hnumber ⊢
        exact (Binary64.not_lt_iff hgap (Binary64.isSome_key?_iff.mpr hnumber)).mp hlt
    · rcases h.attained with hmem | ⟨hzero, hnone⟩
      · exact Or.inl (List.mem_append_left _ hmem)
      cases hnumber : x.abs.isNaN with
      | true =>
          refine Or.inr ⟨hzero, fun d hd => ?_⟩
          rcases List.mem_append.mp hd with hd | hd
          · exact hnone d hd
          · rw [List.mem_singleton.mp hd, hnumber]
      | false =>
          -- The first distance that is a number is not above zero, so it is the zero itself.
          rw [hzero] at hlt ⊢
          rw [Binary64.abs_eq_zero hnumber hlt]
          exact Or.inl (by simp)

theorem IsWidest.foldl (h : IsWidest gap ds) (xs : List Float) :
    IsWidest ((xs.map Float.abs).foldl wider gap) (ds ++ xs.map Float.abs) := by
  induction xs generalizing gap ds with
  | nil => simpa using h
  | cons x rest ih => simpa using ih (h.step x)

theorem foldl_wider_of_not_lt (h : ∀ d ∈ ds, ¬ gap < d) : ds.foldl wider gap = gap := by
  induction ds with
  | nil => rfl
  | cons d rest ih =>
      rw [List.foldl_cons, wider, if_neg (h d List.mem_cons_self)]
      exact ih fun e he => h e (List.mem_cons_of_mem _ he)

/-- Nothing is far from itself. -/
theorem isWidest_self (ts : List Float) : IsWidest 0.0 (ts.map fun t => (t - t).abs) := by
  have hzero : (Binary64.key? 0.0).isSome :=
    Binary64.isSome_key?_iff.mpr IsWidest.nil.number
  refine ⟨IsWidest.nil.number, fun d hd hnumber => ?_, ?_⟩
  · rcases List.mem_map.mp hd with ⟨t, _, rfl⟩
    exact (Binary64.not_lt_iff hzero (Binary64.isSome_key?_iff.mpr hnumber)).mp
      (Binary64.not_lt_abs_sub_self t)
  -- The total of a solve may be infinite, and then its distance to itself is no number.
  · by_cases hnone : ∀ d ∈ ts.map fun t => (t - t).abs, d.isNaN = true
    · exact Or.inr ⟨rfl, hnone⟩
    · push Not at hnone
      rcases hnone with ⟨d, hd, hnumber⟩
      rcases List.mem_map.mp hd with ⟨t, _, rfl⟩
      rw [← Binary64.abs_eq_zero (by simpa using hnumber) (Binary64.not_lt_abs_sub_self t)]
      exact Or.inl hd

end Stats

namespace Benchmark

/-! ### What is recorded under a name -/

/-- A trial with the baseline that it is compared with, if it is not the baseline itself. -/
abbrev Comparison := Trial × Option Trial

namespace Comparison

/-- The measurements with one more comparison. -/
def record (s : Stats) (c : Comparison) : Stats :=
  s.record c.1.outcome.answer c.1.elapsed (c.2.map fun b => b.outcome.answer)

def difference? (c : Comparison) : Option Float :=
  c.2.map fun b => c.1.outcome.total - b.outcome.total

def differs (c : Comparison) : Bool :=
  c.2.any fun b => c.1.outcome.workerOf != b.outcome.workerOf

theorem record_none (s : Stats) (t : Trial) : record s (t, none) =
    { s with
      costs := s.costs ++ [.real t.outcome.total]
      times := s.times ++ [t.elapsed] } := rfl

theorem record_some (s : Stats) (t b : Trial) : record s (t, some b) =
    { costs := s.costs ++ [.real t.outcome.total]
      times := s.times ++ [t.elapsed]
      maxGap := Stats.widerGap s.maxGap (.real t.outcome.total) (.real b.outcome.total)
      mismatches :=
        if t.outcome.workerOf == b.outcome.workerOf then s.mismatches else s.mismatches + 1 } := rfl

/-- The measurements after some comparisons, from those before. -/
theorem foldl_record (cs : List Comparison) {s : Stats} {gap : Float}
    (hgap : s.maxGap = .real gap) :
    (cs.foldl record s).costs = s.costs ++ cs.map (fun c => .real c.1.outcome.total) ∧
    (cs.foldl record s).maxGap =
      .real (((cs.filterMap difference?).map Float.abs).foldl Stats.wider gap) ∧
    (cs.foldl record s).mismatches = s.mismatches + cs.countP differs := by
  -- The greatest distance so far and the measurements vary from comparison to comparison.
  induction cs generalizing s gap with
  | nil => exact ⟨by simp, hgap, rfl⟩
  | cons c rest ih =>
      rcases c with ⟨t, _ | b⟩
      · rcases ih (show (record s (t, none)).maxGap = .real gap from hgap) with
          ⟨hcosts, hgap', hmismatches⟩
        rw [List.foldl_cons, hcosts, hgap', hmismatches, record_none]
        simp [List.filterMap_cons, difference?, differs]
      · have hwider : (record s (t, some b)).maxGap =
            .real (Stats.wider gap (t.outcome.total - b.outcome.total).abs) := by
          rw [record_some, hgap, Stats.widerGap_real]
        rcases ih hwider with ⟨hcosts, hgap', hmismatches⟩
        rw [List.foldl_cons, hcosts, hgap', hmismatches, record_some, List.countP_cons]
        refine ⟨by simp, by simp [difference?], ?_⟩
        by_cases hsame : t.outcome.workerOf = b.outcome.workerOf
        · simp [differs, hsame]
        · simp [differs, hsame]
          omega

end Comparison

/-- The comparisons of the trials of one matrix. -/
def comparisons : List Trial → List Comparison
  | [] => []
  | base :: others => (base, none) :: others.map fun t => (t, some base)

theorem recordAll_eq (board : Board) (row : List Trial) : board.recordAll row =
    (comparisons row).foldl (fun board c => board.record c.1 c.2) board := by
  cases row with
  | nil => rfl
  | cons base others => rw [Board.recordAll, comparisons, List.foldl_cons, List.foldl_map]

theorem lookup_update (board : Board) (name other : String) (change : Stats → Stats) :
    (board.update name change).lookup other =
      (board.lookup other).map fun s => if other = name then change s else s := by
  induction board with
  | nil => rfl
  | cons entry rest ih =>
      rcases entry with ⟨key, s⟩
      rw [Board.update, List.map_cons, List.lookup_cons, List.lookup_cons]
      by_cases hkey : other = key
      · subst hkey
        simp
      · rw [beq_eq_false_iff_ne.mpr hkey]
        exact ih

/-- What stands under a name was recorded under it, and nothing else was. -/
theorem lookup_foldl_record (cs : List Comparison) (board : Board) (name : String) :
    (cs.foldl (fun board c => board.record c.1 c.2) board).lookup name =
      (board.lookup name).map fun s =>
        (cs.filter fun c => c.1.solver == name).foldl Comparison.record s := by
  induction cs generalizing board with
  | nil => simp
  | cons c rest ih =>
      rw [List.foldl_cons, ih, Board.record, lookup_update, Option.map_map, List.filter_cons]
      congr 1
      funext s
      -- A comparison under another name changes nothing under this one, and none is filtered out
      -- that changes it.
      by_cases hname : name = c.1.solver
      · rw [if_pos (beq_iff_eq.mpr hname.symm), List.foldl_cons, Function.comp_apply,
          if_pos hname]
        rfl
      · rw [if_neg (fun h => hname (beq_iff_eq.mp h).symm), Function.comp_apply, if_neg hname]

theorem lookup_map_empty (keys : List String) (name : String) :
    (keys.map fun key => (key, Stats.empty)).lookup name =
      if name ∈ keys then some Stats.empty else none := by
  induction keys with
  | nil => rfl
  | cons key rest ih =>
      rw [List.map_cons, List.lookup_cons, ih]
      by_cases hkey : name = key
      · simp [hkey]
      · rw [beq_eq_false_iff_ne.mpr hkey]
        simp [hkey]

theorem lookup_empty (names : List String) (name : String) :
    (Board.empty names).lookup name = if name ∈ names then some Stats.empty else none := by
  rw [Board.empty, lookup_map_empty]
  simp

/-- A board takes in the comparisons of all matrices one after the other. -/
theorem tally_eq (names : List String) (trials : List (List Trial)) : tally names trials =
    (trials.flatMap comparisons).foldl (fun board c => board.record c.1 c.2)
      (Board.empty names) := by
  rw [tally, List.foldl_flatMap]
  exact congrArg (fun step => trials.foldl step (Board.empty names))
    (funext fun board => funext fun row => recordAll_eq board row)

theorem lookup_tally {names : List String} {name : String} (hname : name ∈ names)
    (trials : List (List Trial)) : (tally names trials).lookup name =
      some (((trials.flatMap comparisons).filter fun c => c.1.solver == name).foldl
        Comparison.record Stats.empty) := by
  rw [tally_eq, lookup_foldl_record, lookup_empty, if_pos hname, Option.map_some]

theorem names_foldl_record (cs : List Comparison) (board : Board) :
    (cs.foldl (fun board c => board.record c.1 c.2) board).map Prod.fst = board.map Prod.fst := by
  induction cs generalizing board with
  | nil => rfl
  | cons c rest ih =>
      rw [List.foldl_cons, ih, Board.record, Board.update, List.map_map]
      rfl

/-- The names on a board stay as they are. -/
theorem names_tally (names : List String) (trials : List (List Trial)) :
    (tally names trials).map Prod.fst = names.eraseDups := by
  rw [tally_eq, names_foldl_record, Board.empty, List.map_map]
  exact List.map_id _

/-! ### The comparisons of a run -/

section

variable {found : String → Grid Float → Outcome Float}

/-- The trial in which the solver of a name finds an outcome. -/
def foundTrial (found : String → Grid Float → Outcome Float) (costs : Grid Float)
    (name : String) : Trial where
  solver := name
  method := (Method.ofName? name).getD .padded
  outcome := found name costs
  elapsed := 0.0

/-- What is recorded under a name for one matrix: the baseline once without a comparison, and
    every further mention of the name with one. -/
def recorded (found : String → Grid Float → Outcome Float) (base : String)
    (others : List String) (name : String) (costs : Grid Float) : List Comparison :=
  (if base = name then [(foundTrial found costs base, none)] else []) ++
    List.replicate (others.count name)
      (foundTrial found costs name, some (foundTrial found costs base))

variable {base : String} {others : List String} {name : String}

theorem filter_comparisons (costs : Grid Float) :
    (comparisons ((base :: others).map (foundTrial found costs))).filter
      (fun c => c.1.solver == name) = recorded found base others name costs := by
  -- The others are compared in the order of their mention, and one name's are all alike.
  have hothers : (others.map ((fun t => (t, some (foundTrial found costs base))) ∘
      foundTrial found costs)).filter (fun c => c.1.solver == name) =
        List.replicate (others.count name)
          (foundTrial found costs name, some (foundTrial found costs base)) := by
    have hfilter : others.filter (fun other => other == name) =
        List.replicate (others.count name) name := List.filter_beq name
    calc
      _ = (others.filter fun other => other == name).map
          ((fun t => (t, some (foundTrial found costs base))) ∘ foundTrial found costs) :=
        List.filter_map
      _ = _ := by
        rw [hfilter, List.map_replicate]
        rfl
  have hhead : ((foundTrial found costs base).solver == name) = decide (base = name) := rfl
  rw [List.map_cons, comparisons, List.map_map, List.filter_cons, hothers, hhead, recorded]
  by_cases hbase : base = name
  · simp [hbase]
  · simp [hbase]

theorem map_recorded (costs : Grid Float) :
    (recorded found base others name costs).map (fun c => Number.real c.1.outcome.total) =
      List.replicate ((base :: others).count name) (.real (found name costs).total) := by
  rw [recorded, List.map_append, List.map_replicate]
  by_cases hbase : base = name
  · rw [if_pos hbase, hbase, List.count_cons_self, List.replicate_succ]
    rfl
  · rw [if_neg hbase, List.count_cons_of_ne hbase]
    rfl

theorem filterMap_recorded (costs : Grid Float) :
    (recorded found base others name costs).filterMap Comparison.difference? =
      List.replicate (others.count name)
        ((found name costs).total - (found base costs).total) := by
  have hcompared : Comparison.difference?
      (foundTrial found costs name, some (foundTrial found costs base)) =
        some ((found name costs).total - (found base costs).total) := rfl
  rw [recorded, List.filterMap_append, List.filterMap_replicate_of_some hcompared]
  by_cases hbase : base = name
  · rw [if_pos hbase]
    rfl
  · rw [if_neg hbase]
    rfl

/-- The first mention of all is the baseline's, which does not differ from itself. -/
theorem countP_recorded (costs : Grid Float) :
    (recorded found base others name costs).countP Comparison.differs =
      (base :: others).count name *
        if (found name costs).workerOf != (found base costs).workerOf then 1 else 0 := by
  have hcompared : Comparison.differs
      (foundTrial found costs name, some (foundTrial found costs base)) =
        ((found name costs).workerOf != (found base costs).workerOf) := rfl
  rw [recorded, List.countP_append, List.countP_replicate, hcompared]
  by_cases hbase : base = name
  · simp [hbase, Comparison.differs]
  · rw [if_neg hbase, List.count_cons_of_ne hbase, List.countP_nil]
    split <;> simp

theorem sum_map_ite (k : Nat) (p : Grid Float → Bool) (costs : List (Grid Float)) :
    (costs.map fun matrix => k * if p matrix then 1 else 0).sum = k * costs.countP p := by
  induction costs with
  | nil => rfl
  | cons matrix rest ih =>
      rw [List.map_cons, List.sum_cons, ih, List.countP_cons, Nat.mul_add, Nat.add_comm]

/-- The distances between a solver and the baseline, once for each further mention. -/
theorem distances_recorded (costs : List (Grid Float)) :
    ((costs.flatMap (recorded found base others name)).filterMap
      Comparison.difference?).map Float.abs =
        costs.flatMap fun matrix => List.replicate (others.count name)
          ((found name matrix).total - (found base matrix).total).abs := by
  simp only [List.filterMap_flatMap, filterMap_recorded, List.map_flatMap, List.map_replicate]

/-- The matrices in which a solver and the baseline differ, once for each mention. -/
theorem countP_flatMap_recorded (costs : List (Grid Float)) :
    (costs.flatMap (recorded found base others name)).countP Comparison.differs =
      (base :: others).count name * costs.countP fun matrix =>
        (found name matrix).workerOf != (found base matrix).workerOf := by
  rw [List.countP_flatMap, ← sum_map_ite]
  exact congrArg List.sum (List.map_congr_left fun matrix _ => countP_recorded matrix)

/-- The baseline is compared with itself only, and that only if it is mentioned again. -/
theorem maxGap_baseline (costs : List (Grid Float)) :
    ((costs.flatMap (recorded found base others base)).foldl Comparison.record
      Stats.empty).maxGap = .real 0.0 := by
  rw [(Comparison.foldl_record _ (show Stats.empty.maxGap = .real 0.0 from rfl)).2.1,
    distances_recorded, Stats.foldl_wider_of_not_lt]
  intro d hd
  rcases List.mem_flatMap.mp hd with ⟨matrix, _, hd⟩
  rw [List.eq_of_mem_replicate hd]
  exact Binary64.not_lt_abs_sub_self _

end

/-! ### The measurements of a run -/

/-- A run on given matrices instead of those that are drawn. -/
def onMatrices (library : Library Float) (plan : Plan) (costs : List (Grid Float)) :
    Except Fault Result := do
  let solvers ← plan.methods
  let trials ← answers library plan.config solvers costs
  return { board := tally plan.active trials, events := events costs trials }

/-- All solves of a run succeed, and `found` tells what the solver of a name finds. -/
structure Answered (library : Library Float) (plan : Plan) (costs : List (Grid Float))
    (found : String → Grid Float → Outcome Float) : Prop where
  known : ∀ name ∈ plan.active, (Method.ofName? name).isSome
  solved : ∀ name ∈ plan.active, ∀ matrix ∈ costs,
    Solver.answer library name plan.config (CostMatrix.gridInput matrix) = .ok (found name matrix)

/-- What the measurements under a name say about what its solver finds. Everything is measured
    once for each mention of the name. -/
structure Measures (plan : Plan) (costs : List (Grid Float))
    (found : String → Grid Float → Outcome Float) (name : String) (s : Stats) : Prop where
  totals : s.costs = costs.flatMap fun matrix =>
    List.replicate (plan.active.count name) (.real (found name matrix).total)
  gap : ∃ gap, s.maxGap = .real gap ∧ Stats.IsWidest gap (costs.map fun matrix =>
    ((found name matrix).total - (found plan.baseline matrix).total).abs)
  mismatches : s.mismatches = plan.active.count name * costs.countP fun matrix =>
    (found name matrix).workerOf != (found plan.baseline matrix).workerOf
  baseline : name = plan.baseline → s.maxGap = .real 0.0 ∧ s.mismatches = 0

variable {library : Library Float} {plan : Plan} {costs : List (Grid Float)}
  {found : String → Grid Float → Outcome Float}

theorem run_of_scenarios (h : scenarios plan = .ok costs) :
    run library plan = onMatrices library plan costs := by
  unfold run onMatrices
  rw [h]
  rfl

theorem exists_onMatrices (h : Answered library plan costs found) :
    ∃ events, onMatrices library plan costs = .ok
      { board := tally plan.active
          (costs.map fun matrix => plan.active.map (foundTrial found matrix))
        events := events } := by
  have hmethods : plan.methods = .ok (plan.active.map fun name =>
      (name, (Method.ofName? name).getD .padded)) := by
    refine mapM_eq_map fun name hname => ?_
    rcases Option.isSome_iff_exists.mp (h.known name hname) with ⟨method, hmethod⟩
    rw [hmethod]
    rfl
  -- A trial is an answer of a new solver, to a table in place of a drawn matrix.
  have htrial : ∀ matrix ∈ costs, ∀ name ∈ plan.active,
      trial library plan.config matrix (name, (Method.ofName? name).getD .padded) =
        .ok (foundTrial found matrix name) := by
    intro matrix hmatrix name hname
    have hanswer := h.solved name hname matrix hmatrix
    rcases Option.isSome_iff_exists.mp (h.known name hname) with ⟨method, hmethod⟩
    simp only [Solver.answer, Solver.create, hmethod, bind, Except.bind, Solver.fst_solve]
      at hanswer
    rw [CostMatrix.gridInput] at hanswer
    rw [trial, foundTrial, hmethod, Option.getD_some, hanswer]
    rfl
  have hanswers : answers library plan.config (plan.active.map fun name =>
      (name, (Method.ofName? name).getD .padded)) costs =
        .ok (costs.map fun matrix => plan.active.map (foundTrial found matrix)) := by
    refine mapM_eq_map fun matrix hmatrix => ?_
    rw [List.mapM_map]
    exact mapM_eq_map fun name hname => htrial matrix hmatrix name hname
  refine ⟨events costs (costs.map fun matrix => plan.active.map (foundTrial found matrix)), ?_⟩
  rw [onMatrices, hmethods]
  simp only [bind, Except.bind, hanswers]
  rfl

theorem active_eq (plan : Plan) : plan.active = plan.baseline :: plan.active.tail := by
  have hne : plan.active ≠ [] := by
    unfold Plan.active
    split
    · decide
    · rename_i h
      exact fun hnil => h (by rw [hnil]; rfl)
  cases hactive : plan.active with
  | nil => exact absurd hactive hne
  | cons base others => rw [Plan.baseline, hactive, List.headD_cons, List.tail_cons]

/-- The measurements after the comparisons of all matrices under one name. -/
theorem measures_recorded (plan : Plan) (costs : List (Grid Float))
    (found : String → Grid Float → Outcome Float) {name : String} (hname : name ∈ plan.active) :
    Measures plan costs found name
      ((costs.flatMap (recorded found plan.baseline plan.active.tail name)).foldl
        Comparison.record Stats.empty) := by
  set others := plan.active.tail
  have hactive : plan.active = plan.baseline :: others := active_eq plan
  rcases Comparison.foldl_record (costs.flatMap (recorded found plan.baseline others name))
    (show Stats.empty.maxGap = .real 0.0 from rfl) with ⟨hcosts, hgap, hmismatches⟩
  have hzero : Stats.empty.mismatches = 0 := rfl
  -- The baseline is mentioned once more than it is compared, and never differs from itself. So
  -- its mentions can be counted with the others.
  rw [countP_flatMap_recorded, ← hactive, hzero, Nat.zero_add] at hmismatches
  have hself : name = plan.baseline → ((costs.flatMap (recorded found plan.baseline others
      name)).foldl Comparison.record Stats.empty).maxGap = .real 0.0 := by
    rintro rfl
    exact maxGap_baseline costs
  refine ⟨?_, ?_, hmismatches, fun hbase => ⟨hself hbase, ?_⟩⟩
  · rw [hcosts, List.map_flatMap, hactive]
    simp only [map_recorded]
    rfl
  · -- Every name but the baseline's is compared at least once in each scenario.
    by_cases hbase : name = plan.baseline
    · refine ⟨0.0, hself hbase, ?_⟩
      have hnear := Stats.isWidest_self (costs.map fun matrix => (found name matrix).total)
      rw [List.map_map] at hnear
      rw [← hbase]
      exact hnear
    · refine ⟨_, hgap, (Stats.IsWidest.nil.foldl _).congr fun d => ?_⟩
      have hmentioned : others.count name ≠ 0 := by
        rw [hactive, List.mem_cons] at hname
        exact (List.count_pos_iff.mpr (hname.resolve_left hbase)).ne'
      rw [List.nil_append, distances_recorded]
      simp [hmentioned, eq_comm]
  · rw [hmismatches, hbase]
    simp

theorem length_generateAll (ss : List Scenario) (g : Random.Generator) :
    (Scenario.generateAll ss g).length = ss.length := by
  induction ss generalizing g with
  | nil => rfl
  | cons s rest ih => rw [Scenario.generateAll, List.length_cons, ih, List.length_cons]

theorem length_scenarios (h : scenarios plan = .ok costs) :
    costs.length = plan.scenarios.toNat := by
  rw [scenarios, bind_eq_ok_iff] at h
  rcases h with ⟨g, _, h⟩
  rw [length_eq_of_mapM h, length_generateAll, List.length_replicate]

/-- If all solves succeed, the measurements under each name mean what `Measures` says, whatever the
    library is and whichever of several cheapest matchings it finds. With every solver named once,
    there is one cost for each scenario, and a matching that differs counts once. -/
theorem measures_of_answers (h : Answered library plan costs found) :
    ∃ result, onMatrices library plan costs = .ok result ∧
      (scenarios plan = .ok costs →
        costs.length = plan.scenarios.toNat ∧ run library plan = .ok result) ∧
      result.board.map Prod.fst = plan.active.eraseDups ∧
      ∀ name ∈ plan.active, ∃ s, result.board.lookup name = some s ∧
        Measures plan costs found name s ∧
        (plan.active.Nodup →
          s.costs = (costs.map fun matrix => .real (found name matrix).total) ∧
          s.mismatches = costs.countP fun matrix =>
            (found name matrix).workerOf != (found plan.baseline matrix).workerOf) := by
  rcases exists_onMatrices h with ⟨events, hresult⟩
  refine ⟨_, hresult, fun hdrawn => ⟨length_scenarios hdrawn, ?_⟩, names_tally _ _,
    fun name hname => ?_⟩
  · exact (run_of_scenarios hdrawn).trans hresult
  have hmeasures := measures_recorded plan costs found hname
  refine ⟨_, ?_, hmeasures, fun hnodup => ?_⟩
  -- What stands on the board under a name is what was recorded under it, matrix by matrix.
  · have hrows : ((costs.map fun matrix => plan.active.map (foundTrial found matrix)).flatMap
        comparisons).filter (fun c => c.1.solver == name) =
          costs.flatMap (recorded found plan.baseline plan.active.tail name) := by
      rw [List.flatMap_map, List.filter_flatMap]
      conv_lhs => rw [active_eq plan]
      simp only [filter_comparisons]
    rw [lookup_tally hname, hrows]
  · have honce : plan.active.count name = 1 := List.count_eq_one_of_mem hnodup hname
    rw [hmeasures.totals, hmeasures.mismatches, honce, one_mul]
    exact ⟨List.map_eq_flatMap.symm, rfl⟩

/-- Solvers that all succeed have found something. -/
theorem exists_answered
    (h : ∀ name ∈ plan.active, (Method.ofName? name).isSome ∧ ∀ matrix ∈ costs,
      (Solver.answer library name plan.config (CostMatrix.gridInput matrix)).toOption.isSome) :
    ∃ found, Answered library plan costs found := by
  refine ⟨fun name matrix =>
    (Solver.answer library name plan.config (CostMatrix.gridInput matrix)).toOption.getD
      { total := 0.0, workerOf := [], idle := [], status := .vacant, rowPotentials := [],
        colPotentials := [] }, fun name hname => (h name hname).1, fun name hname matrix hm => ?_⟩
  rcases Option.isSome_iff_exists.mp ((h name hname).2 matrix hm) with ⟨o, ho⟩
  rw [ho]
  exact toOption_eq_some_iff.mp ho

/-- Every worker asks the same for a job, so that the cheapest matchings differ only in who
    works where. -/
def sharedRates : Grid Float := Grid.ofFn 2 2 fun _ j => if j.val = 0 then 2.0 else 1.0

/-- Two solvers on a table in which they find different matchings. -/
def rivals : Plan where
  scenarios := 1
  workers := 2
  jobs := 2
  seed := 0
  solvers := ["hungarian", "bruteforce"]
  config := Config.default

theorem measures_of_answers_rivals_sharedRates :
    ∃ found, Answered Reference.library rivals [sharedRates] found ∧
      ∃ result, onMatrices Reference.library rivals [sharedRates] = .ok result ∧
        ∃ s, result.board.lookup "bruteforce" = some s ∧
          Measures rivals [sharedRates] found "bruteforce" s := by
  have hfound : ∃ found, Answered Reference.library rivals [sharedRates] found :=
    exists_answered (by decide +kernel)
  rcases hfound with ⟨found, hfound⟩
  rcases measures_of_answers hfound with ⟨result, hresult, _, _, hmeasures⟩
  rcases hmeasures "bruteforce" (by decide) with ⟨s, hs, hmeasures, _⟩
  exact ⟨found, hfound, result, hresult, s, hs, hmeasures⟩

/-- Settings that are accepted, but so large that the padded search can no longer tell the
    costs of a scenario apart. -/
def coarseSettings : List (Datum × Datum) :=
  [(.text "padding_sentinel", .number (.real 1.0e18)),
    (.text "search_infinity", .number (.real 1.0e19))]

/-- One scenario for solvers that are to be named. -/
def oneScenario (solvers : List String) (config : Config) : Plan where
  scenarios := 1
  workers := 2
  jobs := 1
  seed := 0
  solvers := solvers
  config := config

/-- The command line accepts a solver that is named twice, and all solves succeed. But then two
    costs are recorded for the one scenario, and two matchings that differ in it. -/
theorem repeated_measures_twice :
    ∃ request config costs result,
      Program.Compare.Request.ofWords ["--solvers", "bruteforce", "hungarian", "hungarian"] =
        .ok request ∧
      Config.build coarseSettings = .ok config ∧
      scenarios (oneScenario request.solvers config) = .ok costs ∧ costs.length = 1 ∧
      run Reference.library (oneScenario request.solvers config) = .ok result ∧
      (result.board.stats "hungarian").costs.length = 2 ∧
      (result.board.stats "hungarian").mismatches = 2 := by
  -- The command line, the settings and the run are evaluated in one go.
  have hcheck : ((Program.Compare.Request.ofWords
      ["--solvers", "bruteforce", "hungarian", "hungarian"]).toOption.any fun request =>
      (Config.build coarseSettings).toOption.any fun config =>
        ((scenarios (oneScenario request.solvers config)).toOption.any fun costs =>
          costs.length == 1) &&
        ((run Reference.library (oneScenario request.solvers config)).toOption.any fun result =>
          (result.board.stats "hungarian").costs.length == 2 &&
            (result.board.stats "hungarian").mismatches == 2)) = true := by
    decide +kernel
  rcases (Option.any_eq_true _ _).mp hcheck with ⟨request, hrequest, hcheck⟩
  rcases (Option.any_eq_true _ _).mp hcheck with ⟨config, hconfig, hcheck⟩
  rcases Bool.and_eq_true_iff.mp hcheck with ⟨hcosts, hresult⟩
  rcases (Option.any_eq_true _ _).mp hcosts with ⟨costs, hcosts, hone⟩
  rcases (Option.any_eq_true _ _).mp hresult with ⟨result, hresult, htwice⟩
  rcases Bool.and_eq_true_iff.mp htwice with ⟨hlength, hmismatches⟩
  exact ⟨request, config, costs, result, toOption_eq_some_iff.mp hrequest,
    toOption_eq_some_iff.mp hconfig, toOption_eq_some_iff.mp hcosts, eq_of_beq hone,
    toOption_eq_some_iff.mp hresult, eq_of_beq hlength, eq_of_beq hmismatches⟩

end Benchmark

end Roster
