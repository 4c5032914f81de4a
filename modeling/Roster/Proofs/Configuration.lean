import Roster.Loading
import Roster.Proofs.Cost.Refusal
import Roster.Proofs.Number.Value

/-!
# Configurations in Order

A configuration is made of some settings exactly if they are in order: zero lies below the
padding sentinel and the sentinel below the search infinity, by their values and without a
rounding, and the scale of the integer solver is not refused. It is all the same whether the
settings are given at once or in a file, and those that are left out have their defaults.

The two guards ask in opposite ways. The sentinels have to be in order, so one that is no number
is refused. The scale is refused if it is at most zero, and what is no number is not at most zero.
So a scale is taken that is not above zero, but nothing else that is out of order ever is.

## Main definitions

* `Config.given?`: The settings that entries give.
* `Config.solverEntries?`: The entries of a document for a configuration.
* `Config.Asked`: The two ways to ask for a configuration.
* `Config.IsOrdered`, `Config.IsScaled`: What settings should be like.
* `Config.IsTaken`: What settings have to be like.

## Theorems

* `Config.Asked.eq_build`: A file makes the configuration that its entries make.
* `Config.ofSettings_taken`: Settings that pass both guards are taken.
* `Config.ofSettings_misordered`, `Config.ofSettings_misscaled`: All others are refused.
* `Config.made_iff_isTaken`: Which configurations there are.
* `Config.made_scaleless`: A configuration without a scale above zero.
-/

namespace Roster

namespace Config

/-! ### Settings as they are given -/

/-- The settings that entries give, each by its name or else by its default. There are none if an
    entry names no setting, or if one of the settings that are compared is no number of any kind. -/
def given? (entries : List (Datum × Datum)) : Option Config :=
  if entries.all isSetting then do
    let padding ← (setting entries "padding_sentinel" (.number default.paddingSentinel)).number?
    let infinity ← (setting entries "search_infinity" (.number default.searchInfinity)).number?
    let scale ← (setting entries "ortools_cost_scale" (.number default.costScale)).number?
    return {
      paddingSentinel := padding
      searchInfinity := infinity
      validateInputs := setting entries "validate_inputs" default.validateInputs
      costScale := scale }
  else none

/-- The entries of a document for a configuration: its section, or none if it has no section or
    counts as false. A document has to be a mapping, and so has the section. -/
def solverEntries? (document : Datum) : Option (List (Datum × Datum)) :=
  if document.truthy then
    match document.opened with
    | .mapping top =>
      match (Datum.lookup? "solver" top).map Datum.opened with
      | none => some []
      | some (.mapping chosen) => some chosen
      | some _ => none
    | _ => none
  else some []

/-- What is answered if a configuration with some entries is asked for: at once, or by a file. -/
inductive Asked (look : Location → Entry) (entries : List (Datum × Datum)) :
    Except Fault Config → Prop
  | build : Asked look entries (build entries)
  | load {place : Location} {document : Datum}
    (hread : readText look place >>= Yaml.read = .ok document)
    (hentries : solverEntries? document = some entries) : Asked look entries (load look place)

section

variable {look : Location → Entry} {place : Location} {entries : List (Datum × Datum)}
  {document : Datum} {answer : Except Fault Config} {c : Config}

theorem ofDocument_cases (document : Datum) : (∃ entries, solverEntries? document = some entries ∧
      ofDocument document = build entries) ∨
    solverEntries? document = none ∧ ∃ fault, ofDocument document = .error fault := by
  unfold solverEntries? ofDocument
  cases document.truthy with
  | false => exact Or.inl ⟨[], rfl, rfl⟩
  | true =>
    simp only [Bool.not_true, Bool.false_eq_true, if_false, if_true]
    -- A document is looked at in the same order by both, so they part nowhere.
    cases document.opened with
    | mapping top =>
      dsimp only
      cases (Datum.lookup? "solver" top).map Datum.opened with
      | none => exact Or.inl ⟨[], rfl, rfl⟩
      | some chosen =>
        cases chosen with
        | mapping entries => exact Or.inl ⟨entries, rfl, rfl⟩
        | _ => exact Or.inr ⟨rfl, _, rfl⟩
    | _ => exact Or.inr ⟨rfl, _, rfl⟩

theorem load_eq (hread : readText look place >>= Yaml.read = .ok document) :
    load look place = ofDocument document := by
  rcases bind_eq_ok_iff.mp hread with ⟨text, htext, hdocument⟩
  rw [load, htext]
  simp only [bind, Except.bind, hdocument]

/-- A file makes the configuration that its entries make. -/
theorem Asked.eq_build (h : Asked look entries answer) : answer = Config.build entries := by
  cases h with
  | build => rfl
  | load hread hentries =>
    rw [load_eq hread]
    -- The document has entries, so it is not one of those that are refused.
    rcases ofDocument_cases _ with ⟨entries', hentries', heq⟩ | ⟨hnone, _⟩
    · rcases Option.some.inj (hentries.symm.trans hentries') with rfl
      exact heq
    · exact absurd (hentries.symm.trans hnone) nofun

theorem exists_build_of_load (h : load look place = .ok c) : ∃ entries, build entries = .ok c := by
  simp only [load, bind_eq_ok_iff] at h
  rcases h with ⟨_, _, document, _, h⟩
  rcases ofDocument_cases document with ⟨entries, _, heq⟩ | ⟨_, _, hfault⟩
  · exact ⟨entries, heq.symm.trans h⟩
  · exact absurd (h.symm.trans hfault) nofun

theorem build_of_given (h : given? entries = some c) : build entries =
    ofSettings (.number c.paddingSentinel) (.number c.searchInfinity) c.validateInputs
      (.number c.costScale) := by
  -- A datum that is a number is that number, with its kind.
  have hnumber : ∀ {d : Datum} {n : Number}, d.number? = some n → d = .number n := by
    intro d n hd
    cases d with
    | number m => exact congrArg Datum.number (Option.some.inj hd)
    | _ => exact absurd hd nofun
  simp only [given?, Option.ite_none_right_eq_some, Option.bind_eq_bind, Option.bind_eq_some_iff,
    Option.pure_def, Option.some.injEq] at h
  rcases h with ⟨hknown, padding, hpadding, infinity, hinfinity, scale, hscale, rfl⟩
  rw [build, if_pos hknown, hnumber hpadding, hnumber hinfinity, hnumber hscale]

end

/-! ### Settings in order -/

/-- Zero lies below the padding sentinel, and the sentinel below the search infinity. -/
def IsOrdered (c : Config) : Prop :=
  Number.IsBelow (.whole 0) c.paddingSentinel ∧ c.paddingSentinel.IsBelow c.searchInfinity

/-- The scale of the integer solver is above zero. -/
def IsScaled (c : Config) : Prop := Number.IsBelow (.whole 0) c.costScale

/-- The sentinels are in order, and the scale is above zero or no number. -/
def IsTaken (c : Config) : Prop :=
  c.IsOrdered ∧ (c.IsScaled ∨ ∃ x, c.costScale = .real x ∧ x.isNaN = true)

theorem value?_zero : (Number.real 0.0).value? = (Number.whole 0).value? := by
  -- The guard asks about the double zero, the statement about the whole number.
  have hcontent : Binary64.content 0.0 = .finite false 0 (-1074) := by decide +kernel
  simp [Number.value?, Binary64.extended?, hcontent]

theorem less_zero_iff {n : Number} :
    Number.less (.real 0.0) n = true ↔ Number.IsBelow (.whole 0) n := by
  rw [Number.less_iff, Number.IsBelow, value?_zero, Number.IsBelow]

theorem atMost_zero_iff {n : Number} : n.atMost (.whole 0) = false ↔
    Number.IsBelow (.whole 0) n ∨ ∃ x, n = .real x ∧ x.isNaN = true := by
  rw [← Bool.not_eq_true, Number.atMost_iff, ← Number.value?_eq_none_iff, Number.IsBelow]
  -- What has no value compares with nothing. This is where the guard lets it pass.
  cases n.value? with
  | none => simp
  | some q => simp [Number.value?]

section

variable {c : Config}

theorem isOrdered_iff : c.IsOrdered ↔ Number.less (.real 0.0) c.paddingSentinel = true ∧
    c.paddingSentinel.less c.searchInfinity = true := by
  rw [IsOrdered, less_zero_iff, Number.less_iff]

theorem isTaken_iff : c.IsTaken ↔ Number.less (.real 0.0) c.paddingSentinel = true ∧
    c.paddingSentinel.less c.searchInfinity = true ∧ c.costScale.atMost (.whole 0) = false := by
  rw [IsTaken, isOrdered_iff, IsScaled, atMost_zero_iff, and_assoc]

instance : DecidablePred IsOrdered := fun _ => decidable_of_iff _ isOrdered_iff.symm

instance : DecidablePred IsScaled := fun _ => decidable_of_iff _ less_zero_iff

instance : DecidablePred IsTaken := fun _ => decidable_of_iff _ isTaken_iff.symm

/-- Settings that pass both guards are taken as they are given. -/
theorem ofSettings_taken (h : c.IsTaken) : ofSettings (.number c.paddingSentinel)
    (.number c.searchInfinity) c.validateInputs (.number c.costScale) = .ok c := by
  rcases isTaken_iff.mp h with ⟨hpositive, hbelow, hscale⟩
  exact ofSettings_eq hpositive hbelow hscale

/-- Sentinels out of order are refused, whatever the scale is. -/
theorem ofSettings_misordered (h : ¬ c.IsOrdered) : ofSettings (.number c.paddingSentinel)
    (.number c.searchInfinity) c.validateInputs (.number c.costScale) =
      .error (.sentinelOrder (.number c.paddingSentinel) (.number c.searchInfinity)) := by
  rw [isOrdered_iff, not_and_or, Bool.not_eq_true, Bool.not_eq_true] at h
  simp only [ofSettings, numeric, Datum.number?, bind, Except.bind]
  -- Both comparisons are made by one guard, with one reason. The first of them goes first.
  rcases h with hpositive | hbelow
  · rw [hpositive]
    rfl
  · cases Number.less (.real 0.0) c.paddingSentinel with
    | false => rfl
    | true =>
      rw [hbelow]
      rfl

/-- A scale that is at most zero is refused. -/
theorem ofSettings_misscaled (hordered : c.IsOrdered) (h : ¬ c.IsTaken) :
    ofSettings (.number c.paddingSentinel) (.number c.searchInfinity) c.validateInputs
      (.number c.costScale) = .error (.scaleNotPositive (.number c.costScale)) := by
  rcases isOrdered_iff.mp hordered with ⟨hpositive, hbelow⟩
  -- The sentinels are in order, so it is the scale that was not taken.
  have hscale : c.costScale.atMost (.whole 0) = true := by
    by_contra hscale
    exact h (isTaken_iff.mpr ⟨hpositive, hbelow, Bool.not_eq_true _ ▸ hscale⟩)
  simp only [ofSettings, numeric, Datum.number?, hpositive, hbelow, hscale, bind, Except.bind]
  rfl

end

/-- For numbers of any kind and size that are given as settings, at once or in a file and with
    the defaults of those that are left out, there is a configuration exactly if the sentinels
    are in order and the scale is above zero or no number, and it has the settings as they were
    given. Otherwise the sentinels or the scale are refused. Whatever is asked for, there is no
    configuration out of this order. -/
theorem made_iff_isTaken (look : Location → Entry) :
    (∀ entries c answer, given? entries = some c → Asked look entries answer →
      (answer = .ok c ↔ c.IsTaken) ∧
      (¬ c.IsOrdered →
        answer = .error (.sentinelOrder (.number c.paddingSentinel) (.number c.searchInfinity))) ∧
      (c.IsOrdered → ¬ c.IsTaken → answer = .error (.scaleNotPositive (.number c.costScale)))) ∧
    (∀ entries c, build entries = .ok c → c.IsTaken) ∧
    ∀ place c, load look place = .ok c → c.IsTaken := by
  -- No configuration is out of order, also if its entries are no numbers or are missing.
  have hbuild : ∀ entries c, build entries = .ok c → c.IsTaken :=
    fun entries c h => isTaken_iff.mpr (build_ordered h)
  refine ⟨fun entries c answer hgiven hasked => ?_, hbuild, fun place c h => ?_⟩
  · have hanswer := hasked.eq_build.trans (build_of_given hgiven)
    refine ⟨⟨fun h => hbuild entries c (hasked.eq_build ▸ h), fun h => ?_⟩, fun h => ?_,
      fun hordered h => ?_⟩
    · exact hanswer.trans (ofSettings_taken h)
    · exact hanswer.trans (ofSettings_misordered h)
    · exact hanswer.trans (ofSettings_misscaled hordered h)
  · rcases exists_build_of_load h with ⟨entries, h⟩
    exact hbuild entries c h

/-! ### Sentinels one apart, and a scale that is no number -/

/-- A sentinel that is a double, with the next integer behind it, and a scale that is no number. -/
def closeAndScaleless (place : Location) : Entry :=
  if place = { slashes := 0, names := ["c.yaml"] } then
    .file ("\"solver\":\n  \"padding_sentinel\": 9007199254740992.0\n" ++
      "  \"search_infinity\": 9007199254740993\n")
  else if place = { slashes := 0, names := ["s.yaml"] } then
    .file "\"solver\":\n  \"ortools_cost_scale\": .nan\n"
  else .missing

theorem exists_asked {place : Location} {text : String} {p : Config → Prop} [DecidablePred p]
    (htext : readText closeAndScaleless place = .ok text)
    (hread : (((Yaml.read text).toOption.bind solverEntries?).bind given?).any
      (fun c => decide (p c)) = true) :
    ∃ entries c, given? entries = some c ∧
      Asked closeAndScaleless entries (load closeAndScaleless place) ∧ p c := by
  -- Reading, the section and its settings are computed in one go and taken apart here.
  rcases (Option.any_eq_true _ _).mp hread with ⟨c, hc, hp⟩
  rcases Option.bind_eq_some_iff.mp hc with ⟨entries, hentries, hgiven⟩
  rcases Option.bind_eq_some_iff.mp hentries with ⟨document, hdocument, hsolver⟩
  have hopens : readText closeAndScaleless place >>= Yaml.read = .ok document :=
    bind_eq_ok_iff.mpr ⟨text, htext, toOption_eq_some_iff.mp hdocument⟩
  exact ⟨entries, c, hgiven, .load hopens hsolver, of_decide_eq_true hp⟩

/-- The sentinels of the file the other way round. -/
def swappedSentinels : Config :=
  { default with
    paddingSentinel := .whole 9007199254740993
    searchInfinity := .real 9007199254740992.0 }

/-- A double and the next integer are told apart: they are taken in their order, and refused the
    other way round. -/
theorem made_iff_isTaken_closeSentinels :
    (∃ entries c, given? entries = some c ∧
      Asked closeAndScaleless entries
        (load closeAndScaleless { slashes := 0, names := ["c.yaml"] }) ∧
      c.IsOrdered ∧ load closeAndScaleless { slashes := 0, names := ["c.yaml"] } = .ok c) ∧
    (∃ entries, given? entries = some swappedSentinels ∧ ¬ swappedSentinels.IsOrdered ∧
      build entries = .error (.sentinelOrder (.number swappedSentinels.paddingSentinel)
        (.number swappedSentinels.searchInfinity))) := by
  constructor
  · rcases @exists_asked { slashes := 0, names := ["c.yaml"] } _ IsTaken _ rfl
      (by decide +kernel) with ⟨entries, c, hgiven, hasked, htaken⟩
    have hload := (((made_iff_isTaken closeAndScaleless).1 entries c _ hgiven hasked).1).mpr htaken
    exact ⟨entries, c, hgiven, hasked, htaken.1, hload⟩
  · have hswapped : ¬ swappedSentinels.IsOrdered := by decide +kernel
    have hgiven : given? [(.text "padding_sentinel", .number (.whole 9007199254740993)),
        (.text "search_infinity", .number (.real 9007199254740992.0))] =
          some swappedSentinels := rfl
    have hbuild := ((made_iff_isTaken closeAndScaleless).1 _ _ _ hgiven .build).2.1 hswapped
    exact ⟨_, hgiven, hswapped, hbuild⟩

/-- A scale that is no number is taken, at once and from a file. It is not above zero. -/
theorem made_scaleless :
    (∃ c, build [(.text "ortools_cost_scale", .number (.real (0.0 / 0.0)))] = .ok c ∧
      ¬ c.IsScaled) ∧
    ∃ c, load closeAndScaleless { slashes := 0, names := ["s.yaml"] } = .ok c ∧ ¬ c.IsScaled := by
  constructor
  · have hgiven : given? [(.text "ortools_cost_scale", .number (.real (0.0 / 0.0)))] =
        some { default with costScale := .real (0.0 / 0.0) } := rfl
    exact ⟨_, (build_of_given hgiven).trans (ofSettings_taken (by decide +kernel)),
      by decide +kernel⟩
  · rcases @exists_asked { slashes := 0, names := ["s.yaml"] } _
      (fun c => c.IsTaken ∧ ¬ c.IsScaled) _ rfl (by decide +kernel) with
      ⟨entries, c, hgiven, hasked, htaken, hscale⟩
    have hload := (hasked.eq_build.trans (build_of_given hgiven)).trans (ofSettings_taken htaken)
    exact ⟨c, hload, hscale⟩

end Config

end Roster
