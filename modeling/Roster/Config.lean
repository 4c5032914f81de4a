import Roster.Fault

/-!
# Solver Configuration

Four settings: the cost of the cells that make a matrix square, the value that stands
for "not reached yet" in a search, whether matrices are checked, and the factor that
makes costs whole for the integer solver.

A configuration exists only if `0 < padding < infinity` and the factor passes its own
check; a setting that cannot be compared with a number at all is a fault of another
kind. The comparisons come in this order and a later one is not made when an earlier
one settles the outcome. No setting is converted: it is kept in the form in which it
was given.

## Main definitions

* `Config`: The settings of a solver.
* `Config.build`: A configuration from settings by name.
* `Config.default`: The configuration without any setting given.
-/

namespace Roster

/-- The settings of a solver, each in the form in which it was given. -/
structure Config where
  paddingSentinel : Number
  searchInfinity : Number
  validateInputs : Datum
  costScale : Number

namespace Config

/-- The configuration without any setting given. -/
def default : Config where
  paddingSentinel := .real 1.0e9
  searchInfinity := .real 1.0e18
  validateInputs := .number (.truth true)
  costScale := .whole 1000

/-- Whether matrices are checked before they are solved. -/
def validates (c : Config) : Bool := c.validateInputs.truthy

/-- The names of the settings. -/
def settingNames : List String :=
  ["padding_sentinel", "search_infinity", "validate_inputs", "ortools_cost_scale"]

/-- The settings as data, in their order. -/
def settings (c : Config) : List (String × Datum) :=
  [("padding_sentinel", .number c.paddingSentinel), ("search_infinity", .number c.searchInfinity),
    ("validate_inputs", c.validateInputs), ("ortools_cost_scale", .number c.costScale)]

/-- The number that a setting holds. -/
def numeric (d : Datum) : Except Fault Number :=
  match d.number? with
  | some n => .ok n
  | none => .error .wrongKind

/-- A configuration from its four settings, if they are in order. -/
def ofSettings (padding infinity validate scale : Datum) : Except Fault Config := do
  let sentinel ← numeric padding
  if !Number.less (.real 0.0) sentinel then throw (.sentinelOrder padding infinity)
  let reach ← numeric infinity
  if !sentinel.less reach then throw (.sentinelOrder padding infinity)
  let factor ← numeric scale
  if factor.atMost (.whole 0) then throw (.scaleNotPositive scale)
  return { paddingSentinel := sentinel, searchInfinity := reach, validateInputs := validate,
           costScale := factor }

/-- A setting by name, or its default. -/
def setting (entries : List (Datum × Datum)) (name : String) (otherwise : Datum) : Datum :=
  (Datum.lookup? name entries).getD otherwise

/-- Whether an entry names one of the settings. -/
def isSetting : Datum × Datum → Bool
  | (.text name, _) => settingNames.contains name
  | _ => false

/-- A configuration from settings by name. A name that is no setting is refused before any
    value is looked at; a setting that is not named has its default. -/
def build (entries : List (Datum × Datum)) : Except Fault Config :=
  if entries.all isSetting then
    ofSettings (setting entries "padding_sentinel" (.number default.paddingSentinel))
      (setting entries "search_infinity" (.number default.searchInfinity))
      (setting entries "validate_inputs" default.validateInputs)
      (setting entries "ortools_cost_scale" (.number default.costScale))
  else .error .wrongKind

/-- The configuration that a document describes: its `solver` section, if it has one. A
    document that counts as false describes nothing. -/
def ofDocument (document : Datum) : Except Fault Config :=
  if !document.truthy then build []
  else
    match document.opened with
    | .mapping entries =>
      match (Datum.lookup? "solver" entries).map Datum.opened with
      | none => build []
      | some (.mapping chosen) => build chosen
      | some _ => .error .wrongKind
    | _ => .error .lacksField

/-- Whether two settings are equal: numbers by value, all else as keys are. -/
def sameSetting (a b : Datum) : Bool := a.sameKey b

/-- Whether all settings equal those of another configuration. -/
def same (a b : Config) : Bool :=
  a.paddingSentinel.same b.paddingSentinel && a.searchInfinity.same b.searchInfinity &&
    sameSetting a.validateInputs b.validateInputs && a.costScale.same b.costScale

end Config

end Roster
