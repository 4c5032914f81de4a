import Roster.Proofs.Number.Order
import Roster.Proofs.Number.Range

/-!
# Values of Numbers

A number in the form in which it was given has a value: a rational one, an infinite one, or none
if it is no number. Comparison is that of values, for any two kinds of numbers and without a
rounding, however large an integer is.

Between integers there is nothing to show, and a double is compared with an integer by its digits
already. Two doubles are compared by their exponents first, and only then by their digits. That
is the order of values because a double has as many digits as its exponent leaves it: the only
doubles that have fewer are those of the least exponent, and nothing lies below that.

## Main definitions

* `Extended`: Rational values and the two infinite ones.
* `Binary64.extended?`, `Number.value?`: The value of a double and of a number.
* `Binary64.value`: The value of a finite double as a rational number.
* `Binary64.HasPlaces`: What the exponent says of the digits.
* `Number.IsBelow`: Exact order of two numbers.

## Theorems

* `Binary64.extended?_eq`: The value of a double by its unpacked form.
* `Binary64.value_eq`: The value of a double as a rational number, if it is one.
* `Binary64.unpacked_compare_value`, `Binary64.lt_iff_extended`: Doubles compare as their values.
* `Binary64.compareInt?_eq`: A double and an integer compare as their values.
* `Number.compare?_eq`: Numbers compare as their values.
* `Number.less_iff`, `Number.atMost_iff`: The two comparisons of numbers by their values.
-/

namespace Roster

/-- Rational values and the two infinite ones. -/
abbrev Extended : Type := WithBot (WithTop ℚ)

/-- A rational value. -/
def Extended.ofRat (q : ℚ) : Extended := ((q : WithTop ℚ) : Extended)

theorem Extended.strictMono_ofRat : StrictMono ofRat := fun _ _ h =>
  WithBot.coe_lt_coe.mpr (WithTop.coe_lt_coe.mpr h)

theorem Extended.compare_ofRat (p q : ℚ) : compare (ofRat p) (ofRat q) = compare p q := by
  rw [← cmp_eq_compare, ← cmp_eq_compare]
  exact strictMono_ofRat.cmp_map_eq p q

theorem Extended.compare_ofRat_neg (p q : ℚ) :
    compare (ofRat (-p)) (ofRat (-q)) = (compare p q).swap := by
  have hanti : StrictAnti fun r : ℚ => -r := fun _ _ h => neg_lt_neg h
  rw [compare_ofRat, ← cmp_eq_compare, ← cmp_eq_compare, cmp_swap]
  exact hanti.cmp_map_eq p q

theorem Extended.compare_intCast (i j : ℤ) : compare (ofRat i) (ofRat j) = compare i j := by
  have hcast : StrictMono fun k : ℤ => (k : ℚ) := Int.cast_strictMono
  rw [compare_ofRat, ← cmp_eq_compare, ← cmp_eq_compare]
  exact hcast.cmp_map_eq i j

namespace Binary64

open Float.Model (Format UnpackedFloat)
open Float.Model.UnpackedFloat (Sign packComponents)

/-! ### The value of a double -/

/-- The value of a double; none if it is no number. -/
def extended? (x : Float) : Option Extended :=
  match content x with
  | .nan => none
  | .infinite negative => some (if negative then ⊥ else ⊤)
  | .finite negative m e => some (.ofRat (if negative then -(m * 2 ^ e) else m * 2 ^ e))

/-- The value of an unpacked double. -/
def unpackedValue? : UnpackedFloat → Option Extended
  | .notANumber => none
  | .infinity .negative => some ⊥
  | .infinity .positive => some ⊤
  | .zero _ => some (.ofRat 0)
  | .finite .negative m e _ => some (.ofRat (-(m * 2 ^ e)))
  | .finite .positive m e _ => some (.ofRat (m * 2 ^ e))

theorem unpack_special {s : Sign} {e : BitVec 11} {m : BitVec 52} (he : e.toNat = 2047) :
    UnpackedFloat.unpack Format.binary64 (packComponents Format.binary64 s e m) =
      if m.toNat = 0 then .infinity s else .notANumber := by
  have hone : e = -1#11 := BitVec.eq_of_toNat_eq he
  have hm : m = 0#52 ↔ m.toNat = 0 := by
    rw [← BitVec.toNat_inj]
    rfl
  unfold UnpackedFloat.unpack
  simp only [UnpackedFloat.unpackExponent_packComponents,
    UnpackedFloat.unpackMantissa_packComponents, UnpackedFloat.unpackSign_packComponents,
    Sign.ofBitVec_toBitVec]
  rw [if_pos hone]
  exact if_congr hm rfl rfl

/-- The value of a double by its unpacked form. -/
theorem extended?_eq (x : Float) : extended? x = unpackedValue? x.toModel.unpack := by
  rcases x with ⟨x⟩
  rcases exists_fields x.toBits.toBitVec with ⟨s, e, m, hbits⟩
  have he := e.isLt
  rw [extended?, content_ofModel hbits, unpack_ofModel hbits]
  by_cases htop : e.toNat = 2047
  · rw [unpack_special htop, if_pos htop]
    by_cases hm0 : m.toNat = 0
    · rw [if_pos hm0, if_pos hm0]
      cases s with
      | negative => rfl
      | positive => rfl
    · rw [if_neg hm0, if_neg hm0]
      rfl
  rw [if_neg htop]
  by_cases he0 : e.toNat = 0
  · rw [if_pos he0]
    by_cases hm0 : m.toNat = 0
    · -- Both zeros have one value.
      rw [unpack_zeros he0 hm0, hm0]
      simp [unpackedValue?]
    · rw [unpack_subnormal he0 hm0]
      cases s with
      | negative => rfl
      | positive => rfl
  · rw [if_neg he0, unpack_normal he0 (by omega)]
    cases s with
    | negative => rfl
    | positive => rfl

/-- Only what is no number has no value. -/
theorem extended?_eq_none_iff {x : Float} : extended? x = none ↔ x.isNaN = true := by
  have hnan : x.isNaN = x.toModel.unpack.isNaN := rfl
  rw [hnan, extended?_eq]
  rcases x.toModel.unpack with (_ | _) | _ | _ | ⟨_ | _, m, e, hm⟩ <;>
    simp [unpackedValue?, UnpackedFloat.isNaN]

/-! ### The order of doubles -/

/-- What the exponent of an unpacked double says of its digits: there are fifty-three of them, or
    fewer at the least exponent. -/
def HasPlaces : UnpackedFloat → Prop
  | .finite _ m e _ => m < 2 ^ 53 ∧ -1074 ≤ e ∧ (m < 2 ^ 52 → e = -1074)
  | _ => True

theorem hasPlaces_unpack (x : Float) : HasPlaces x.toModel.unpack := by
  rcases x with ⟨x⟩
  rcases exists_fields x.toBits.toBitVec with ⟨s, e, m, hbits⟩
  have he := e.isLt
  have hm := m.isLt
  rw [unpack_ofModel hbits]
  by_cases htop : e.toNat = 2047
  · rw [unpack_special htop]
    split
    · trivial
    · trivial
  -- Below the least normal number the leading digit may be missing.
  by_cases he0 : e.toNat = 0
  · by_cases hm0 : m.toNat = 0
    · rw [unpack_zeros he0 hm0]
      trivial
    · rw [unpack_subnormal he0 hm0]
      exact ⟨by omega, le_rfl, fun _ => rfl⟩
  · rw [unpack_normal he0 (by omega)]
    exact ⟨by omega, by omega, fun _ => by omega⟩

/-- A double of a greater exponent is greater, as it has all of its digits. -/
theorem digits_lt {m m' : ℕ} {e e' : ℤ} (hm : m < 2 ^ 53) (hm' : 2 ^ 52 ≤ m') (he : e < e') :
    (m : ℚ) * 2 ^ e < m' * 2 ^ e' := by
  have hdigits : (m : ℚ) < 2 ^ 53 := by exact_mod_cast hm
  have hdigits' : (2 : ℚ) ^ 52 ≤ m' := by exact_mod_cast hm'
  have hpow : (0 : ℚ) < 2 ^ e := zpow_pos two_pos e
  calc (m : ℚ) * 2 ^ e < 2 ^ 53 * 2 ^ e := mul_lt_mul_of_pos_right hdigits hpow
    _ = 2 ^ 52 * 2 ^ (e + 1) := by rw [zpow_add_one₀ two_ne_zero]; ring
    _ ≤ m' * 2 ^ (e + 1) := mul_le_mul_of_nonneg_right hdigits' (zpow_pos two_pos _).le
    _ ≤ m' * 2 ^ e' := mul_le_mul_of_nonneg_left
        (zpow_le_zpow_right₀ one_le_two (Int.add_one_le_of_lt he)) (Nat.cast_nonneg _)

/-- The exponents and then the digits decide as the values do. -/
theorem compare_digits {s s' : Sign} {m m' : ℕ} {e e' : ℤ} {hm : 0 < m} {hm' : 0 < m'}
    (h : HasPlaces (.finite s m e hm)) (h' : HasPlaces (.finite s' m' e' hm')) :
    (compare e e').then (compare m m') = compare ((m : ℚ) * 2 ^ e) (m' * 2 ^ e') := by
  rcases h with ⟨hdigits, hlow, hfull⟩
  rcases h' with ⟨hdigits', hlow', hfull'⟩
  -- If the exponents differ, they settle it; if not, the digits stand in the same places.
  rcases lt_trichotomy e e' with he | rfl | he
  · rw [compare_lt_iff_lt.mpr he, compare_lt_iff_lt.mpr (digits_lt hdigits (by omega) he)]
    rfl
  · have hmono : StrictMono fun k : ℕ => (k : ℚ) * 2 ^ e := fun _ _ hlt =>
      mul_lt_mul_of_pos_right (Nat.cast_lt.mpr hlt) (zpow_pos two_pos e)
    rw [compare_eq_iff_eq.mpr rfl, ← cmp_eq_compare, ← cmp_eq_compare]
    exact (hmono.cmp_map_eq m m').symm
  · rw [compare_gt_iff_gt.mpr he, compare_gt_iff_gt.mpr (digits_lt hdigits' (by omega) he)]
    rfl

theorem ofRat_negative_lt {m : ℕ} (hm : 0 < m) (e : ℤ) :
    Extended.ofRat (-(m * 2 ^ e)) < .ofRat 0 :=
  Extended.strictMono_ofRat (neg_lt_zero.mpr (mul_pos (Nat.cast_pos.mpr hm) (zpow_pos two_pos e)))

theorem lt_ofRat_positive {m : ℕ} (hm : 0 < m) (e : ℤ) :
    Extended.ofRat 0 < .ofRat (m * 2 ^ e) :=
  Extended.strictMono_ofRat (mul_pos (Nat.cast_pos.mpr hm) (zpow_pos two_pos e))

/-- Finite doubles compare by their signs first, and the digits count the other way round below
    zero. -/
theorem finite_compare_value {s s' : Sign} {m m' : ℕ} {e e' : ℤ} {hm : 0 < m} {hm' : 0 < m'}
    (h : HasPlaces (.finite s m e hm)) (h' : HasPlaces (.finite s' m' e' hm')) :
    (UnpackedFloat.finite s m e hm).compare (.finite s' m' e' hm') =
      (unpackedValue? (.finite s m e hm)).bind fun p =>
        (unpackedValue? (.finite s' m' e' hm')).map (compare p) := by
  have hdigits := compare_digits h h'
  cases s with
  | negative =>
    cases s' with
    | negative =>
      change some ((compare e e').then (compare m m')).swap = some (compare _ _)
      rw [hdigits, Extended.compare_ofRat_neg]
    | positive =>
      exact congrArg some (compare_lt_iff_lt.mpr
        ((ofRat_negative_lt hm e).trans (lt_ofRat_positive hm' e'))).symm
  | positive =>
    cases s' with
    | negative =>
      exact congrArg some (compare_gt_iff_gt.mpr
        ((ofRat_negative_lt hm' e').trans (lt_ofRat_positive hm e))).symm
    | positive =>
      change some ((compare e e').then (compare m m')) = some (compare _ _)
      rw [hdigits, Extended.compare_ofRat]

/-- Unpacked doubles compare as their values. -/
theorem unpacked_compare_value {u w : UnpackedFloat} (hu : HasPlaces u) (hw : HasPlaces w) :
    u.compare w = (unpackedValue? u).bind fun p => (unpackedValue? w).map (compare p) := by
  rcases u with (_ | _) | _ | _ | ⟨_ | _, m, e, hm⟩ <;>
  rcases w with (_ | _) | _ | _ | ⟨_ | _, m', e', hm'⟩ <;>
  -- What is infinite or no number is told apart by computation.
  try first
  | rfl
  | exact finite_compare_value hu hw
  -- A zero is left, with a finite number on its one side or the other.
  · exact congrArg some (compare_gt_iff_gt.mpr (ofRat_negative_lt hm' e')).symm
  · exact congrArg some (compare_lt_iff_lt.mpr (lt_ofRat_positive hm' e')).symm
  · exact congrArg some (compare_lt_iff_lt.mpr (ofRat_negative_lt hm e)).symm
  · exact congrArg some (compare_gt_iff_gt.mpr (lt_ofRat_positive hm e)).symm

theorem compare_unpack (x y : Float) : x.toModel.unpack.compare y.toModel.unpack =
    (extended? x).bind fun p => (extended? y).map (compare p) := by
  rw [unpacked_compare_value (hasPlaces_unpack x) (hasPlaces_unpack y), extended?_eq, extended?_eq]

/-- A double lies below another if its value does. -/
theorem lt_iff_extended {x y : Float} :
    x < y ↔ ∃ p q, extended? x = some p ∧ extended? y = some q ∧ p < q := by
  rw [lt_iff_compare, compare_unpack]
  cases extended? x with
  | none => simp
  | some p =>
    cases extended? y with
    | none => simp
    | some q => simpa using compare_lt_iff_lt

/-! ### Doubles and integers -/

theorem quotient_spec (m : ℕ) (e : ℤ) :
    0 < (quotient m e).2 ∧ ((quotient m e).1 : ℚ) = m * 2 ^ e * (quotient m e).2 := by
  -- A negative exponent goes into the bottom, any other into the top.
  rcases lt_or_ge e 0 with he | he
  · have hinverse : (2 : ℚ) ^ e * 2 ^ (-e).toNat = 1 := by
      rw [← zpow_natCast, ← zpow_add₀ two_ne_zero, Int.toNat_of_nonneg (by omega), add_neg_cancel,
        zpow_zero]
    rw [quotient, if_neg (by omega)]
    refine ⟨Nat.two_pow_pos _, ?_⟩
    rw [Nat.pow_eq, Nat.cast_pow, Nat.cast_ofNat, mul_assoc, hinverse, mul_one]
  · have hpow : (2 : ℚ) ^ e = 2 ^ e.toNat := by
      rw [← zpow_natCast, Int.toNat_of_nonneg he]
    rw [quotient, if_pos he]
    refine ⟨one_pos, ?_⟩
    rw [Nat.pow_eq, Nat.cast_mul, Nat.cast_pow, Nat.cast_ofNat, hpow, Nat.cast_one, mul_one]

/-- The value of a double as a rational number, zero if it is none. -/
def value (x : Float) : ℚ := (toRat? x).getD 0

theorem mkRat_quotient (m : ℕ) (e : ℤ) :
    mkRat (quotient m e).1 (quotient m e).2 = m * 2 ^ e := by
  rcases quotient_spec m e with ⟨hbottom, htop⟩
  rw [Rat.mkRat_eq_div, Int.cast_natCast, htop]
  exact mul_div_cancel_right₀ _ (Nat.cast_ne_zero.mpr hbottom.ne')

theorem value_eq {x : Float} {q : ℚ} (h : extended? x = some (.ofRat q)) : value x = q := by
  rw [extended?] at h
  rw [value, toRat?]
  cases hx : content x with
  | nan =>
    rw [hx] at h
    exact absurd h (by simp)
  | infinite negative =>
    rw [hx] at h
    cases negative with
    | true => exact absurd (Option.some.inj h) (WithBot.coe_ne_bot).symm
    | false => exact absurd (WithBot.coe_injective (Option.some.inj h)) WithTop.top_ne_coe
  | finite negative m e =>
    rw [hx] at h
    simp only [mkRat_quotient, Option.getD_some]
    exact Extended.strictMono_ofRat.injective (Option.some.inj h)

/-- A quotient is compared with an integer by its two parts. -/
theorem compare_mul_bottom {top i : ℤ} {bottom : ℕ} {q : ℚ} (hbottom : 0 < bottom)
    (htop : (top : ℚ) = q * bottom) : compare top (i * bottom) = compare q i := by
  have hmono : StrictMono fun r : ℚ => r * bottom :=
    fun _ _ h => mul_lt_mul_of_pos_right h (Nat.cast_pos.mpr hbottom)
  have hcast : StrictMono fun k : ℤ => (k : ℚ) := Int.cast_strictMono
  rw [← cmp_eq_compare, ← cmp_eq_compare, ← hmono.cmp_map_eq q i, ← hcast.cmp_map_eq]
  push_cast
  rw [htop]

/-- A double and an integer compare as their values. -/
theorem compareInt?_eq (x : Float) (i : ℤ) :
    compareInt? x i = (extended? x).map fun p => compare p (.ofRat i) := by
  unfold compareInt? extended?
  cases content x with
  | nan => rfl
  | infinite negative =>
    cases negative with
    | true => rfl
    | false => rfl
  | finite negative m e =>
    rcases quotient_spec m e with ⟨hbottom, htop⟩
    cases negative with
    | true =>
      have hvalue : ((-(quotient m e).1 : ℤ) : ℚ) = -(m * 2 ^ e) * (quotient m e).2 := by
        push_cast
        rw [htop, neg_mul]
      exact congrArg some ((compare_mul_bottom hbottom hvalue).trans
        (Extended.compare_ofRat _ _).symm)
    | false =>
      have hvalue : (((quotient m e).1 : ℤ) : ℚ) = m * 2 ^ e * (quotient m e).2 := by
        rw [Int.cast_natCast, htop]
      exact congrArg some ((compare_mul_bottom hbottom hvalue).trans
        (Extended.compare_ofRat _ _).symm)

/-- The questions asked of two doubles, one after the other, settle their order. -/
theorem compare_real (x y : Float) :
    (if x < y then some .lt else if y < x then some .gt else if x == y then some .eq else none) =
      (extended? x).bind fun p => (extended? y).map (compare p) := by
  have heq : (x == y) = (x.toModel.unpack.compare y.toModel.unpack == some .eq) := rfl
  simp only [lt_iff_compare, heq, compare_unpack]
  cases extended? x with
  | none =>
    cases extended? y with
    | none => rfl
    | some q => rfl
  | some p =>
    cases extended? y with
    | none => rfl
    | some q =>
      simp only [Option.bind_some, Option.map_some, Option.some.injEq, compare_lt_iff_lt,
        beq_iff_eq, compare_eq_iff_eq]
      rcases lt_trichotomy p q with h | h | h
      · rw [if_pos h, compare_lt_iff_lt.mpr h]
      · rw [if_neg h.not_lt, if_neg h.not_gt, if_pos h, compare_eq_iff_eq.mpr h]
      · rw [if_neg h.not_gt, if_pos h, compare_gt_iff_gt.mpr h]

end Binary64

/-! ### The order of numbers -/

namespace Number

/-- The value of a number, however it is given; none if it is no number. -/
def value? : Number → Option Extended
  | .whole i => some (.ofRat i)
  | .real x => Binary64.extended? x
  | .truth b => some (.ofRat (if b then 1 else 0 : ℤ))

theorem compare?_whole_whole (i j : ℤ) : (whole i).compare? (whole j) =
    (whole i).value?.bind fun p => (whole j).value?.map (compare p) :=
  congrArg some (Extended.compare_intCast i j).symm

theorem compare?_real_whole (x : Float) (j : ℤ) : (real x).compare? (whole j) =
    (real x).value?.bind fun p => (whole j).value?.map (compare p) := by
  change Binary64.compareInt? x j = (Binary64.extended? x).bind fun p => some (compare p _)
  rw [Binary64.compareInt?_eq]
  cases Binary64.extended? x with
  | none => rfl
  | some p => rfl

theorem compare?_whole_real (i : ℤ) (y : Float) : (whole i).compare? (real y) =
    (whole i).value?.bind fun p => (real y).value?.map (compare p) := by
  change (Binary64.compareInt? y i).map Ordering.swap = (Binary64.extended? y).map (compare _)
  rw [Binary64.compareInt?_eq]
  cases Binary64.extended? y with
  | none => rfl
  | some q => exact congrArg some Std.OrientedCmp.eq_swap.symm

/-- Numbers of any two kinds compare as their values, without a rounding. -/
theorem compare?_eq (a b : Number) :
    a.compare? b = a.value?.bind fun p => b.value?.map (compare p) := by
  -- A truth value is the integer that it counts as, on either side.
  cases a with
  | whole i =>
    cases b with
    | whole j => exact compare?_whole_whole i j
    | real y => exact compare?_whole_real i y
    | truth d => exact compare?_whole_whole i _
  | real x =>
    cases b with
    | whole j => exact compare?_real_whole x j
    | real y => exact Binary64.compare_real x y
    | truth d => exact compare?_real_whole x _
  | truth c =>
    cases b with
    | whole j => exact compare?_whole_whole _ j
    | real y => exact compare?_whole_real _ y
    | truth d => exact compare?_whole_whole _ _

theorem value?_eq_none_iff {a : Number} : a.value? = none ↔ ∃ x, a = real x ∧ x.isNaN = true := by
  cases a with
  | whole i => simp [value?]
  | real x => simp [value?, Binary64.extended?_eq_none_iff]
  | truth b => simp [value?]

/-- Exact order of two numbers: both have a value, and the first lies below the second. -/
def IsBelow (a b : Number) : Prop :=
  ∃ p q, a.value? = some p ∧ b.value? = some q ∧ p < q

theorem less_iff {a b : Number} : a.less b = true ↔ a.IsBelow b := by
  rw [less, compare?_eq, IsBelow, beq_iff_eq]
  cases a.value? with
  | none => simp
  | some p =>
    cases b.value? with
    | none => simp
    | some q => simpa using compare_lt_iff_lt

theorem atMost_iff {a b : Number} :
    a.atMost b = true ↔ ∃ p q, a.value? = some p ∧ b.value? = some q ∧ p ≤ q := by
  rw [atMost, compare?_eq]
  cases a.value? with
  | none => simp
  | some p =>
    cases b.value? with
    | none => simp
    | some q =>
      rcases lt_trichotomy p q with h | h | h
      · simp [compare_lt_iff_lt.mpr h, h.le]
      · simp [h]
      · simp [compare_gt_iff_gt.mpr h, h]

end Number

end Roster
