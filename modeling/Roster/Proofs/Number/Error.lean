import Roster.Proofs.Number.Value

/-!
# Rounding Errors of Doubles

A sum of doubles is brought to fifty-three digits, and what is lost by that is less than one in
the last of them. So it is a small part of the sum, however the digits are rounded: no more than
one in `2 ^ 52`. Nothing at all is lost below the least exponent, since two doubles have no
digits there, and so neither has their sum.

A number that is rounded up may come to have a digit too many. It is shifted once more then, but
the digit that goes is a zero. Packing loses nothing either, as long as the exponent fits.

## Main definitions

* `Binary64.Valued`: Finite unpacked doubles with their values.

## Theorems

* `Binary64.normalize_close`: What rounding loses is a small part of the number.
* `Binary64.Valued.unpack_pack`: Nothing is lost when a double in range is packed.
* `Binary64.lt_iff_value`: Finite doubles compare as their values.
* `Binary64.add_close`, `Binary64.sub_close`: Sums and differences of doubles are close to those
  of their values.
-/

namespace Roster

namespace Binary64

open Float.Model (Format UnpackedFloat totalExponent)
open Float.Model.UnpackedFloat (Sign packComponents ExtendedMantissa decreaseExponent
  shiftToTargetExponent)

/-- A finite unpacked double of a value. -/
inductive Valued : UnpackedFloat → ℚ → Prop
  | zero (s : Sign) : Valued (.zero s) 0
  | finite {s : Sign} {m : ℕ} {e : ℤ} {hm : 0 < m} (h : HasPlaces (.finite s m e hm)) :
    Valued (.finite s m e hm) ((s.apply m : ℤ) * 2 ^ e)

/-! ### Rounding -/

theorem le_roundedMantissa (em : ExtendedMantissa) : em.mantissa ≤ em.roundedMantissa := by
  rcases em with ⟨m, _ | _, _ | _⟩
  · exact le_rfl
  · exact le_rfl
  · exact Nat.le_add_right _ _
  · exact Nat.le_succ m

section

variable {m d : ℕ}

/-- The digits that are left after a shift, rounded in one way or the other. -/
def rounded (m d : ℕ) : ℕ :=
  (ExtendedMantissa.ofMantissaAndAccuracy m .exact >>> d).roundedMantissa

theorem rounded_zero (m : ℕ) : rounded m 0 = m := by
  have hexact := shiftRight_exact m 0
  rw [pow_zero, mul_one] at hexact
  rw [rounded, hexact]
  rfl

theorem div_le_rounded (m d : ℕ) : m / 2 ^ d ≤ rounded m d := by
  have hle := le_roundedMantissa (ExtendedMantissa.ofMantissaAndAccuracy m .exact >>> d)
  rwa [mantissa_shiftRight] at hle

theorem rounded_le_div (m d : ℕ) : rounded m d ≤ m / 2 ^ d + 1 := by
  have hle := roundedMantissa_le_succ (ExtendedMantissa.ofMantissaAndAccuracy m .exact >>> d)
  rwa [mantissa_shiftRight] at hle

/-- Less than one in the last place is lost. -/
theorem rounded_close (m d : ℕ) : |(rounded m d : ℚ) * 2 ^ d - m| ≤ 2 ^ d := by
  have hpow := Nat.two_pow_pos d
  have hhigh : m < (m / 2 ^ d + 1) * 2 ^ d := mul_comm _ (2 ^ d) ▸ Nat.lt_mul_div_succ m hpow
  have hlow := Nat.div_mul_le_self m (2 ^ d)
  have hup : rounded m d * 2 ^ d ≤ m + 2 ^ d := by
    have h := Nat.mul_le_mul_right (2 ^ d) (rounded_le_div m d)
    rw [Nat.add_mul, Nat.one_mul] at h
    omega
  have hdown : m ≤ rounded m d * 2 ^ d + 2 ^ d := by
    have h := Nat.mul_le_mul_right (2 ^ d) (div_le_rounded m d)
    rw [Nat.add_mul, Nat.one_mul] at hhigh
    omega
  have hup' : (rounded m d : ℚ) * 2 ^ d ≤ m + 2 ^ d := by exact_mod_cast hup
  have hdown' : (m : ℚ) ≤ rounded m d * 2 ^ d + 2 ^ d := by exact_mod_cast hdown
  rw [abs_le]
  constructor <;> linarith

/-- A number with all of its digits keeps them. -/
theorem le_rounded (h : m.log2 = 52 + d) : 2 ^ 52 ≤ rounded m d := by
  have hne : m ≠ 0 := fun h0 => by
    rw [h0, Nat.log2_zero] at h
    omega
  refine le_trans ?_ (div_le_rounded m d)
  rw [Nat.le_div_iff_mul_le (Nat.two_pow_pos d), ← pow_add, ← h]
  exact Nat.log2_self_le hne

/-- It may come to have one digit more, as a power of two. -/
theorem rounded_le (h : m.log2 ≤ 52 + d) : rounded m d ≤ 2 ^ 53 := by
  have hlt : m < 2 ^ 53 * 2 ^ d := by
    rw [← pow_add]
    exact lt_two_pow_of_log2_lt (by omega)
  have hdiv := (Nat.div_lt_iff_lt_mul (Nat.two_pow_pos d)).mpr hlt
  exact (rounded_le_div m d).trans hdiv

end

/-- The exponent with which a number is rounded leaves it no more than its digits, and no place
    below the least one. -/
theorem add_shiftOf {m : ℕ} {e : ℤ} (h : 52 ≤ m.log2 ∨ e = -1074) :
    e + shiftOf m e = max (m.log2 + e - 52) (-1074) := by
  rw [shiftOf, targetExponent_cases, totalExponent]
  omega

/-- A second shift takes no more than a zero away. -/
theorem valued_shift (s : Sign) {r : ℕ} {e : ℤ} (hr : r ≤ 2 ^ 53) (he : -1074 ≤ e)
    (hfull : r < 2 ^ 52 → e = -1074) :
    Valued (if h : r / 2 ^ shiftOf r e = 0 then .zero s
      else .finite s (r / 2 ^ shiftOf r e) (e + shiftOf r e) (Nat.pos_of_ne_zero h))
      ((s.apply r : ℤ) * 2 ^ e) := by
  -- Only the power of two with one digit too many is shifted, and what it loses is a zero.
  rcases hr.lt_or_eq with hlt | rfl
  · have hkeep : shiftOf r e = 0 := by
      have hlog : r.log2 ≤ 52 := by
        by_cases h0 : r = 0
        · rw [h0, Nat.log2_zero]
          exact Nat.zero_le _
        · exact log2_le_of_lt h0 hlt
      rw [shiftOf, targetExponent_cases, totalExponent]
      omega
    simp only [hkeep, pow_zero, Nat.div_one, Nat.cast_zero, add_zero]
    by_cases h0 : r = 0
    · have hzero : (s.apply ((0 : ℕ) : ℤ) : ℤ) = 0 := by
        cases s with
        | negative => rfl
        | positive => rfl
      rw [dif_pos h0, h0, hzero, Int.cast_zero, zero_mul]
      exact .zero s
    · rw [dif_neg h0]
      exact .finite ⟨hlt, he, hfull⟩
  · have hone : shiftOf (2 ^ 53) e = 1 := by
      rw [shiftOf, targetExponent_cases, totalExponent, Nat.log2_two_pow]
      omega
    have hdigits : (s.apply ((2 ^ 53 : ℕ) : ℤ) : ℤ) = s.apply ((2 ^ 52 : ℕ) : ℤ) * 2 := by
      cases s with
      | negative => rfl
      | positive => rfl
    have hvalue : ((s.apply ((2 ^ 53 : ℕ) : ℤ) : ℤ) : ℚ) * 2 ^ e =
        (s.apply ((2 ^ 52 : ℕ) : ℤ) : ℤ) * 2 ^ (e + 1) := by
      rw [hdigits, zpow_add_one₀ two_ne_zero, Int.cast_mul, Int.cast_ofNat]
      ring
    rw [hvalue]
    simp only [hone]
    exact .finite ⟨by decide, by omega, fun h => absurd h (by decide)⟩

section

variable {m : ℕ} {e : ℤ}

/-- The double that a number is rounded to. -/
theorem roundWithAccuracy_valued (s : Sign) (he : -1074 ≤ e) (hm : 52 ≤ m.log2 ∨ e = -1074) :
    Valued (UnpackedFloat.roundWithAccuracy .binary64 s m e .exact)
      ((s.apply (rounded m (shiftOf m e)) : ℤ) * 2 ^ (e + shiftOf m e)) := by
  have hexponent := add_shiftOf hm
  have hshift : ∀ m e, shiftToTargetExponent .binary64 m e .exact =
      (ExtendedMantissa.ofMantissaAndAccuracy m .exact >>> shiftOf m e, e + shiftOf m e) :=
    fun _ _ => rfl
  unfold UnpackedFloat.roundWithAccuracy
  simp only [hshift, mantissa_shiftRight]
  refine valued_shift s (rounded_le (by omega)) (by omega) fun hless => ?_
  -- There are fewer digits than all only where the exponent is the least one.
  by_contra hne
  have hall : 2 ^ 52 ≤ rounded m (shiftOf m e) := le_rounded (by omega)
  exact absurd hless hall.not_gt

/-- What is lost is a small part of a number, unless it has no digits to lose. -/
theorem rounded_mul_close (he : -1074 ≤ e) (hm : 52 ≤ m.log2 ∨ e = -1074) :
    |(rounded m (shiftOf m e) : ℚ) * 2 ^ (e + shiftOf m e) - m * 2 ^ e| ≤ m * 2 ^ e / 2 ^ 52 := by
  have hpow : (0 : ℚ) < 2 ^ e := zpow_pos two_pos e
  by_cases h0 : shiftOf m e = 0
  · rw [h0, rounded_zero, Nat.cast_zero, add_zero, sub_self, abs_zero]
    positivity
  · -- The number has more digits than are left to it, so the last place is a small part of it.
    have hlog : m.log2 = 52 + shiftOf m e := by
      have hexponent := add_shiftOf hm
      omega
    have hplace : (2 : ℚ) ^ shiftOf m e ≤ m / 2 ^ 52 := by
      rw [le_div_iff₀ (by positivity), ← pow_add, add_comm, ← hlog]
      exact_mod_cast Nat.log2_self_le fun hm0 => by
        rw [hm0, Nat.log2_zero] at hlog
        omega
    have hscale : (rounded m (shiftOf m e) : ℚ) * 2 ^ (e + shiftOf m e) - m * 2 ^ e =
        (rounded m (shiftOf m e) * 2 ^ shiftOf m e - m) * 2 ^ e := by
      rw [zpow_add₀ two_ne_zero, zpow_natCast]
      ring
    rw [hscale, abs_mul, abs_of_pos hpow, mul_div_right_comm]
    exact mul_le_mul_of_nonneg_right ((rounded_close _ _).trans hplace) hpow.le

end

/-- More zeros at the end change nothing. -/
theorem decreaseExponent_value (m : ℕ) (e target : ℤ) :
    ((decreaseExponent m e target).1 : ℚ) * 2 ^ (decreaseExponent m e target).2 = m * 2 ^ e := by
  have hplaces : e = (e - (e - target).toNat) + (e - target).toNat := by omega
  simp only [decreaseExponent, Nat.shiftLeft_eq]
  conv_rhs => rw [hplaces, zpow_add₀ two_ne_zero, zpow_natCast]
  push_cast
  ring

theorem apply_mul (s : Sign) (m : ℕ) (x : ℚ) :
    ((s.apply m : ℤ) : ℚ) * x = s.apply 1 * (m * x) := by
  cases s with
  | negative => simp [Sign.apply]
  | positive => simp [Sign.apply]

theorem abs_apply_one (s : Sign) : |((s.apply 1 : ℤ) : ℚ)| = 1 := by
  cases s with
  | negative => simp [Sign.apply]
  | positive => simp [Sign.apply]

/-- Rounding loses a small part of a number. -/
theorem round_close (s : Sign) {m : ℕ} {e : ℤ} (hm : m ≠ 0) (he : -1074 ≤ e) :
    ∃ q, Valued (UnpackedFloat.round .binary64 s m e) q ∧
      |q - (s.apply m : ℤ) * 2 ^ e| ≤ m * 2 ^ e / 2 ^ 52 := by
  have hvalue := decreaseExponent_value m e (Format.binary64.targetExponent (totalExponent m e))
  have hlow : -1074 ≤ (decreaseExponent m e
      (Format.binary64.targetExponent (totalExponent m e))).2 := by
    simp only [decreaseExponent, targetExponent_cases]
    omega
  -- With enough zeros at its end, a number has all digits, or the least exponent.
  have hdigits : 52 ≤ (decreaseExponent m e
        (Format.binary64.targetExponent (totalExponent m e))).1.log2 ∨
      (decreaseExponent m e (Format.binary64.targetExponent (totalExponent m e))).2 = -1074 := by
    simp only [decreaseExponent, targetExponent_cases, Nat.shiftLeft_eq, log2_mul_two_pow hm,
      totalExponent]
    omega
  refine ⟨_, roundWithAccuracy_valued s hlow hdigits, ?_⟩
  have hclose := rounded_mul_close hlow hdigits
  rw [hvalue] at hclose
  rw [apply_mul s m, apply_mul, ← mul_sub, abs_mul, abs_apply_one, one_mul]
  exact hclose

theorem normalize_close (z : ℤ) {e : ℤ} (he : -1074 ≤ e) :
    ∃ q, Valued (UnpackedFloat.normalize .binary64 z e .positive) q ∧
      |q - z * 2 ^ e| ≤ |(z : ℚ) * 2 ^ e| / 2 ^ 52 := by
  have hpow : (0 : ℚ) < 2 ^ e := zpow_pos two_pos e
  unfold UnpackedFloat.normalize
  rw [abs_mul, abs_of_pos hpow]
  -- The sign goes into the double, and what is rounded is the number without it.
  rcases lt_trichotomy z 0 with hz | rfl | hz
  · rw [show compare z 0 = .lt from Int.compare_eq_lt.mpr hz]
    have hcast : (((-z).toNat : ℤ) : ℚ) = |(z : ℚ)| := by
      rw [Int.toNat_of_nonneg (by omega), abs_of_neg (Int.cast_lt_zero.mpr hz), Int.cast_neg]
    have happly : (Sign.negative.apply ((-z).toNat : ℤ) : ℤ) = z := by
      simp only [Sign.apply]
      omega
    have hround := round_close .negative (by omega : (-z).toNat ≠ 0) he
    rwa [happly, ← Int.cast_natCast, hcast] at hround
  · exact ⟨0, .zero _, by simp⟩
  · rw [show compare z 0 = .gt from Int.compare_eq_gt.mpr hz]
    have hcast : ((z.toNat : ℤ) : ℚ) = |(z : ℚ)| := by
      rw [Int.toNat_of_nonneg hz.le, abs_of_pos (Int.cast_pos.mpr hz)]
    have happly : (Sign.positive.apply (z.toNat : ℤ) : ℤ) = z := Int.toNat_of_nonneg hz.le
    have hround := round_close .positive (by omega : z.toNat ≠ 0) he
    rwa [happly, ← Int.cast_natCast, hcast] at hround

/-! ### Sums and differences -/

section

variable {u w : UnpackedFloat} {a b : ℚ}

/-- A double that is brought to a lesser exponent keeps its value. -/
theorem apply_decreaseExponent (s : Sign) (m : ℕ) {e target : ℤ} (h : target ≤ e) :
    ((s.apply (decreaseExponent m e target).1 : ℤ) : ℚ) * 2 ^ target = (s.apply m : ℤ) * 2 ^ e := by
  have hexponent : (decreaseExponent m e target).2 = target := by
    simp only [decreaseExponent]
    omega
  have hvalue := decreaseExponent_value m e target
  rw [hexponent] at hvalue
  rw [apply_mul, hvalue, ← apply_mul]

theorem Valued.add (hu : Valued u a) (hw : Valued w b) :
    ∃ q, Valued (u.add .binary64 w) q ∧ |q - (a + b)| ≤ |a + b| / 2 ^ 52 := by
  have hexact : ∀ {v : UnpackedFloat} {c : ℚ}, Valued v c →
      ∃ q, Valued v q ∧ |q - c| ≤ |c| / 2 ^ 52 := fun {_ c} hv =>
    ⟨c, hv, by rw [sub_self, abs_zero]; positivity⟩
  cases hu with
  | zero s =>
    rw [zero_add]
    cases hw with
    | zero s' =>
      simp only [UnpackedFloat.add]
      split
      · exact hexact (.zero s)
      · exact hexact (.zero .positive)
    | finite h' => exact hexact (.finite h')
  | @finite s m e _ h =>
    cases hw with
    | zero s' =>
      rw [add_zero]
      exact hexact (.finite h)
    | @finite s' m' e' _ h' =>
      -- At the lesser of the two exponents the digits are added as they are.
      have hleast : -1074 ≤ min e e' := le_min h.2.1 h'.2.1
      have hclose := normalize_close (s.apply (decreaseExponent m e (min e e')).1 +
        s'.apply (decreaseExponent m' e' (min e e')).1) hleast
      rw [Int.cast_add, add_mul, apply_decreaseExponent s m (min_le_left e e'),
        apply_decreaseExponent s' m' (min_le_right e e')] at hclose
      exact hclose

theorem apply_neg (s : Sign) (z : ℤ) : (-s).apply z = -s.apply z := by
  cases s with
  | negative => exact (neg_neg z).symm
  | positive => rfl

theorem Valued.neg (hw : Valued w b) : Valued w.neg (-b) := by
  cases hw with
  | zero s =>
    rw [neg_zero]
    exact .zero (-s)
  | @finite s m e hm h =>
    have hvalue : -(((s.apply m : ℤ) : ℚ) * 2 ^ e) = ((-s).apply m : ℤ) * 2 ^ e := by
      rw [apply_neg, Int.cast_neg, neg_mul]
    rw [hvalue]
    exact .finite h

/-- A difference is the sum with the other sign. -/
theorem sub_eq_add (hu : Valued u a) (hw : Valued w b) :
    u.sub .binary64 w = u.add .binary64 w.neg := by
  cases hu with
  | zero s =>
    cases hw with
    | zero s' => rfl
    | finite _ => rfl
  | finite _ =>
    cases hw with
    | zero s' => rfl
    | finite _ =>
      simp only [UnpackedFloat.sub, UnpackedFloat.add, UnpackedFloat.neg, apply_neg]
      rfl

theorem Valued.sub (hu : Valued u a) (hw : Valued w b) :
    ∃ q, Valued (u.sub .binary64 w) q ∧ |q - (a - b)| ≤ |a - b| / 2 ^ 52 := by
  rw [sub_eq_add hu hw, sub_eq_add_neg]
  exact hu.add hw.neg

end

/-! ### Packing -/

/-- Fewer digits than all are packed as they are, with no exponent. -/
theorem pack_subnormal {s : Sign} {m : ℕ} (hpos : 0 < m) (hm : m < 2 ^ 52) :
    UnpackedFloat.pack Format.binary64 (.finite s m (-1074) hpos) =
      packComponents Format.binary64 s 0 (BitVec.ofNat 52 m) := by
  have hlog : m.log2 < 52 := (Nat.log2_lt hpos.ne').mpr hm
  have hfew : ¬ m.log2 + 1 = Format.binary64.mantissaBits := by
    change ¬ m.log2 + 1 = 53
    omega
  have hrange : ¬ 2 ^ Format.binary64.exponentBits ≤
      (-1074 + (Format.binary64.exponentBias : ℤ) + (52 : ℕ)).toNat + 1 := by decide
  simp only [UnpackedFloat.pack, if_neg hrange, if_neg hfew]
  rfl

/-- The exponent of a double below `2 ^ 1024` that has all of its digits. -/
theorem exponent_le {m : ℕ} {e : ℤ} (hm : 2 ^ 52 ≤ m) (h : (m : ℚ) * 2 ^ e < 2 ^ 1024) :
    e ≤ 971 := by
  have hdigits : (2 : ℚ) ^ (52 : ℤ) ≤ m := by exact_mod_cast hm
  have hlt : (2 : ℚ) ^ (52 + e) < 2 ^ (1024 : ℤ) := by
    rw [zpow_add₀ two_ne_zero]
    exact (mul_le_mul_of_nonneg_right hdigits (zpow_pos two_pos e).le).trans_lt h
  have := (zpow_lt_zpow_iff_right₀ (one_lt_two (α := ℚ))).mp hlt
  omega

/-- Nothing is lost when a double in range is packed. -/
theorem Valued.unpack_pack {u : UnpackedFloat} {q : ℚ} (hu : Valued u q) (hq : |q| < 2 ^ 1024) :
    Valued (Float.Model.pack u).unpack q := by
  have hunpack : (Float.Model.pack u).unpack =
      UnpackedFloat.unpack Format.binary64 (UnpackedFloat.pack Format.binary64 u) := rfl
  rw [hunpack]
  cases hu with
  | zero s =>
    rw [show UnpackedFloat.unpack Format.binary64 (UnpackedFloat.pack Format.binary64 (.zero s)) =
      .zero s from UnpackedFloat.unpack_packedZero]
    exact .zero s
  | @finite s m e hm h =>
    have hplaces := h
    rcases h with ⟨hdigits, hlow, hfull⟩
    by_cases hall : 2 ^ 52 ≤ m
    · -- The first of the digits is not packed, and comes back with the exponent.
      have hhigh : e ≤ 971 := by
        refine exponent_le hall ?_
        rwa [apply_mul, abs_mul, abs_apply_one, one_mul, abs_of_nonneg (by positivity)] at hq
      have hlog : m.log2 = 52 := (Nat.log2_eq_iff hm.ne').mpr ⟨hall, hdigits⟩
      have hfield : (BitVec.ofNat 11 (e + 1075).toNat).toNat = (e + 1075).toNat := by
        rw [BitVec.toNat_ofNat]
        omega
      have hfirst : (BitVec.ofNat 52 m).toNat + 2 ^ 52 = m := by
        rw [BitVec.toNat_ofNat]
        omega
      have hexponent : ((e + 1075).toNat : ℤ) - 1075 = e := by omega
      rw [pack_finite hm hlog hlow hhigh, unpack_normal (by omega) (by omega)]
      simp only [hfield, hfirst, hexponent]
      exact .finite hplaces
    · obtain rfl := hfull (not_le.mp hall)
      -- Without the leading digit there is no exponent to pack.
      have hfraction : (BitVec.ofNat 52 m).toNat = m := by
        rw [BitVec.toNat_ofNat]
        omega
      rw [pack_subnormal hm (not_le.mp hall), unpack_subnormal rfl (by omega)]
      simp only [hfraction]
      exact .finite hplaces

/-! ### Doubles -/

section

variable {x y : Float} {a b : ℚ}

theorem Valued.unpackedValue? {u : UnpackedFloat} {q : ℚ} (hu : Valued u q) :
    unpackedValue? u = some (.ofRat q) := by
  cases hu with
  | zero s => rfl
  | @finite s m e hm h =>
    cases s with
    | negative => simp [Binary64.unpackedValue?, Sign.apply]
    | positive => simp [Binary64.unpackedValue?, Sign.apply]

theorem extended?_of_valued {q : ℚ} (h : Valued x.toModel.unpack q) :
    extended? x = some (.ofRat q) := by
  rw [extended?_eq, h.unpackedValue?]

/-- A finite double has its value. -/
theorem valued_value (h : x.isFinite = true) : Valued x.toModel.unpack (value x) := by
  have hvalued : ∃ q, Valued x.toModel.unpack q := by
    have hplaces := hasPlaces_unpack x
    change x.toModel.unpack.isFinite = true at h
    generalize x.toModel.unpack = u at h hplaces
    rcases u with _ | _ | s | ⟨s, m, e, hm⟩
    · exact absurd h Bool.false_ne_true
    · exact absurd h Bool.false_ne_true
    · exact ⟨0, .zero s⟩
    · exact ⟨_, .finite hplaces⟩
  rcases hvalued with ⟨q, hq⟩
  rwa [value_eq (extended?_of_valued hq)]

theorem extended?_of_isFinite (h : x.isFinite = true) : extended? x = some (.ofRat (value x)) :=
  extended?_of_valued (valued_value h)

theorem isFinite_of_extended? {q : ℚ} (h : extended? x = some (.ofRat q)) : x.isFinite = true := by
  rw [extended?_eq] at h
  change x.toModel.unpack.isFinite = true
  generalize x.toModel.unpack = u at h
  rcases u with (_ | _) | _ | s | ⟨s, m, e, hm⟩
  · exact absurd (Option.some.inj h) WithBot.bot_ne_coe
  · exact absurd (WithBot.coe_injective (Option.some.inj h)) WithTop.top_ne_coe
  · exact absurd h (by simp [unpackedValue?])
  · rfl
  · rfl

theorem lt_iff_value (hx : x.isFinite = true) (hy : y.isFinite = true) :
    x < y ↔ value x < value y := by
  rw [lt_iff_extended, extended?_of_isFinite hx, extended?_of_isFinite hy]
  simp only [Option.some.injEq, exists_and_left, exists_eq_left',
    Extended.strictMono_ofRat.lt_iff_lt]

theorem value_nonneg (hx : x.isFinite = true) (h : 0.0 ≤ x) : 0 ≤ value x := by
  have hzero : value 0.0 = 0 := by decide +kernel
  have hnumber : (key? 0.0).isSome := by decide
  rw [← not_lt, ← hzero, ← lt_iff_value hx rfl]
  exact (not_lt_iff (isSome_key?_of_isFinite hx) hnumber).mpr h

/-- What is packed without an overflow is as close to a number as it was before. -/
theorem close_of_valued {u : UnpackedFloat} {c : ℚ} (hx : x = .ofModel (.pack u))
    (hu : ∃ q, Valued u q ∧ |q - c| ≤ |c| / 2 ^ 52) (hc : |c| ≤ 2 ^ 1023) :
    x.isFinite = true ∧ |value x - c| ≤ |c| / 2 ^ 52 := by
  rcases hu with ⟨q, hq, hclose⟩
  -- The error is at most half of the number, so what is packed does not leave the range.
  have hrange : |q| < 2 ^ 1024 := by
    have hsum : |q| ≤ |q - c| + |c| := by
      have h := abs_add_le (q - c) c
      rwa [sub_add_cancel] at h
    have hpart : |c| / 2 ^ 52 ≤ |c| / 2 :=
      div_le_div_of_nonneg_left (abs_nonneg c) two_pos (by norm_num)
    have hpos : (0 : ℚ) < 2 ^ 1023 := pow_pos two_pos _
    rw [pow_succ]
    generalize (2 : ℚ) ^ 1023 = bound at hc hpos ⊢
    linarith
  have hextended : extended? x = some (.ofRat q) :=
    extended?_of_valued (hx ▸ hq.unpack_pack hrange)
  rw [value_eq hextended]
  exact ⟨isFinite_of_extended? hextended, hclose⟩

theorem add_close (hx : x.isFinite = true) (hy : y.isFinite = true)
    (h : |value x + value y| ≤ 2 ^ 1023) : (x + y).isFinite = true ∧
      |value (x + y) - (value x + value y)| ≤ |value x + value y| / 2 ^ 52 :=
  close_of_valued rfl ((valued_value hx).add (valued_value hy)) h

theorem sub_close (hx : x.isFinite = true) (hy : y.isFinite = true)
    (h : |value x - value y| ≤ 2 ^ 1023) : (x - y).isFinite = true ∧
      |value (x - y) - (value x - value y)| ≤ |value x - value y| / 2 ^ 52 :=
  close_of_valued rfl ((valued_value hx).sub (valued_value hy)) h

end

end Binary64

end Roster
