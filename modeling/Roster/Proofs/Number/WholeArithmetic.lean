import Roster.Proofs.Number.Order
import Roster.Proofs.Number.Whole

/-!
# Arithmetic of Whole Doubles

Doubles that hold whole numbers are added, subtracted and compared like these numbers, as long
as nothing that comes out has more than fifty-three digits.

An addition brings both numbers to the lesser of their exponents, adds the digits, and rounds.
The sum is a whole number with some zeros at the end then. Rounding puts as many of them there
as fill up its digits; if there are more than that, it takes some away, and these are zeros.

## Main definitions

* `Binary64.IsWhole`: Doubles that hold a whole number of at most fifty-three digits.

## Theorems

* `Binary64.normalize_whole`: A whole number is rounded to itself.
* `Binary64.IsWhole.of_toRat?`, `Binary64.IsWhole.toRat?`: Such doubles are those of a whole
  value.
* `Binary64.IsWhole.add`, `Binary64.IsWhole.sub`, `Binary64.IsWhole.lt_iff`: What is done to
  them is done to the numbers.
-/

namespace Roster

namespace Binary64

open Float.Model (Format UnpackedFloat totalExponent)
open Float.Model.UnpackedFloat (Sign packComponents ExtendedMantissa decreaseExponent
  shiftToTargetExponent shiftToExponent)

/-! ### Rounding what needs no rounding -/

theorem targetExponent_eq {t : ℤ} (h : -1021 ≤ t) : Format.binary64.targetExponent t = t - 53 := by
  have hmin : Format.binary64.minExponent = -1074 := by decide
  have hbits : (Format.binary64.mantissaBits : ℤ) = 53 := by decide
  unfold Format.targetExponent
  omega

/-- Zeros at the end are shifted away without a trace. -/
theorem shiftRight_exact (m d : ℕ) :
    ExtendedMantissa.ofMantissaAndAccuracy (m * 2 ^ d) .exact >>> d =
      ExtendedMantissa.ofMantissaAndAccuracy m .exact := by
  change d.repeat ExtendedMantissa.shiftRightOne _ = _
  induction d generalizing m with
  | zero => simp [Nat.repeat]
  | succ d ih =>
      -- Half of the rest of an even number is nothing, so a shift by one stays exact.
      have hhalf : m * 2 ^ (d + 1) = (m * 2) * 2 ^ d := by rw [pow_succ']; ring
      rw [Nat.repeat, hhalf, ih]
      simp [ExtendedMantissa.shiftRightOne, ExtendedMantissa.ofMantissaAndAccuracy]

theorem shiftToExponent_exact (m d : ℕ) (e : ℤ) :
    shiftToExponent (m * 2 ^ d) e .exact (e + d) =
      (ExtendedMantissa.ofMantissaAndAccuracy m .exact, e + d) := by
  unfold shiftToExponent
  simp only [add_sub_cancel_left, Int.toNat_natCast, shiftRight_exact]

/-- With the exponent that a whole number is to have, its digits are filled up. -/
theorem roundWithAccuracy_whole {n d : ℕ} (s : Sign) (hn : n ≠ 0) (h : n < 2 ^ 53) :
    UnpackedFloat.roundWithAccuracy .binary64 s (n * 2 ^ (52 - n.log2) * 2 ^ d)
      (n.log2 - 52 - d) .exact =
    .finite s (n * 2 ^ (52 - n.log2)) (n.log2 - 52)
      (Nat.mul_pos (Nat.pos_of_ne_zero hn) (Nat.two_pow_pos _)) := by
  have hlog := log2_filled hn h
  have hpos : n * 2 ^ (52 - n.log2) ≠ 0 := Nat.mul_ne_zero hn (Nat.two_pow_pos _).ne'
  -- The first shift takes the zeros behind the fifty-three digits, and the second takes none.
  have hfirst : Format.binary64.targetExponent
      (totalExponent (n * 2 ^ (52 - n.log2) * 2 ^ d) (n.log2 - 52 - d)) =
        (n.log2 - 52 - d : ℤ) + d := by
    unfold totalExponent
    rw [log2_mul_two_pow hpos, hlog, targetExponent_eq (by omega)]
    omega
  have hsecond : Format.binary64.targetExponent
      (totalExponent (n * 2 ^ (52 - n.log2)) (n.log2 - 52 - d + d)) =
        (n.log2 - 52 - d + d : ℤ) + (0 : ℕ) := by
    unfold totalExponent
    rw [hlog, targetExponent_eq (by omega)]
    omega
  have hexact := shiftToExponent_exact (n * 2 ^ (52 - n.log2)) 0 (n.log2 - 52 - d + d)
  rw [pow_zero, mul_one] at hexact
  have hround : (ExtendedMantissa.ofMantissaAndAccuracy (n * 2 ^ (52 - n.log2))
      .exact).roundedMantissa = n * 2 ^ (52 - n.log2) := rfl
  unfold UnpackedFloat.roundWithAccuracy shiftToTargetExponent
  simp only [hfirst, shiftToExponent_exact, hround, hsecond, hexact]
  have hkeep : (ExtendedMantissa.ofMantissaAndAccuracy (n * 2 ^ (52 - n.log2))
      .exact).mantissa = n * 2 ^ (52 - n.log2) := rfl
  simp only [hkeep, dif_neg hpos]
  congr 1
  omega

/-- A whole number in any binary place is rounded to itself. -/
theorem round_whole {n k : ℕ} (s : Sign) (hn : n ≠ 0) (h : n < 2 ^ 53) :
    UnpackedFloat.round .binary64 s (n * 2 ^ k) (-k) =
    .finite s (n * 2 ^ (52 - n.log2)) (n.log2 - 52)
      (Nat.mul_pos (Nat.pos_of_ne_zero hn) (Nat.two_pow_pos _)) := by
  have hlog := log2_le_of_lt hn h
  have htarget : Format.binary64.targetExponent (totalExponent (n * 2 ^ k) (-k)) =
      n.log2 - 52 := by
    unfold totalExponent
    rw [log2_mul_two_pow hn, targetExponent_eq (by omega)]
    omega
  -- Before anything is rounded, the digits are filled up at least.
  have hdown : decreaseExponent (n * 2 ^ k) (-k) (n.log2 - 52) =
      (n * 2 ^ (52 - n.log2) * 2 ^ (k - (52 - n.log2)),
        (n.log2 : ℤ) - 52 - (k - (52 - n.log2) : ℕ)) := by
    have hplaces : k + (-(k : ℤ) - (n.log2 - 52)).toNat =
        (52 - n.log2) + (k - (52 - n.log2)) := by omega
    unfold decreaseExponent
    simp only [Nat.shiftLeft_eq, mul_assoc, ← pow_add, hplaces]
    exact Prod.ext rfl (by simp only; omega)
  unfold UnpackedFloat.round
  simp only [htarget, hdown]
  exact roundWithAccuracy_whole s hn h

theorem normalize_whole {z : ℤ} (k : ℕ) (h : z.natAbs < 2 ^ 53) :
    UnpackedFloat.normalize .binary64 (z * 2 ^ k) (-k) .positive = unpackedWhole z := by
  have hpow : (0 : ℤ) < 2 ^ k := Int.pow_pos (by decide)
  unfold UnpackedFloat.normalize
  rcases lt_trichotomy z 0 with hz | rfl | hz
  · have habs : (-(z * 2 ^ k)).toNat = z.natAbs * 2 ^ k := by
      zify
      rw [Int.toNat_of_nonneg (by nlinarith), abs_of_neg hz]
      ring
    rw [show compare (z * 2 ^ k) 0 = .lt from Int.compare_eq_lt.mpr (by nlinarith)]
    simp only [habs]
    rw [round_whole _ (by omega) h, unpackedWhole_of_ne hz.ne, signOf, if_pos hz]
  · rw [zero_mul]
    rfl
  · have habs : (z * 2 ^ k).toNat = z.natAbs * 2 ^ k := by
      zify
      rw [Int.toNat_of_nonneg (by nlinarith), abs_of_pos hz]
    rw [show compare (z * 2 ^ k) 0 = .gt from Int.compare_eq_gt.mpr (by nlinarith)]
    simp only [habs]
    rw [round_whole _ (by omega) h, unpackedWhole_of_ne hz.ne', signOf, if_neg (by omega)]

/-! ### Sums and differences -/

/-- A sign and an amount make a number again, in any binary place. -/
theorem apply_signOf (z : ℤ) (k : ℕ) :
    (signOf z).apply ((z.natAbs * 2 ^ k : ℕ) : ℤ) = z * 2 ^ k := by
  have hcast : ((z.natAbs * 2 ^ k : ℕ) : ℤ) = |z| * 2 ^ k := by push_cast; rfl
  rw [hcast]
  by_cases hz : z < 0
  · rw [signOf, if_pos hz, abs_of_neg hz, neg_mul]
    exact neg_neg _
  · rw [signOf, if_neg hz, abs_of_nonneg (not_lt.mp hz)]
    rfl

/-- Two whole numbers are brought to one exponent by more zeros at the end. -/
theorem decreaseExponent_filled {z : ℤ} {k : ℕ} (hz : z ≠ 0) (h : z.natAbs < 2 ^ 53)
    (hk : 52 - z.natAbs.log2 ≤ k) :
    decreaseExponent (z.natAbs * 2 ^ (52 - z.natAbs.log2)) (z.natAbs.log2 - 52) (-k) =
      (z.natAbs * 2 ^ k, -(k : ℤ)) := by
  have hlog := log2_le_of_lt (Int.natAbs_ne_zero.mpr hz) h
  have hplaces : 52 - z.natAbs.log2 + ((z.natAbs.log2 : ℤ) - 52 - -k).toNat = k := by omega
  unfold decreaseExponent
  simp only [Nat.shiftLeft_eq, mul_assoc, ← pow_add, hplaces]
  exact Prod.ext rfl (by simp only; omega)

section

variable {a b : ℤ}

/-- The common exponent of two whole numbers. -/
theorem exists_common (ha : a ≠ 0) (hb : b ≠ 0) (hda : a.natAbs < 2 ^ 53)
    (hdb : b.natAbs < 2 ^ 53) : ∃ k : ℕ,
      min ((a.natAbs.log2 : ℤ) - 52) (b.natAbs.log2 - 52) = -k ∧
      52 - a.natAbs.log2 ≤ k ∧ 52 - b.natAbs.log2 ≤ k := by
  have hla := log2_le_of_lt (Int.natAbs_ne_zero.mpr ha) hda
  have hlb := log2_le_of_lt (Int.natAbs_ne_zero.mpr hb) hdb
  exact ⟨max (52 - a.natAbs.log2) (52 - b.natAbs.log2), by omega, by omega, by omega⟩

theorem add_whole (ha : a ≠ 0) (hb : b ≠ 0) (hda : a.natAbs < 2 ^ 53) (hdb : b.natAbs < 2 ^ 53)
    (h : (a + b).natAbs < 2 ^ 53) :
    UnpackedFloat.add .binary64 (unpackedWhole a) (unpackedWhole b) = unpackedWhole (a + b) := by
  rcases exists_common ha hb hda hdb with ⟨k, hk, hka, hkb⟩
  rw [unpackedWhole_of_ne ha, unpackedWhole_of_ne hb, ← normalize_whole k h]
  simp only [UnpackedFloat.add, hk, decreaseExponent_filled ha hda hka,
    decreaseExponent_filled hb hdb hkb, apply_signOf, add_mul]

theorem sub_whole (ha : a ≠ 0) (hb : b ≠ 0) (hda : a.natAbs < 2 ^ 53) (hdb : b.natAbs < 2 ^ 53)
    (h : (a - b).natAbs < 2 ^ 53) :
    UnpackedFloat.sub .binary64 (unpackedWhole a) (unpackedWhole b) = unpackedWhole (a - b) := by
  rcases exists_common ha hb hda hdb with ⟨k, hk, hka, hkb⟩
  rw [unpackedWhole_of_ne ha, unpackedWhole_of_ne hb, ← normalize_whole k h]
  simp only [UnpackedFloat.sub, hk, decreaseExponent_filled ha hda hka,
    decreaseExponent_filled hb hdb hkb, apply_signOf, sub_mul]

end

/-! ### Operations on what holds whole numbers -/

theorem signOf_neg {z : ℤ} (hz : z ≠ 0) : signOf (-z) = -signOf z := by
  unfold signOf
  by_cases h : z < 0
  · rw [if_pos h, if_neg (by omega)]
    rfl
  · rw [if_neg h, if_pos (by omega)]
    rfl

namespace HoldsWhole

variable {u w : UnpackedFloat} {a b : ℤ}

theorem add (hu : HoldsWhole u a) (hw : HoldsWhole w b) (ha : a.natAbs < 2 ^ 53)
    (hb : b.natAbs < 2 ^ 53) (h : (a + b).natAbs < 2 ^ 53) :
    HoldsWhole (u.add .binary64 w) (a + b) := by
  cases hu with
  | zero s =>
      cases hw with
      | zero s' =>
          simp only [UnpackedFloat.add, add_zero]
          split
          · exact .zero s
          · exact .zero .positive
      | filled hz =>
          rw [zero_add]
          have hw := HoldsWhole.filled hz
          rw [unpackedWhole_of_ne hz] at hw ⊢
          exact hw
  | filled hz =>
      cases hw with
      | zero s' =>
          rw [add_zero]
          have hu := HoldsWhole.filled hz
          rw [unpackedWhole_of_ne hz] at hu ⊢
          exact hu
      | filled hz' =>
          rw [add_whole hz hz' ha hb h]
          exact holdsWhole_unpackedWhole _

theorem sub (hu : HoldsWhole u a) (hw : HoldsWhole w b) (ha : a.natAbs < 2 ^ 53)
    (hb : b.natAbs < 2 ^ 53) (h : (a - b).natAbs < 2 ^ 53) :
    HoldsWhole (u.sub .binary64 w) (a - b) := by
  cases hu with
  | zero s =>
      cases hw with
      | zero s' =>
          simp only [UnpackedFloat.sub, sub_zero]
          split
          · exact .zero s
          · exact .zero .positive
      | filled hz =>
          rw [zero_sub]
          have hw := HoldsWhole.filled (neg_ne_zero.mpr hz)
          rw [unpackedWhole_of_ne (neg_ne_zero.mpr hz)] at hw
          rw [unpackedWhole_of_ne hz]
          simp only [signOf_neg hz, Int.natAbs_neg] at hw
          exact hw
  | filled hz =>
      cases hw with
      | zero s' =>
          rw [sub_zero]
          have hu := HoldsWhole.filled hz
          rw [unpackedWhole_of_ne hz] at hu ⊢
          exact hu
      | filled hz' =>
          rw [sub_whole hz hz' ha hb h]
          exact holdsWhole_unpackedWhole _

/-- Nothing is lost when a whole number is packed. -/
theorem unpack_pack (hu : HoldsWhole u a) (ha : a.natAbs < 2 ^ 53) :
    HoldsWhole (Float.Model.pack u).unpack a := by
  have hunpack : (Float.Model.pack u).unpack =
      UnpackedFloat.unpack Format.binary64 (UnpackedFloat.pack Format.binary64 u) := rfl
  rw [hunpack]
  cases hu with
  | zero s =>
      rw [show UnpackedFloat.unpack Format.binary64 (UnpackedFloat.pack Format.binary64 (.zero s)) =
        .zero s from UnpackedFloat.unpack_packedZero]
      exact .zero s
  | filled hz =>
      have hn := Int.natAbs_ne_zero.mpr hz
      have hlog := log2_le_of_lt hn ha
      have hb := filled_bounds hn ha
      have hu := HoldsWhole.filled hz
      -- The exponent is that of a normal double, so the fields are read back as they were.
      have he : (BitVec.ofNat 11 ((a.natAbs.log2 : ℤ) - 52 + 1075).toNat).toNat =
          a.natAbs.log2 + 1023 := by
        rw [BitVec.toNat_ofNat]
        omega
      have hm : (BitVec.ofNat 52 (a.natAbs * 2 ^ (52 - a.natAbs.log2))).toNat + 2 ^ 52 =
          a.natAbs * 2 ^ (52 - a.natAbs.log2) := by
        rw [BitVec.toNat_ofNat]
        omega
      have hexp : ((a.natAbs.log2 + 1023 : ℕ) : ℤ) - 1075 = a.natAbs.log2 - 52 := by omega
      rw [unpackedWhole_of_ne hz] at hu ⊢
      rw [pack_finite _ (log2_filled hn ha) (by omega) (by omega),
        unpack_normal (by omega) (by omega)]
      simp only [hm, he, hexp]
      exact hu

/-- Filled up digits are compared as the numbers are. -/
theorem compare_filled {m n : ℕ} (hm : m ≠ 0) (hn : n ≠ 0) :
    (compare ((m.log2 : ℤ) - 52) (n.log2 - 52)).then
      (compare (m * 2 ^ (52 - m.log2)) (n * 2 ^ (52 - n.log2))) = compare m n := by
  -- With more digits a number is greater, whatever the digits are.
  have hlt : ∀ {m n : ℕ}, n ≠ 0 → m.log2 < n.log2 → m < n := fun {m n} hn h =>
    calc
      m < 2 ^ (m.log2 + 1) := Nat.lt_log2_self
      _ ≤ 2 ^ n.log2 := Nat.pow_le_pow_right (by decide) h
      _ ≤ n := Nat.log2_self_le hn
  rcases lt_trichotomy m.log2 n.log2 with h | h | h
  · rw [compare_lt_iff_lt.mpr (by omega : (m.log2 : ℤ) - 52 < n.log2 - 52),
      compare_lt_iff_lt.mpr (hlt hn h)]
    rfl
  · have hmono : StrictMono fun k : ℕ => k * 2 ^ (52 - n.log2) :=
      fun _ _ hk => Nat.mul_lt_mul_of_pos_right hk (Nat.two_pow_pos _)
    have hsame := hmono.cmp_map_eq m n
    rw [cmp_eq_compare, cmp_eq_compare] at hsame
    rw [h, compare_eq_iff_eq.mpr rfl, ← hsame]
    rfl
  · rw [compare_gt_iff_gt.mpr (by omega : (n.log2 : ℤ) - 52 < m.log2 - 52),
      compare_gt_iff_gt.mpr (hlt hm h)]
    rfl

theorem compare_eq (hu : HoldsWhole u a) (hw : HoldsWhole w b) :
    u.compare w = some (compare a b) := by
  cases hu with
  | zero s =>
      cases hw with
      | zero s' => rfl
      | filled hz =>
          rw [unpackedWhole_of_ne hz]
          rcases lt_or_gt_of_ne hz with h | h
          · simp only [signOf, if_pos h, compare_gt_iff_gt.mpr h, UnpackedFloat.compare]
          · simp only [signOf, if_neg h.not_gt, compare_lt_iff_lt.mpr h, UnpackedFloat.compare]
  | filled hz =>
      rw [unpackedWhole_of_ne hz]
      cases hw with
      | zero s' =>
          rcases lt_or_gt_of_ne hz with h | h
          · simp only [signOf, if_pos h, compare_lt_iff_lt.mpr h, UnpackedFloat.compare]
          · simp only [signOf, if_neg h.not_gt, compare_gt_iff_gt.mpr h, UnpackedFloat.compare]
      | filled hz' =>
          have hdigits := compare_filled (Int.natAbs_ne_zero.mpr hz) (Int.natAbs_ne_zero.mpr hz')
          rw [unpackedWhole_of_ne hz']
          rcases lt_or_gt_of_ne hz with h | h <;> rcases lt_or_gt_of_ne hz' with h' | h'
          · -- Below zero the greater amount is the lesser number.
            have habs : compare a b = (compare a.natAbs b.natAbs).swap := by
              rw [← compare_natCast, ← compare_neg, Int.ofNat_natAbs_of_nonpos h.le,
                Int.ofNat_natAbs_of_nonpos h'.le, neg_neg, neg_neg]
            simp only [signOf, if_pos h, if_pos h', UnpackedFloat.compare, hdigits, habs]
          · simp only [signOf, if_pos h, if_neg h'.not_gt, UnpackedFloat.compare,
              compare_lt_iff_lt.mpr (h.trans h')]
          · simp only [signOf, if_neg h.not_gt, if_pos h', UnpackedFloat.compare,
              compare_gt_iff_gt.mpr (h'.trans h)]
          · have habs : compare a b = compare a.natAbs b.natAbs := by
              rw [← compare_natCast, Int.natAbs_of_nonneg h.le, Int.natAbs_of_nonneg h'.le]
            simp only [signOf, if_neg h.not_gt, if_neg h'.not_gt, UnpackedFloat.compare, hdigits,
              habs]

theorem isNaN_eq (hu : HoldsWhole u a) : u.isNaN = false := by
  cases hu with
  | zero s => rfl
  | filled hz =>
      rw [unpackedWhole_of_ne hz]
      rfl

end HoldsWhole

/-- A double that holds a whole number of at most fifty-three digits. -/
structure IsWhole (x : Float) (z : ℤ) : Prop where
  digits : z.natAbs < 2 ^ 53
  holds : HoldsWhole x.toModel.unpack z

namespace IsWhole

variable {x y : Float} {a b : ℤ}

theorem of_toRat? (hx : toRat? x = some (a : ℚ)) (ha : a.natAbs < 2 ^ 53) : IsWhole x a :=
  ⟨ha, holdsWhole_of_toRat? hx ha⟩

theorem add (hx : IsWhole x a) (hy : IsWhole y b) (h : (a + b).natAbs < 2 ^ 53) :
    IsWhole (x + y) (a + b) :=
  ⟨h, (hx.holds.add hy.holds hx.digits hy.digits h).unpack_pack h⟩

theorem sub (hx : IsWhole x a) (hy : IsWhole y b) (h : (a - b).natAbs < 2 ^ 53) :
    IsWhole (x - y) (a - b) :=
  ⟨h, (hx.holds.sub hy.holds hx.digits hy.digits h).unpack_pack h⟩

theorem lt_iff (hx : IsWhole x a) (hy : IsWhole y b) : x < y ↔ a < b := by
  rw [lt_iff_compare, hx.holds.compare_eq hy.holds, Option.some.injEq, compare_lt_iff_lt]

theorem le_iff (hx : IsWhole x a) (hy : IsWhole y b) : x ≤ y ↔ a ≤ b := by
  rw [le_iff_compare, hx.holds.compare_eq hy.holds, Option.any_some, Ordering.isLE_iff_ne_gt]
  exact compare_le_iff_le

theorem isNaN_eq (hx : IsWhole x a) : x.isNaN = false :=
  hx.holds.isNaN_eq

/-- No double but the two zeros holds what another one holds. -/
theorem toRat? (hx : IsWhole x a) : Binary64.toRat? x = some (a : ℚ) := by
  -- A double is what its own parts are packed to, and these are known.
  have hpack : x = .ofModel (.pack x.toModel.unpack) := by
    refine Float.toBits_inj.mp (UInt64.toBitVec_inj.mp ?_)
    exact (UnpackedFloat.pack_unpack_of_valid x.toModel.valid).symm
  have hholds := hx.holds
  rw [hpack]
  generalize x.toModel.unpack = u at hholds
  cases hholds with
  | zero s =>
      cases s with
      | negative => decide +kernel
      | positive => decide +kernel
  | filled hz => exact toRat?_ofWhole hx.digits

end IsWhole

end Binary64

end Roster
