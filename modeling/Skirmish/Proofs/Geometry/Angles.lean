import Skirmish.Geometry
import Skirmish.Proofs.Numeric.Arithmetic
import Skirmish.Proofs.Numeric.Sums

/-!
# Angles and how they are wrapped

A wrapped angle is a number of at most half a turn, whatever was wrapped:

* `isNaN_wrapAngle` — that it is a number is a matter of signs;
* `Numeric.modulo_bounds` — how large it is comes from a remainder, which is exact;
* `isWrapped_wrapAngle` — so it is at most half a turn, and wrapped for good.
-/

/-! ## Angles are numbers

Whatever an angle is, wrapped it is a number, and a finite angle has a finite direction.

* `isNaN_toSingle` — an exact value is rounded to a number;
* `isNaN_wrapAngle` — wrapping begins with such a value, and what it adds or takes off is finite;
* `cosine_bounds`, `sine_bounds` and `isFinite_ofAngle` — both coordinates of a direction are
  limited to the unit interval.

Nothing here tells how large a wrapped angle is. That it is a number is a matter of signs only:
whatever is computed on the way has one.
-/

namespace Skirmish

namespace Numeric

open Float.Model
open Float.Model.UnpackedFloat

/-! ### Numbers have signs -/

section Unpacked

variable {u v : UnpackedFloat} {s : Sign}

theorem exists_hasSign_normalize (spec : Format) (k e : ℤ) (s : Sign) :
    ∃ t, HasSign t (normalize spec k e s) := by
  -- the library rounds a size and puts the sign of the integer before it
  obtain hneg | rfl | hpos := lt_trichotomy k 0
  · rw [normalize_of_neg hneg]
    exact ⟨_, hasSign_roundWithAccuracy _ _ _⟩
  · exact ⟨s, rfl⟩
  · rw [normalize_of_pos hpos]
    exact ⟨_, hasSign_roundWithAccuracy _ _ _⟩

theorem exists_hasSign_add (spec : Format) (hu : HasSign s u) (hv : v.isFinite = true) :
    ∃ t, HasSign t (u.add spec v) := by
  -- by the kinds of both; only an infinity less an infinity would be no number
  cases u with
  | notANumber => exact hu.elim
  | infinity s =>
    cases v with
    | notANumber | infinity t => cases hv
    | zero t | finite t => exact ⟨s, rfl⟩
  | zero s =>
    cases v with
    | notANumber | infinity t => cases hv
    | zero t => cases s <;> cases t <;> exact ⟨_, rfl⟩
    | finite t => exact ⟨t, rfl⟩
  | finite s =>
    cases v with
    | notANumber | infinity t => cases hv
    | zero t => exact ⟨s, rfl⟩
    | finite t => exact exists_hasSign_normalize spec _ _ _

theorem exists_hasSign_sub (spec : Format) (hu : HasSign s u) (hv : v.isFinite = true) :
    ∃ t, HasSign t (u.sub spec v) := by
  -- a finite number is taken off by adding its opposite
  have hneg : v.neg.isFinite = true := by
    cases v with
    | notANumber | infinity t => cases hv
    | zero t | finite t => rfl
  rw [unpacked_sub_eq_add_neg spec hv]
  exact exists_hasSign_add spec hu hneg

end Unpacked

variable {x y : Float32}

/-- **Numbers are what has a sign.** -/
theorem isNaN_eq_false_iff : x.isNaN = false ↔ ∃ s, HasSign s x.toModel.unpack := by
  change x.toModel.unpack.isNaN = false ↔ _
  cases x.toModel.unpack with
  | notANumber => exact ⟨fun h => absurd h (by decide), fun ⟨_, h⟩ => h.elim⟩
  | infinity s | zero s | finite s => exact ⟨fun _ => ⟨s, rfl⟩, fun _ => rfl⟩

theorem isNaN_add (hx : x.isNaN = false) (hy : y.isFinite = true) : (x + y).isNaN = false := by
  obtain ⟨s, hs⟩ := isNaN_eq_false_iff.mp hx
  obtain ⟨t, ht⟩ := exists_hasSign_add .binary32 hs hy
  exact isNaN_eq_false_iff.mpr ⟨t, hasSign_unpack_pack ht⟩

theorem isNaN_sub (hx : x.isNaN = false) (hy : y.isFinite = true) : (x - y).isNaN = false := by
  obtain ⟨s, hs⟩ := isNaN_eq_false_iff.mp hx
  obtain ⟨t, ht⟩ := exists_hasSign_sub .binary32 hs hy
  exact isNaN_eq_false_iff.mpr ⟨t, hasSign_unpack_pack ht⟩

/-! ### Rounded values -/

/-- **Bits up to those of an infinity,** with either sign, are those of a number. -/
theorem unpack_ne_notANumber {w : UInt32} (h : w.toNat % 2 ^ 31 ≤ 0x7f800000) :
    unpack .binary32 w.toBitVec ≠ .notANumber := by
  -- the fields of a pattern are quotients and remainders of it
  have hexponent : (@unpackExponent .binary32 w.toBitVec).toNat = w.toNat / 2 ^ 23 % 2 ^ 8 := by
    change (BitVec.extractLsb 30 23 w.toBitVec).toNat = _
    rw [BitVec.extractLsb_toNat, Nat.shiftRight_eq_div_pow]
    rfl
  have hmantissa : (@unpackMantissa .binary32 w.toBitVec).toNat = w.toNat % 2 ^ 23 := by
    change (BitVec.extractLsb 22 0 w.toBitVec).toNat = _
    rw [BitVec.extractLsb_toNat, Nat.shiftRight_eq_div_pow, Nat.pow_zero, Nat.div_one]
    rfl
  unfold UnpackedFloat.unpack
  simp only
  split
  · next hones =>
    -- the exponent is the greatest one, so nothing is left for the mantissa
    have hfull : (@unpackExponent .binary32 w.toBitVec).toNat = 2 ^ 8 - 1 := by
      rw [hones]
      rfl
    have hzero : @unpackMantissa .binary32 w.toBitVec = 0#_ := by
      refine BitVec.eq_of_toNat_eq ?_
      rw [hmantissa]
      change _ = 0
      omega
    rw [if_pos hzero]
    exact nofun
  · split
    · split <;> exact nofun
    · exact nofun

theorem magnitudeBits_le (l : Layout) (m : ℕ) (e : ℤ) : l.magnitudeBits m e ≤ l.infinityBits := by
  unfold Layout.magnitudeBits
  split
  · exact Nat.zero_le _
  · exact Nat.min_le_right _ _

theorem isNaN_toSingle (x : Scaled) : (toSingle x).isNaN = false := by
  have hle : Layout.single.magnitudeBits x.magnitude x.exponent ≤ 0x7f800000 :=
    magnitudeBits_le _ _ _
  obtain ⟨w, hw, hbits⟩ : ∃ w, toSingle x = Float32.ofBits w ∧ w.toNat % 2 ^ 31 ≤ 0x7f800000 := by
    refine ⟨_, rfl, ?_⟩
    generalize Layout.single.magnitudeBits x.magnitude x.exponent = p at hle
    have hofNat : (UInt32.ofNat p).toNat = p :=
      UInt32.toNat_ofNat_of_lt (by change p < 4294967296; omega)
    cases x.negative with
    | false =>
      rw [if_neg Bool.false_ne_true, hofNat]
      omega
    | true =>
      -- the sign is a bit of its own
      have hor := Nat.two_pow_add_eq_or_of_lt (show p < 2 ^ 31 by omega) 1
      rw [if_pos rfl, UInt32.toNat_or, hofNat, Nat.or_comm]
      change (2 ^ 31 * 1 ||| p) % 2 ^ 31 ≤ _
      omega
  -- a pattern is packed again when it becomes a number, which keeps the sign
  have hsign : ∃ s, HasSign s (unpack .binary32 w.toBitVec) := by
    have hne := unpack_ne_notANumber hbits
    cases hu : unpack .binary32 w.toBitVec with
    | notANumber => exact absurd hu hne
    | infinity s | zero s | finite s => exact ⟨s, rfl⟩
  obtain ⟨s, hs⟩ := hsign
  rw [hw]
  exact isNaN_eq_false_iff.mpr ⟨s, hasSign_unpack_pack hs⟩

theorem isNaN_remainder (hx : x.isFinite = true) (hy : y.isFinite = true)
    (hne : (exactSingle y).magnitude ≠ 0) : (remainder x y).isNaN = false := by
  unfold remainder
  rw [hx, hy, isNaN_of_isFinite hy]
  simp only [Bool.not_true, Bool.or_self, Bool.false_eq_true, if_false, if_neg hne]
  exact isNaN_toSingle _

end Numeric

/-! ### Angles -/

theorem isNaN_wrapAngle (angle : Float32) : (wrapAngle angle).isNaN = false := by
  unfold wrapAngle
  split
  · next hfinite =>
    -- the divisor is a full turn, so neither of the two steps divides by zero
    have hremainder : (Numeric.remainder angle tau).isNaN = false :=
      Numeric.isNaN_remainder hfinite rfl (by decide)
    have hmodulo : (Numeric.modulo angle tau).isNaN = false := by
      unfold Numeric.modulo
      simp only
      split
      · exact Numeric.isNaN_add hremainder rfl
      · exact hremainder
    simp only
    split
    · exact Numeric.isNaN_sub hmodulo rfl
    · exact hmodulo
  · rfl

theorem unitInterval_bounds (x : Float32) :
    -1 ≤ Numeric.unitInterval x ∧ Numeric.unitInterval x ≤ 1 := by
  unfold Numeric.unitInterval
  split
  · next hle =>
    split
    · next hge => exact ⟨hge, hle⟩
    · exact ⟨by decide, by decide⟩
  · exact ⟨by decide, by decide⟩

theorem quadrant_bounds (turns : UInt64) (rest : Float) :
    -1 ≤ Numeric.quadrant turns rest ∧ Numeric.quadrant turns rest ≤ 1 := by
  unfold Numeric.quadrant
  split <;> exact unitInterval_bounds _

theorem cosine_bounds {angle : Float32} (h : angle.isFinite = true) :
    -1 ≤ Numeric.cosine angle ∧ Numeric.cosine angle ≤ 1 := by
  unfold Numeric.cosine
  rw [h]
  simp only [Bool.not_true, Bool.false_eq_true, if_false]
  -- zero has a direction of its own, and the rest goes by the size and sign of the angle
  split
  · exact ⟨by decide, by decide⟩
  · split
    · exact quadrant_bounds _ _
    · split <;> exact quadrant_bounds _ _

theorem sine_bounds {angle : Float32} (h : angle.isFinite = true) :
    -1 ≤ Numeric.sine angle ∧ Numeric.sine angle ≤ 1 := by
  unfold Numeric.sine
  rw [h]
  simp only [Bool.not_true, Bool.false_eq_true, if_false]
  split
  · exact unitInterval_bounds _
  · split
    · exact quadrant_bounds _ _
    · split <;> exact quadrant_bounds _ _

theorem Vector2.isFinite_iff {v : Vector2} :
    v.isFinite = true ↔ v.x.isFinite = true ∧ v.y.isFinite = true :=
  Bool.and_eq_true_iff

theorem isFinite_ofAngle {angle : Float32} (h : angle.isFinite = true) :
    (Vector2.ofAngle angle).isFinite = true := by
  obtain ⟨hxge, hxle⟩ := cosine_bounds h
  obtain ⟨hyge, hyle⟩ := sine_bounds h
  exact Vector2.isFinite_iff.mpr
    ⟨Numeric.isFinite_of_le rfl rfl hxge hxle, Numeric.isFinite_of_le rfl rfl hyge hyle⟩

end Skirmish

/-! ## Remainders

A remainder is computed on integers in a common unit, and needs no rounding: either it is less than
the mantissa of the divisor, in the divisor's unit, or not above that of the dividend, in the
dividend's.

* `Parts` — the sign, mantissa and exponent of a finite number, zeros included;
* `toSingle_exact` — an exact value on the grid becomes a number with that value;
* `remainder_lt` — a remainder is a number, and smaller than the divisor;
* `remainder_eq_self` — what is smaller than the divisor is its own remainder, down to the sign of a
  zero;
* `modulo_bounds` — moved to the side of zero and above, a remainder may reach the divisor, but not
  pass it.
-/

namespace Skirmish.Numeric

open Float.Model
open Float.Model.UnpackedFloat

variable {x y : Float32} {s : Sign} {m k : ℕ} {e j : ℤ}

/-! ### Exact values -/

theorem value_scaled (s : Sign) (m : ℕ) (e : ℤ) :
    (⟨isNegative s, m, e⟩ : Scaled).value = withSign s (size m e) := by
  rw [withSign_size]
  cases s <;> rfl

/-- **The sign, mantissa and exponent of a finite number,** the smallest exponent if it is a zero.
-/
inductive Parts (x : Float32) (s : Sign) : ℕ → ℤ → Prop
  /-- It is a zero. -/
  | zero (h : x.toModel.unpack = .zero s) : Parts x s 0 (-149)
  /-- It is not. -/
  | finite {m : ℕ} {e : ℤ} {hm : 0 < m} (h : x.toModel.unpack = .finite s m e hm) : Parts x s m e

theorem exists_parts (hx : x.isFinite = true) : ∃ s m e, Parts x s m e := by
  obtain ⟨s, hx⟩ | ⟨s, m, e, hm, hx⟩ := unpack_cases_of_isFinite hx
  · exact ⟨s, 0, -149, .zero hx⟩
  · exact ⟨s, m, e, .finite hx⟩

namespace Parts

theorem exact_eq (h : Parts x s m e) : exactSingle x = ⟨isNegative s, m, e⟩ := by
  cases h with
  | zero h =>
    -- the two zeros are single numbers, so their exact values can be computed
    cases s with
    | positive =>
      obtain rfl : x = 0 := eq_of_unpack_eq h
      rfl
    | negative =>
      obtain rfl : x = -0 := eq_of_unpack_eq h
      rfl
  | finite h => exact exactSingle_eq h

theorem value_eq (h : Parts x s m e) : value x = withSign s (size m e) := by
  rw [value, h.exact_eq, value_scaled]

theorem abs_value_eq (h : Parts x s m e) : |value x| = size m e := by
  rw [h.value_eq, abs_withSign s (size_nonneg m e)]

theorem short (h : Parts x s m e) : m < 2 ^ 24 := by
  cases h with
  | zero => decide
  | finite h => exact (fitsIn_single h).1.short

theorem floor_le (h : Parts x s m e) : -149 ≤ e := by
  cases h with
  | zero => exact le_rfl
  | finite h => exact (fitsIn_single h).1.floor_le

end Parts

theorem unpack_toSingle_zero (s : Sign) (e : ℤ) :
    (toSingle ⟨isNegative s, 0, e⟩).toModel.unpack = .zero s := by
  have hbits : Layout.single.magnitudeBits 0 e = 0 := if_pos rfl
  unfold toSingle
  simp only [hbits]
  cases s <;> rfl

theorem eq_zero_of_size_eq_zero (h : size m e = 0) : m = 0 := by
  by_contra hm
  exact (size_pos (Nat.pos_of_ne_zero hm) e).ne' h

@[simp] theorem size_zero (e : ℤ) : size 0 e = 0 := by
  rw [size, Nat.cast_zero, zero_mul]

theorem exists_unpack_toSingle (hm : m ≠ 0) (hk : k ≤ 2 ^ 24) (hj : -149 ≤ j)
    (hsize : size m e = size k j) (hlt : size m e < 2 ^ 128) :
    ∃ n t hn, (toSingle ⟨isNegative s, m, e⟩).toModel.unpack = .finite s n t hn ∧
      size n t = size m e := by
  -- a value on the grid is its own count, if the unit is chosen by its first bit
  obtain ⟨k', j', hcounts, hexact⟩ := exists_counts_size hk hj
  obtain ⟨n, t, hfits, heq⟩ := hcounts.exists_fits
  have hsame : size n t = size m e := heq.trans (hexact.trans hsize.symm)
  have hn : 0 < n := by
    refine Nat.pos_of_ne_zero ?_
    rintro rfl
    exact hm (eq_zero_of_size_eq_zero (hsame.symm.trans (size_zero t)))
  -- a greater exponent would make the value too large for a number
  have ht : t ≤ maxExponent .binary32 := by
    by_contra hgt
    have hmax : maxExponent .binary32 = 104 := rfl
    have hlarge : (2 : ℚ) ^ ((23 : ℕ) + t : ℤ) ≤ size n t := hfits.le_size (by omega)
    have hpow : (2 : ℚ) ^ (128 : ℤ) ≤ 2 ^ ((23 : ℕ) + t : ℤ) :=
      zpow_le_zpow_right₀ (by norm_num) (by push_cast; omega)
    rw [hsame] at hlarge
    exact absurd (hpow.trans hlarge) (not_le.mpr hlt)
  refine ⟨n, t, hn, unpack_toSingle hfits ht hm fun n' t' hcounts' => ?_, hsame⟩
  rw [hsame]
  exact hcounts'.eq hk hj hsize

theorem toSingle_exact (hk : k ≤ 2 ^ 24) (hj : -149 ≤ j) (hsize : size m e = size k j)
    (hlt : size m e < 2 ^ 128) :
    (toSingle ⟨isNegative s, m, e⟩).isFinite = true ∧
      value (toSingle ⟨isNegative s, m, e⟩) = withSign s (size m e) := by
  -- zeros come first, as they are not unpacked to a mantissa
  by_cases hm : m = 0
  · subst hm
    have hzero : IsZero (toSingle ⟨isNegative s, 0, e⟩) := ⟨s, unpack_toSingle_zero s e⟩
    rw [hzero.value_eq, size_zero, withSign_zero]
    exact ⟨hzero.isFinite, rfl⟩
  · obtain ⟨n, t, hn, hunpack, hsame⟩ := exists_unpack_toSingle (s := s) hm hk hj hsize hlt
    refine ⟨isFinite_of_unpack hunpack, ?_⟩
    rw [value_of_finite hunpack, hsame]

theorem toSingle_eq (h : Parts x s k j) (hsize : size m e = size k j) :
    toSingle ⟨isNegative s, m, e⟩ = x := by
  refine eq_of_unpack_eq ?_
  -- a zero in one unit is a zero in every unit
  cases h with
  | zero h =>
    obtain rfl := eq_zero_of_size_eq_zero (hsize.trans (size_zero _))
    rw [h, unpack_toSingle_zero]
  | @finite _ _ hk h =>
    obtain ⟨hfits, he⟩ := fitsIn_single h
    have hm : m ≠ 0 := by
      rintro rfl
      exact hk.ne' (eq_zero_of_size_eq_zero (hsize.symm.trans (size_zero e)))
    rw [h]
    exact unpack_toSingle hfits he hm fun n' t' hcounts =>
      (hcounts.eq hfits.short.le hfits.floor_le hsize).trans hsize

/-! ### Remainders -/

section Remainder

variable {t : Sign} {n : ℕ}

theorem remainder_eq (hx : x.isFinite = true) (hy : y.isFinite = true) (hxp : Parts x s m e)
    (hyp : Parts y t n j) (hn : n ≠ 0) :
    remainder x y =
      toSingle ⟨isNegative s,
        m * 2 ^ (e - min e j).toNat % (n * 2 ^ (j - min e j).toNat), min e j⟩ := by
  unfold remainder
  rw [hx, hy, isNaN_of_isFinite hy, hxp.exact_eq, hyp.exact_eq]
  simp only [Bool.not_true, Bool.or_self, Bool.false_eq_true, if_false, if_neg hn,
    Scaled.magnitudeAt, Nat.shiftLeft_eq]

theorem remainder_lt (hx : x.isFinite = true) (hy : y.isFinite = true) (hne : value y ≠ 0) :
    (remainder x y).isFinite = true ∧ |value (remainder x y)| < |value y| := by
  obtain ⟨s, m, e, hxp⟩ := exists_parts hx
  obtain ⟨t, n, j, hyp⟩ := exists_parts hy
  have hm := hxp.short
  have hn := hyp.short
  have he := hxp.floor_le
  have hj := hyp.floor_le
  have hn0 : n ≠ 0 := by
    rintro rfl
    rw [hyp.value_eq, size_zero, withSign_zero] at hne
    exact hne rfl
  rw [remainder_eq hx hy hxp hyp hn0]
  -- the common unit is the smaller one of the two
  obtain ⟨unit, hunit⟩ : ∃ unit, unit = min e j := ⟨_, rfl⟩
  rw [← hunit]
  have hmod := Nat.mod_lt (m * 2 ^ (e - unit).toNat)
    (show 0 < n * 2 ^ (j - unit).toNat by positivity)
  have hsize : size (m * 2 ^ (e - unit).toNat % (n * 2 ^ (j - unit).toNat)) unit < |value y| := by
    rw [hyp.abs_value_eq, size_eq_of_le n (show unit ≤ j by omega)]
    exact mul_lt_mul_of_pos_right (by exact_mod_cast hmod) (by positivity)
  -- the smaller unit is the dividend's or the divisor's, and so the remainder has few enough bits
  have hbits : m * 2 ^ (e - unit).toNat % (n * 2 ^ (j - unit).toNat) ≤ 2 ^ 24 := by
    obtain hle | hle := le_total e j
    · rw [show (e - unit).toNat = 0 by omega, pow_zero, mul_one]
      exact (Nat.mod_le _ _).trans hm.le
    · rw [show (j - unit).toNat = 0 by omega, pow_zero, mul_one] at hmod ⊢
      exact (hmod.trans hn).le
  obtain ⟨hfinite, hexact⟩ :=
    toSingle_exact (s := s) hbits (by omega : -149 ≤ unit) rfl (hsize.trans (abs_value_lt hy))
  refine ⟨hfinite, ?_⟩
  rw [hexact, abs_withSign s (size_nonneg _ _)]
  exact hsize

theorem remainder_eq_self (hx : x.isFinite = true) (hy : y.isFinite = true)
    (h : |value x| < |value y|) : remainder x y = x := by
  obtain ⟨s, m, e, hxp⟩ := exists_parts hx
  obtain ⟨t, n, j, hyp⟩ := exists_parts hy
  rw [hxp.abs_value_eq, hyp.abs_value_eq, size_eq_of_le m (min_le_left e j),
    size_eq_of_le n (min_le_right e j)] at h
  -- in the common unit the dividend is the smaller integer, and modulo leaves it alone
  have hlt : m * 2 ^ (e - min e j).toNat < n * 2 ^ (j - min e j).toNat := by
    exact_mod_cast lt_of_mul_lt_mul_right h (by positivity)
  have hn0 : n ≠ 0 := by
    rintro rfl
    simp at hlt
  rw [remainder_eq hx hy hxp hyp hn0, Nat.mod_eq_of_lt hlt]
  exact toSingle_eq hxp (size_eq_of_le m (min_le_left e j)).symm

end Remainder

theorem abs_of_value_pos (hy : y.isFinite = true) (h : 0 < value y) : y.abs = y := by
  obtain ⟨t, hyu⟩ | ⟨t, n, j, hn, hyu⟩ := unpack_cases_of_isFinite hy
  · rw [IsZero.value_eq ⟨t, hyu⟩] at h
    exact absurd h (lt_irrefl 0)
  · rw [value_of_finite hyu] at h
    have hpos := size_pos hn j
    cases t with
    | positive => exact eq_of_unpack_eq ((unpack_abs hyu).trans hyu.symm)
    | negative =>
      change 0 < -size n j at h
      linarith

theorem modulo_bounds (hx : x.isFinite = true) (hy : y.isFinite = true) (hpos : 0 < value y) :
    (modulo x y).isFinite = true ∧ 0 ≤ value (modulo x y) ∧ value (modulo x y) ≤ value y := by
  obtain ⟨hfinite, hlt⟩ := remainder_lt hx hy hpos.ne'
  rw [abs_of_pos hpos, abs_lt] at hlt
  have hzero : (0 : Float32).isFinite = true := rfl
  unfold modulo
  simp only
  split
  · next hneg =>
    rw [lt_iff_value_lt hfinite hzero, value_zero] at hneg
    rw [abs_of_value_pos hy hpos]
    -- the sum is rounded, but zero and the divisor are numbers, so it cannot pass them
    have hrounds := roundsTo_add hfinite hy
    have hlow := hrounds.ge_of_value_le hzero (by rw [value_zero]; linarith)
    have hhigh := hrounds.le_of_le_value hy (by linarith)
    have hsum := isFinite_of_le hzero hy hlow hhigh
    rw [le_iff_value_le hzero hsum, value_zero] at hlow
    exact ⟨hsum, hlow, (le_iff_value_le hsum hy).mp hhigh⟩
  · next hneg =>
    rw [lt_iff_value_lt hfinite hzero, value_zero, not_lt] at hneg
    exact ⟨hfinite, hneg, hlt.2.le⟩

end Skirmish.Numeric

/-! ## Wrapped angles

A wrapped angle is at most half a turn either way, and to wrap it again changes nothing.

* `IsWrapped` — the angles that wrapping leaves alone, which are within half a turn;
* `isWrapped_wrapAngle` — every angle is wrapped to one of them, be it infinite or no number;
* `Motion.isWrapped_of_turnToward` — so are the angles that turns speak of.

On the way the angle is between zero and a full turn, both included, for a full turn added to a
small negative remainder may be rounded to itself. What is more than half a turn loses a full turn,
and this difference is exact: both are integers in the last place of half a turn, and are less than
half a turn apart. So it can be undone, and a wrapped angle that is negative comes back by the way
that it went.
-/

namespace Skirmish

open Numeric
open Float.Model.UnpackedFloat

/-! ### Half a turn and a full turn -/

theorem unpack_pi : pi.toModel.unpack = .finite .positive 13176795 (-22) (by decide) := by rfl

theorem unpack_tau : tau.toModel.unpack = .finite .positive 13176795 (-21) (by decide) := by rfl

theorem isFinite_pi : pi.isFinite = true := rfl

theorem isFinite_tau : tau.isFinite = true := rfl

theorem value_pi : value pi = 13176795 * 2 ^ (-22 : ℤ) :=
  value_of_finite unpack_pi

theorem value_tau : value tau = 13176795 * 2 ^ (-21 : ℤ) :=
  value_of_finite unpack_tau

theorem value_tau_eq : value tau = 2 * value pi := by
  rw [value_tau, value_pi]
  norm_num

theorem value_pi_pos : 0 < value pi := by
  rw [value_pi]
  norm_num

/-! ### Wrapping -/

/-- **The angles that wrapping leaves alone.** -/
structure IsWrapped (angle : Float32) : Prop where
  /-- They are finite. -/
  finite : angle.isFinite = true
  /-- They are at most half a turn backwards. -/
  ge : -pi ≤ angle
  /-- They are at most half a turn forwards. -/
  le : angle ≤ pi
  /-- To wrap them changes nothing. -/
  fixed : wrapAngle angle = angle

section Wrapping

variable {angle turned : Float32}

/-- **To take off a full turn** is exact for what is between half a turn and a full one. -/
theorem sub_tau_exact (hfinite : turned.isFinite = true) (hlow : value pi < value turned)
    (hhigh : value turned ≤ value tau) :
    (turned - tau).isFinite = true ∧ value (turned - tau) = value turned - value tau := by
  obtain ⟨s, hu⟩ | ⟨s, m, e, hm, hu⟩ := unpack_cases_of_isFinite hfinite
  · rw [IsZero.value_eq ⟨s, hu⟩] at hlow
    exact absurd hlow (not_lt.mpr value_pi_pos.le)
  · have hvalue := value_of_finite hu
    have hpos := size_pos hm e
    have hpi := value_pi_pos
    cases s with
    | negative =>
      change value turned = -size m e at hvalue
      linarith
    | positive =>
      change value turned = size m e at hvalue
      -- above half a turn no unit is smaller than its last place
      have hunit : -22 ≤ e := by
        have hsize : size 13176795 (-22) ≤ size m e := by
          rw [← hvalue, size]
          exact_mod_cast value_pi ▸ hlow.le
        have := ((fitsIn_single unpack_pi).1.size_le_iff (fitsIn_single hu).1).mp hsize
        omega
      have hturned : value turned = ((m * 2 ^ (e - -22).toNat : ℕ) : ℤ) * 2 ^ (-22 : ℤ) := by
        rw [hvalue, size_eq_of_le m hunit, size, Int.cast_natCast]
      have htau : value tau = ((26353590 : ℤ) : ℚ) * 2 ^ (-22 : ℤ) := by
        rw [value_tau]
        norm_num
      have hdiff : |value turned - value tau| ≤ value pi := by
        rw [abs_le]
        constructor <;> linarith [value_tau_eq]
      refine sub_exact hfinite isFinite_tau hturned htau (by decide) ?_ ?_
      · rw [hturned, htau, value_pi, ← sub_mul, abs_mul,
          abs_of_pos (show (0 : ℚ) < 2 ^ (-22 : ℤ) by positivity),
          mul_le_mul_iff_of_pos_right (by positivity)] at hdiff
        have hcount : |((m * 2 ^ (e - -22).toNat : ℕ) : ℤ) - 26353590| ≤ 13176795 := by
          exact_mod_cast hdiff
        exact hcount.trans (by norm_num)
      · refine hdiff.trans_lt ?_
        rw [value_pi]
        norm_num

theorem wrapAngle_eq (hfinite : angle.isFinite = true) (h : modulo angle tau = turned) :
    wrapAngle angle = if turned > pi then turned - tau else turned := by
  rw [wrapAngle, if_pos hfinite, h]

theorem isWrapped_of_nonneg (hfinite : turned.isFinite = true) (hlow : 0 ≤ value turned)
    (hhigh : value turned ≤ value pi) : IsWrapped turned := by
  have hpi := value_pi_pos
  -- half a turn is below a full one, so dividing by that leaves all of the angle
  have hself : remainder turned tau = turned := by
    refine remainder_eq_self hfinite isFinite_tau ?_
    rw [abs_of_nonneg hlow, abs_of_pos (by linarith [value_tau_eq])]
    linarith [value_tau_eq]
  have hmodulo : modulo turned tau = turned := by
    unfold modulo
    rw [hself]
    refine if_neg ?_
    rw [lt_iff_value_lt hfinite rfl, value_zero, not_lt]
    exact hlow
  have hle : turned ≤ pi := (le_iff_value_le hfinite isFinite_pi).mpr hhigh
  refine ⟨hfinite, ?_, hle, ?_⟩
  · rw [le_iff_value_le (isFinite_neg isFinite_pi) hfinite, value_neg isFinite_pi]
    linarith
  · rw [wrapAngle_eq hfinite hmodulo]
    exact if_neg (not_lt_of_le hle)

/-- **What is more than half a turn** is wrapped by taking off a full one, which adding a full one
undoes. -/
theorem isWrapped_sub_tau (hfinite : turned.isFinite = true) (hlow : value pi < value turned)
    (hhigh : value turned ≤ value tau) : IsWrapped (turned - tau) := by
  have hpi := value_pi_pos
  have htau := value_tau_eq
  obtain ⟨hsub, hvalue⟩ := sub_tau_exact hfinite hlow hhigh
  obtain hlt | heq := hhigh.lt_or_eq
  · have hneg : turned - tau < 0 := by
      rw [lt_iff_value_lt hsub rfl, value_zero, hvalue]
      linarith
    -- what is left is shorter than a full turn, so the second time nothing is divided
    have hself : remainder (turned - tau) tau = turned - tau := by
      refine remainder_eq_self hsub isFinite_tau ?_
      rw [hvalue, abs_of_neg (by linarith), abs_of_pos (by linarith)]
      linarith
    -- the exact sum is the number from before, and so needs no rounding
    have hundone : turned - tau + tau = turned := by
      have hrounds := roundsTo_add hsub isFinite_tau
      rw [hvalue, sub_add_cancel] at hrounds
      obtain ⟨hback, hsame⟩ := hrounds.exact (onGrid_value hfinite) (abs_value_lt hfinite)
      exact eq_of_value_eq hback hfinite hsame (by rw [hsame]; linarith)
    have hmodulo : modulo (turned - tau) tau = turned := by
      unfold modulo
      rw [hself, abs_of_value_pos isFinite_tau (by linarith)]
      exact (if_pos hneg).trans hundone
    refine ⟨hsub, ?_, ?_, ?_⟩
    · rw [le_iff_value_le (isFinite_neg isFinite_pi) hsub, value_neg isFinite_pi, hvalue]
      linarith
    · rw [le_iff_value_le hsub isFinite_pi, hvalue]
      linarith
    · rw [wrapAngle_eq hsub hmodulo]
      exact if_pos ((lt_iff_value_lt isFinite_pi hfinite).mpr hlow)
  · -- a full turn is wrapped to nothing
    obtain rfl : turned = tau := eq_of_value_eq hfinite isFinite_tau heq (by linarith)
    have hzero : IsWrapped 0 := isWrapped_of_nonneg rfl value_zero.ge (value_zero.trans_le hpi.le)
    exact hzero

theorem isWrapped_wrapAngle (angle : Float32) : IsWrapped (wrapAngle angle) := by
  have hpi := value_pi_pos
  -- what is not finite counts as no turn at all
  by_cases hfinite : angle.isFinite = true
  · obtain ⟨hmodulo, hlow, hhigh⟩ := modulo_bounds hfinite isFinite_tau (by linarith [value_tau_eq])
    rw [wrapAngle_eq hfinite rfl]
    split
    · next hgt =>
        exact isWrapped_sub_tau hmodulo ((lt_iff_value_lt isFinite_pi hmodulo).mp hgt) hhigh
    · next hle =>
      refine isWrapped_of_nonneg hmodulo hlow (not_lt.mp ?_)
      rwa [← lt_iff_value_lt isFinite_pi hmodulo]
  · rw [wrapAngle, if_neg hfinite]
    exact isWrapped_of_nonneg rfl (by rw [value_zero]) (by rw [value_zero]; exact hpi.le)

end Wrapping

theorem Motion.isWrapped_of_turnToward {angle bearing turnSpeed dt : Float32} {turn : Motion.Turn}
    (h : Motion.turnToward angle bearing turnSpeed dt = some turn) :
    IsWrapped turn.angle ∧ IsWrapped turn.error := by
  unfold Motion.turnToward at h
  obtain ⟨step, -, rfl⟩ := Option.map_eq_some_iff.mp h
  exact ⟨isWrapped_wrapAngle _, isWrapped_wrapAngle _⟩

end Skirmish
