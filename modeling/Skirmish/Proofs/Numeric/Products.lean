import Skirmish.Decimal
import Skirmish.Proofs.Numeric.Arithmetic
import Skirmish.Proofs.Numeric.Patterns

/-!
# Double precision

Products, quotients and powers of ten in double precision, and how they come back to single
precision:

* `stands_mul` and `stands_div` — one operation;
* `mul_error` and `div_error` — a scaling by a power of ten;
* `narrow_nearestDouble` — integers that go through double precision.
-/

/-! ## Products and quotients in double precision

Products and quotients of positive numbers that are neither very large nor very small are off by
very little, and by nothing at all if they need no rounding. The same goes for powers of ten.

* `Stands` — a positive number in double precision and its exact value;
* `Rounded` — a value that is off by little, or by nothing;
* `stands_ofNat` — integers below `2 ^ 53`;
* `stands_whole` and `stands_power` — whole decimals, and powers of ten;
* `stands_mul` and `stands_div` — products and quotients.
-/

namespace Skirmish.Numeric

open Float.Model
open Float.Model.UnpackedFloat

/-- **The exact value** of a positive number in double precision. -/
def Stands (y : Float) (v : ℚ) : Prop :=
  ∃ m e hm, y.toModel.unpack = .finite .positive m e hm ∧ size m e = v

/-- **A value in place of another,** off by one part in `2 ^ 53` at most, and by nothing if the
other one needs no rounding. -/
structure Rounded (w v : ℚ) : Prop where
  /-- It is off by little. -/
  error : |w - v| ≤ v / 2 ^ 53
  /-- It is exact if it can be. -/
  exact : ∀ k j, k ≤ 2 ^ 53 → -1074 ≤ j → v = size k j → w = v

def Moderate (v : ℚ) : Prop :=
  2 ^ (-1000 : ℤ) ≤ v ∧ v ≤ 2 ^ (1000 : ℤ)

/-- What is rounded to the nearest count is a value in its place. -/
theorem Counts.rounded {v : ℚ} {n : ℕ} {t : ℤ} (h : Counts 52 (-1074) v n t) (hv : Moderate v) :
    Rounded (size n t) v := by
  refine ⟨h.error_le ?_, fun k j hk hj heq => h.eq hk hj heq⟩
  exact le_trans (zpow_le_zpow_right₀ (by norm_num) (by norm_num)) hv.1

theorem pos_of_rounded {v : ℚ} {m : ℕ} {e : ℤ} (h : Rounded (size m e) v) (hv : 0 < v) : 0 < m := by
  refine Nat.pos_of_ne_zero ?_
  rintro rfl
  have herror := h.error
  rw [size, Nat.cast_zero, zero_mul, zero_sub, abs_neg, abs_of_pos hv] at herror
  linarith

theorem le_maxExponent_of_rounded {v : ℚ} {m : ℕ} {e : ℤ} (hfits : FitsIn .binary64 m e)
    (h : Rounded (size m e) v) (hv : Moderate v) : e ≤ maxExponent .binary64 := by
  by_contra hgt
  have hmax : maxExponent .binary64 = 971 := rfl
  have hmin : Format.binary64.minExponent = -1074 := rfl
  have hlarge : (2 : ℚ) ^ (52 + e : ℤ) ≤ size m e := hfits.le_size (by omega)
  have hpow : (2 : ℚ) ^ (1001 : ℤ) ≤ 2 ^ (52 + e : ℤ) :=
    zpow_le_zpow_right₀ (by norm_num) (by omega)
  have hpos : 0 < v := lt_of_lt_of_le (by positivity) hv.1
  have hsmall := (abs_le.mp h.error).2
  have hupper := hv.2
  rw [show (2 : ℚ) ^ (1001 : ℤ) = 2 ^ (1000 : ℤ) * 2 from zpow_add_one₀ (by norm_num) 1000] at hpow
  -- the bound is a number for `linarith`, and its digits do not matter
  generalize (2 : ℚ) ^ (1000 : ℤ) = bound at hpow hupper
  linarith

/-- **A moderate number** is not rounded to zero either. -/
theorem exists_unpack_of_rounds {v : ℚ} {u : UnpackedFloat} (h : Rounds .binary64 .positive v u)
    (hv : Moderate v) :
    ∃ m e hm, unpack .binary64 (u.pack .binary64) = .finite .positive m e hm ∧
      Rounded (size m e) v := by
  have hpos : 0 < v := lt_of_lt_of_le (by positivity) hv.1
  -- zero is no value in place of the number, so a mantissa and an exponent are left
  cases h with
  | zero hcounts => exact absurd (pos_of_rounded (hcounts.rounded hv) hpos) (lt_irrefl 0)
  | @finite n t m e hm hcounts hfits heq =>
    have hrounded := hcounts.rounded hv
    rw [← heq] at hrounded
    exact ⟨m, e, hm, unpack_pack_of_fits hfits (le_maxExponent_of_rounded hfits hrounded hv),
      hrounded⟩

theorem full_of_one_le {m : ℕ} {e : ℤ} (h : FitsIn .binary64 m e) (hone : 1 ≤ size m e) :
    2 ^ 52 ≤ m := by
  refine h.full.resolve_left ?_
  rintro rfl
  change 1 ≤ size m (-1074) at hone
  have hsize : size m (-1074) < 2 ^ (52 + 1 + -1074 : ℤ) := h.size_lt
  have hpow : (2 : ℚ) ^ (52 + 1 + -1074 : ℤ) ≤ 2 ^ (0 : ℤ) :=
    zpow_le_zpow_right₀ (by norm_num) (by norm_num)
  rw [zpow_zero] at hpow
  linarith

/-! ### Integers and powers of ten -/

theorem moderate_of_mem {v : ℚ} {k : ℕ} (hk : k ≤ 1000) (hlow : 1 / 2 ^ k ≤ v) (hhigh : v ≤ 2 ^ k) :
    Moderate v := by
  refine ⟨le_trans ?_ hlow, hhigh.trans ?_⟩
  · rw [one_div, ← zpow_natCast, ← zpow_neg]
    exact zpow_le_zpow_right₀ (by norm_num) (by omega)
  · rw [← zpow_natCast]
    exact zpow_le_zpow_right₀ (by norm_num) (by omega)

theorem moderate_of_one_le {v : ℚ} (hone : 1 ≤ v) {k : ℕ} (hk : k ≤ 1000) (hv : v ≤ 2 ^ k) :
    Moderate v := by
  refine moderate_of_mem hk ?_ hv
  exact (div_le_one_of_le₀ (one_le_pow₀ (by norm_num)) (by positivity)).trans hone

theorem stands_ofNat {n : ℕ} (hpos : 0 < n) (hn : n < 2 ^ 53) :
    Stands (UInt64.ofNat n).toFloat n := by
  have hv : size n 0 = n := by simp [size]
  have hofNat : (UInt64.ofNat n).toNat = n :=
    UInt64.toNat_ofNat_of_lt (by change n < 18446744073709551616; omega)
  have hmoderate : Moderate (n : ℚ) := by
    have hlt : (n : ℚ) ≤ 2 ^ 53 := by exact_mod_cast hn.le
    exact moderate_of_one_le (by exact_mod_cast hpos) (by decide) hlt
  -- the conversion is the rounding of a mantissa without an exponent
  have hround : round .binary64 .positive n 0 =
      UnpackedFloat.ofUInt64 .binary64 (UInt64.ofNat n) := by
    change _ = normalize .binary64 ((UInt64.ofNat n).toNat : ℤ) 0 .positive
    rw [hofNat, normalize_of_pos (by exact_mod_cast hpos)]
    rfl
  have hrounds : Rounds .binary64 .positive (size n 0) (round .binary64 .positive n 0) :=
    rounds_round hpos.ne'
  rw [hv, hround] at hrounds
  obtain ⟨m, e, hm, hresult, hrounded⟩ := exists_unpack_of_rounds hrounds hmoderate
  exact ⟨m, e, hm, hresult, hrounded.exact n 0 hn.le (by norm_num) hv.symm⟩

theorem patternIn_whole (l : Layout) {n k : ℕ} (hn : n ≠ 0) (hk : k ≤ 400) :
    Decimal.patternIn l ⟨n, k⟩ = l.magnitudeBits (n * 10 ^ k) 0 := by
  unfold Decimal.patternIn
  simp only
  rw [if_neg hn, if_neg (by omega), if_neg (by omega), if_pos (by omega), Int.toNat_natCast]
  rfl

theorem stands_ofBits {m : ℕ} {e : ℤ} (hpos : 0 < m) (hfits : FitsIn .binary64 m e)
    (he : e ≤ maxExponent .binary64) :
    Stands (Float.ofBits (UInt64.ofNat (pattern 52 (-1074) m e))) (size m e) := by
  have hlt : pattern 52 (-1074) m e < (2 ^ 11 - 1) * 2 ^ 52 := pattern_lt hfits he
  have hofNat : (UInt64.ofNat (pattern 52 (-1074) m e)).toNat = pattern 52 (-1074) m e :=
    UInt64.toNat_ofNat_of_lt (by change _ < 18446744073709551616; omega)
  have hunpack : unpack .binary64 (UInt64.ofNat (pattern 52 (-1074) m e)).toBitVec =
      .finite .positive m e hpos := by
    refine unpack_of_toNat_eq hfits he ?_
    change (UInt64.ofNat (pattern 52 (-1074) m e)).toNat = 0 * 2 ^ 63 + pattern 52 (-1074) m e
    rw [hofNat, Nat.zero_mul, Nat.zero_add]
  refine ⟨m, e, hpos, ?_, rfl⟩
  change unpack .binary64 ((unpack .binary64
    (UInt64.ofNat (pattern 52 (-1074) m e)).toBitVec).pack .binary64) = _
  rw [hunpack, unpack_pack_of_fits hfits he]

theorem stands_whole {n k : ℕ} (hn : n ≠ 0) (hk : k ≤ 400)
    (hmoderate : Moderate ((n : ℚ) * 10 ^ k)) :
    ∃ w, Stands (Decimal.nearestDouble ⟨n, k⟩) w ∧ Rounded w (n * 10 ^ k) := by
  have hv : size (n * 10 ^ k) 0 = n * 10 ^ k := by
    rw [size, zpow_zero, mul_one]
    push_cast
    rfl
  have hne : n * 10 ^ k ≠ 0 := by positivity
  obtain ⟨m', t, hcounts, hbits⟩ := exists_counts_magnitudeBits .double hne 0
  change Counts 52 (-1074) (size (n * 10 ^ k) 0) m' t at hcounts
  rw [hv] at hcounts
  obtain ⟨m, e, hfits, heq⟩ := hcounts.exists_fits
  have hrounded := hcounts.rounded hmoderate
  rw [← heq] at hrounded
  have he := le_maxExponent_of_rounded hfits hrounded hmoderate
  have hpos := pos_of_rounded hrounded (show (0 : ℚ) < n * 10 ^ k by positivity)
  refine ⟨size m e, ?_, hrounded⟩
  -- the pattern is below that of infinity, so the minimum is the pattern
  have hlt : pattern 52 (-1074) m e < (2 ^ 11 - 1) * 2 ^ 52 := pattern_lt hfits he
  have hpattern : Decimal.patternIn .double ⟨n, k⟩ = pattern 52 (-1074) m e := by
    rw [patternIn_whole .double hn hk, hbits]
    change min (pattern 52 (-1074) m' t) 0x7ff0000000000000 = _
    rw [hcounts.pattern_eq hfits heq.symm]
    omega
  unfold Decimal.nearestDouble
  rw [hpattern]
  exact stands_ofBits hpos hfits he

theorem stands_power {k : ℕ} (hk : k ≤ 80) :
    ∃ w, Stands (Decimal.nearestDouble ⟨1, k⟩) w ∧ Rounded w (10 ^ k) ∧ (k ≤ 22 → w = 10 ^ k) := by
  have hmoderate : Moderate ((10 : ℚ) ^ k) := by
    refine moderate_of_one_le (one_le_pow₀ (by norm_num)) (k := 4 * k) (by omega) ?_
    rw [pow_mul]
    exact pow_le_pow_left₀ (by norm_num) (by norm_num) k
  have hone : ((1 : ℕ) : ℚ) * 10 ^ k = 10 ^ k := by rw [Nat.cast_one, one_mul]
  obtain ⟨w, hstands, hrounded⟩ := stands_whole one_ne_zero (show k ≤ 400 by omega) (by rwa [hone])
  rw [hone] at hrounded
  refine ⟨w, hstands, hrounded, fun hsmall => ?_⟩
  -- the power of five has few enough bits
  refine hrounded.exact (5 ^ k) k ?_ (by omega) ?_
  · exact (Nat.pow_le_pow_right (by decide) hsmall).trans (by decide)
  · rw [size, zpow_natCast]
    push_cast
    rw [← mul_pow]
    norm_num

/-! ### Products and quotients -/

section Operations

variable {a b : Float} {u v : ℚ}

theorem stands_mul (ha : Stands a u) (hb : Stands b v) (hu : 1 ≤ u) (huv : Moderate (u * v)) :
    ∃ w, Stands (a * b) w ∧ Rounded w (u * v) := by
  obtain ⟨m₁, e₁, hm₁, ha, rfl⟩ := ha
  obtain ⟨m₂, e₂, hm₂, hb, rfl⟩ := hb
  have hfull : 2 ^ 52 ≤ m₁ := full_of_one_le (fitsIn_double ha).1 hu
  have hmul : (a * b).toModel.unpack = unpack .binary64
      ((roundWithAccuracy .binary64 .positive (m₁ * m₂) (e₁ + e₂) .exact).pack .binary64) := by
    change unpack .binary64 ((a.toModel.unpack.mul .binary64 b.toModel.unpack).pack .binary64) = _
    rw [ha, hb]
    rfl
  have hsize : size m₁ e₁ * size m₂ e₂ / 2 ^ (e₁ + e₂) = (m₁ * m₂ : ℕ) := by
    rw [size, size, zpow_add₀ (by norm_num)]
    push_cast
    field_simp
  have hrounds : Rounds .binary64 .positive (size m₁ e₁ * size m₂ e₂)
      (roundWithAccuracy .binary64 .positive (m₁ * m₂) (e₁ + e₂) .exact) := by
    -- the product has all bits, as one factor has them
    refine rounds_roundWithAccuracy
      (enough_of_full (hfull.trans (Nat.le_mul_of_pos_right _ hm₂)) _) ?_
    rw [hsize]
    exact represents_exact _
  obtain ⟨m, e, hm, hresult, hrounded⟩ := exists_unpack_of_rounds hrounds huv
  exact ⟨_, ⟨m, e, hm, hmul.trans hresult, rfl⟩, hrounded⟩

theorem stands_div (ha : Stands a u) (hb : Stands b v) (huv : Moderate (u / v)) :
    ∃ w, Stands (a / b) w ∧ Rounded w (u / v) := by
  obtain ⟨m₁, e₁, hm₁, ha, rfl⟩ := ha
  obtain ⟨m₂, e₂, hm₂, hb, rfl⟩ := hb
  obtain ⟨q, e, accuracy, hcore⟩ :
      ∃ q e accuracy, divCore .binary64 m₁ e₁ m₂ e₂ = (q, e, accuracy) := ⟨_, _, _, rfl⟩
  have hdiv : (a / b).toModel.unpack = unpack .binary64
      ((roundWithAccuracy .binary64 .positive q e accuracy).pack .binary64) := by
    change unpack .binary64 ((a.toModel.unpack.div .binary64 b.toModel.unpack).pack .binary64) = _
    rw [ha, hb]
    change unpack .binary64 ((roundWithAccuracy .binary64 (.positive / .positive)
      (divCore .binary64 m₁ e₁ m₂ e₂).1 (divCore .binary64 m₁ e₁ m₂ e₂).2.1
      (divCore .binary64 m₁ e₁ m₂ e₂).2.2).pack .binary64) = _
    rw [hcore]
    rfl
  -- the quotient is known with enough bits to be rounded
  obtain ⟨henough, hrep⟩ := represents_divCore hm₁ hm₂ hcore
  obtain ⟨m, e', hm, hresult, hrounded⟩ :=
    exists_unpack_of_rounds (rounds_roundWithAccuracy henough hrep) huv
  exact ⟨_, ⟨m, e', hm, hdiv.trans hresult, rfl⟩, hrounded⟩

end Operations

end Skirmish.Numeric

/-! ## Scaling by powers of ten

An integer is multiplied by a power of ten or divided by one. Both the power and the result are off
by one part in `2 ^ 53` at most, so together they are off by little.

* `mul_error` and `div_error` — the errors together;
* `moderate_mul` and `moderate_div` — the results are neither too large nor too small.
-/

namespace Skirmish.Numeric

theorem isInf_of_stands {y : Float} {v : ℚ} (h : Stands y v) : y.isInf = false := by
  obtain ⟨m, e, hm, hunpack, -⟩ := h
  change y.toModel.unpack.isInf = false
  rw [hunpack]
  rfl

section Scaling

variable {s k : ℕ} {p w : ℚ}

theorem Rounded.power_bounds (h : Rounded p (10 ^ k)) : (10 : ℚ) ^ k / 2 ≤ p ∧ p ≤ 2 * 10 ^ k := by
  have hten : (0 : ℚ) < 10 ^ k := by positivity
  obtain ⟨hlow, hhigh⟩ := abs_le.mp h.error
  exact ⟨by linarith, by linarith⟩

theorem ten_pow_le (hk : k ≤ 46) : (1 : ℚ) ≤ 10 ^ k ∧ (10 : ℚ) ^ k ≤ 2 ^ 184 := by
  refine ⟨one_le_pow₀ (by norm_num), ?_⟩
  calc (10 : ℚ) ^ k ≤ 10 ^ 46 := pow_le_pow_right₀ (by norm_num) hk
    _ ≤ (2 ^ 4) ^ 46 := pow_le_pow_left₀ (by norm_num) (by norm_num) 46
    _ = 2 ^ 184 := by rw [← pow_mul]

theorem moderate_mul (hpos : 0 < s) (hs : s < 2 ^ 53) (hk : k ≤ 46) (hp : Rounded p (10 ^ k)) :
    Moderate (s * p) := by
  have hone : (1 : ℚ) ≤ s := by exact_mod_cast hpos
  have hs' : (s : ℚ) ≤ 2 ^ 53 := by exact_mod_cast hs.le
  obtain ⟨hten, hten'⟩ := ten_pow_le hk
  obtain ⟨hlow, hhigh⟩ := hp.power_bounds
  -- `2 ^ 250` is large enough for either side and small enough to be moderate
  refine moderate_of_mem (k := 250) (by decide) ?_ ?_
  · calc (1 : ℚ) / 2 ^ 250 ≤ 1 * (1 / 2) := by norm_num
      _ ≤ s * p := mul_le_mul hone (by linarith) (by norm_num) (by linarith)
  · calc (s : ℚ) * p ≤ 2 ^ 53 * (2 * 2 ^ 184) :=
      mul_le_mul hs' (by linarith) (by linarith) (by norm_num)
      _ ≤ 2 ^ 250 := by norm_num

theorem moderate_div (hpos : 0 < s) (hs : s < 2 ^ 53) (hk : k ≤ 46) (hp : Rounded p (10 ^ k)) :
    Moderate (s / p) := by
  have hone : (1 : ℚ) ≤ s := by exact_mod_cast hpos
  have hs' : (s : ℚ) ≤ 2 ^ 53 := by exact_mod_cast hs.le
  obtain ⟨hten, hten'⟩ := ten_pow_le hk
  obtain ⟨hlow, hhigh⟩ := hp.power_bounds
  have hp' : 0 < p := by linarith
  refine moderate_of_mem (k := 250) (by decide) ?_ ?_
  · rw [le_div_iff₀ hp']
    calc 1 / 2 ^ 250 * p ≤ 1 / 2 ^ 250 * (2 * 2 ^ 184) :=
      mul_le_mul_of_nonneg_left (by linarith) (by norm_num)
      _ ≤ 1 := by norm_num
      _ ≤ s := hone
  · rw [div_le_iff₀ hp']
    calc (s : ℚ) ≤ 2 ^ 53 := hs'
      _ ≤ 2 ^ 250 * (1 / 2) := by norm_num
      _ ≤ 2 ^ 250 * p := mul_le_mul_of_nonneg_left (by linarith) (by norm_num)

theorem mul_error (hp : Rounded p (10 ^ k)) (hw : Rounded w (s * p)) :
    |w - s * 10 ^ k| ≤ s * 10 ^ k / 2 ^ 51 := by
  have hs : (0 : ℚ) ≤ s := Nat.cast_nonneg s
  have hpower : |s * p - s * 10 ^ k| ≤ s * (10 ^ k / 2 ^ 53) := by
    rw [← mul_sub, abs_mul, abs_of_nonneg hs]
    exact mul_le_mul_of_nonneg_left hp.error hs
  have hproduct : (s : ℚ) * p ≤ s * (2 * 10 ^ k) := mul_le_mul_of_nonneg_left hp.power_bounds.2 hs
  -- by way of the product with the rounded power
  have htriangle := abs_sub_le w (s * p) (s * 10 ^ k)
  have herror := hw.error
  have hvalue : (0 : ℚ) ≤ s * 10 ^ k := by positivity
  linarith

theorem div_error (hp : Rounded p (10 ^ k)) (hw : Rounded w (s / p)) :
    |w - s / 10 ^ k| ≤ s / 10 ^ k / 2 ^ 51 := by
  have hs : (0 : ℚ) ≤ s := Nat.cast_nonneg s
  have hten : (0 : ℚ) < 10 ^ k := by positivity
  obtain ⟨hlow, -⟩ := hp.power_bounds
  have hp' : 0 < p := by linarith
  have hquotient : (s : ℚ) / p ≤ 2 * (s / 10 ^ k) := by
    rw [div_le_iff₀ hp']
    calc (s : ℚ) = 2 * (s / 10 ^ k) * (10 ^ k / 2) := by field_simp
      _ ≤ 2 * (s / 10 ^ k) * p := mul_le_mul_of_nonneg_left hlow (by positivity)
  -- the error of the power, relative to the exact one
  have hpower : |s / p - s / 10 ^ k| ≤ s / p / 2 ^ 53 := by
    have hsplit : (s : ℚ) / p - s / 10 ^ k = s / p * ((10 ^ k - p) / 10 ^ k) := by field_simp
    have hrelative : |(10 : ℚ) ^ k - p| / 10 ^ k ≤ 1 / 2 ^ 53 := by
      rw [div_le_iff₀ hten, abs_sub_comm]
      exact hp.error.trans_eq (by ring)
    rw [hsplit, abs_mul, abs_of_nonneg (div_nonneg hs hp'.le), abs_div, abs_of_pos hten]
    exact (mul_le_mul_of_nonneg_left hrelative (div_nonneg hs hp'.le)).trans_eq (by ring)
  -- by way of the quotient by the rounded power
  have htriangle := abs_sub_le w (s / p) (s / 10 ^ k)
  have herror := hw.error
  have hvalue : (0 : ℚ) ≤ s / 10 ^ k := by positivity
  linarith

end Scaling

end Skirmish.Numeric

/-! ## Integers in single precision

An integer of at most 53 bits comes to single precision in two ways: at once, or by double
precision, which keeps it. Either way it is rounded once, and a minus sign makes no difference to
that.

* `exists_unpack_toFloat32` — an integer is rounded at once to the number that it is counted as;
* `narrow_nearestDouble` and `narrow_neg_nearestDouble` — by double precision it becomes the same
  number.
-/

namespace Skirmish.Numeric

open Float.Model
open Float.Model.UnpackedFloat

variable {n k : ℕ} {t : ℤ}

theorem size_zero_exponent (n : ℕ) : size n 0 = n := by
  rw [size, zpow_zero, mul_one]

theorem Counts.ne_floor (h : Counts 23 (-149) (n : ℚ) k t) (hpos : 0 < n) : t ≠ -149 := by
  rintro rfl
  have hone : (1 : ℚ) ≤ n := by exact_mod_cast hpos
  have hsmall : (2 : ℚ) ^ ((23 : ℕ) + 1 + -149 : ℤ) ≤ 2 ^ (0 : ℤ) :=
    zpow_le_zpow_right₀ (by norm_num) (by norm_num)
  rw [zpow_zero] at hsmall
  exact absurd h.short (not_lt.mpr (hsmall.trans hone))

/-- The unit of an integer of at most 53 bits is far below the largest one. -/
theorem Counts.unit_le (h : Counts 23 (-149) (n : ℚ) k t) (hpos : 0 < n) (hn : n ≤ 2 ^ 53) :
    t ≤ 30 := by
  have hfull : (2 : ℚ) ^ ((23 : ℕ) + t : ℤ) ≤ n := h.full.resolve_left (h.ne_floor hpos)
  have hle : (n : ℚ) ≤ 2 ^ (53 : ℤ) := by exact_mod_cast hn
  have hpow : ((23 : ℕ) + t : ℤ) ≤ 53 :=
    (zpow_le_zpow_iff_right₀ (by norm_num)).mp (hfull.trans hle)
  omega

/-- **What an integer is rounded to** is neither zero nor an infinity. -/
theorem exists_unpack_of_rounds_nat {u : UnpackedFloat} (h : Rounds .binary32 .positive (n : ℚ) u)
    (hpos : 0 < n) (hn : n ≤ 2 ^ 53) :
    ∃ m e hm, unpack .binary32 (u.pack .binary32) = .finite .positive m e hm ∧
      ∀ k t, Counts 23 (-149) (n : ℚ) k t → size k t = size m e := by
  -- zero would be counted in the smallest unit
  cases h with
  | @zero t hcounts =>
    change Counts 23 (-149) (n : ℚ) 0 t at hcounts
    exact absurd (hcounts.le_count (hcounts.ne_floor hpos)) (by decide)
  | @finite k t m e hm hcounts hfits heq =>
    change Counts 23 (-149) (n : ℚ) k t at hcounts
    have hmax : maxExponent .binary32 = 104 := rfl
    -- an overflow would need an exponent that no integer of 53 bits is counted with
    have he : e ≤ maxExponent .binary32 := by
      by_contra hgt
      have hunit := hcounts.unit_le hpos hn
      have hmin : Format.binary32.minExponent = -149 := rfl
      have hlarge : (2 : ℚ) ^ ((23 : ℕ) + e : ℤ) ≤ size m e := hfits.le_size (by omega)
      have hsmall : size k t ≤ size (2 ^ (23 + 1)) t :=
        mul_le_mul_of_nonneg_right (by exact_mod_cast hcounts.count_le) (by positivity)
      have htop : size (2 ^ (23 + 1)) t = 2 ^ ((23 : ℕ) + 1 + t : ℤ) := by
        rw [size, ← two_pow_add]
        norm_num
      have hpow : ((23 : ℕ) + e : ℤ) ≤ (23 : ℕ) + 1 + t := by
        refine (zpow_le_zpow_iff_right₀ (by norm_num : (1 : ℚ) < 2)).mp ?_
        rw [← htop]
        exact hlarge.trans (heq.trans_le hsmall)
      omega
    refine ⟨m, e, hm, unpack_pack_of_fits hfits he, fun k' t' hcounts' => ?_⟩
    obtain ⟨rfl, rfl⟩ := hcounts'.unique hcounts
    exact heq.symm

theorem exists_unpack_toFloat32 (hpos : 0 < n) (hn : n ≤ 2 ^ 53) :
    ∃ m e hm, (UInt64.ofNat n).toFloat32.toModel.unpack = .finite .positive m e hm ∧
      ∀ k t, Counts 23 (-149) (n : ℚ) k t → size k t = size m e := by
  have hofNat : (UInt64.ofNat n).toNat = n :=
    UInt64.toNat_ofNat_of_lt (by change n < 18446744073709551616; omega)
  have hround : round .binary32 .positive n 0 =
      UnpackedFloat.ofUInt64 .binary32 (UInt64.ofNat n) := by
    change _ = normalize .binary32 ((UInt64.ofNat n).toNat : ℤ) 0 .positive
    rw [hofNat, normalize_of_pos (by exact_mod_cast hpos)]
    rfl
  have hrounds : Rounds .binary32 .positive (size n 0) (round .binary32 .positive n 0) :=
    rounds_round hpos.ne'
  rw [size_zero_exponent, hround] at hrounds
  exact exists_unpack_of_rounds_nat hrounds hpos hn

theorem stands_nearestDouble (hpos : 0 < n) (hn : n ≤ 2 ^ 53) :
    Stands (Decimal.nearestDouble ⟨n, 0⟩) n := by
  have hpow : (n : ℚ) * 10 ^ 0 = n := by rw [pow_zero, mul_one]
  have hmoderate : Moderate (n : ℚ) :=
    moderate_of_one_le (by exact_mod_cast hpos) (k := 53) (by decide) (by exact_mod_cast hn)
  obtain ⟨w, hstands, hrounded⟩ := stands_whole hpos.ne' (show 0 ≤ 400 by decide) (by rwa [hpow])
  rw [hpow] at hrounded
  obtain rfl := hrounded.exact n 0 hn (by norm_num) (size_zero_exponent n).symm
  exact hstands

theorem narrow_nearestDouble (hn : n ≤ 2 ^ 53) :
    narrow (Decimal.nearestDouble ⟨n, 0⟩) = (UInt64.ofNat n).toFloat32 := by
  -- zero has no mantissa, and is computed
  obtain rfl | hpos := n.eq_zero_or_pos
  · decide +kernel
  · obtain ⟨m', e', hm', hdouble, hsize⟩ := stands_nearestDouble hpos hn
    obtain ⟨m, e, hm, hsingle, hcount⟩ := exists_unpack_toFloat32 hpos hn
    exact narrow_eq_of_counts hsingle hdouble (hsize ▸ hcount)

theorem narrow_neg_nearestDouble (hpos : 0 < n) (hn : n ≤ 2 ^ 53) :
    narrow (-Decimal.nearestDouble ⟨n, 0⟩) = -(UInt64.ofNat n).toFloat32 := by
  obtain ⟨m', e', hm', hdouble, hsize⟩ := stands_nearestDouble hpos hn
  obtain ⟨m, e, hm, hsingle, hcount⟩ := exists_unpack_toFloat32 hpos hn
  exact narrow_eq_of_counts (unpack_neg_single hsingle) (unpack_neg hdouble) (hsize ▸ hcount)

theorem isFinite_nearestDouble (hn : n ≤ 2 ^ 53) :
    (Decimal.nearestDouble ⟨n, 0⟩).isFinite = true ∧
      (-Decimal.nearestDouble ⟨n, 0⟩).isFinite = true := by
  obtain rfl | hpos := n.eq_zero_or_pos
  · decide +kernel
  · obtain ⟨m, e, hm, hdouble, -⟩ := stands_nearestDouble hpos hn
    refine ⟨?_, ?_⟩
    · change (Decimal.nearestDouble ⟨n, 0⟩).toModel.unpack.isFinite = true
      rw [hdouble]
      rfl
    · change (-Decimal.nearestDouble ⟨n, 0⟩).toModel.unpack.isFinite = true
      rw [unpack_neg hdouble]
      rfl

end Skirmish.Numeric
