import Skirmish.Proofs.Numeric.Patterns
import Skirmish.Proofs.Numeric.Values

/-!
# What a rational number is rounded to

A rational number of any sign is rounded in two steps. Its size is counted in units, as if exponents
had no end, and what comes out is a number in single precision if it is not too large, and an
infinity otherwise.

* `IsRounded` — the first step, from a rational number to one on the grid;
* `Holds` — the second step, from the grid to numbers;
* `RoundsTo` — both steps;
* `RoundsTo.mono` — rounding keeps the order;
* `RoundsTo.exact` — it leaves alone what is on the grid;
* `RoundsTo.error_le` — it changes little.

A number is what its own value is rounded to, so whatever bounds are known before rounding hold
after it, as far as the bounds are numbers.
-/

namespace Skirmish.Numeric

open Float.Model
open Float.Model.UnpackedFloat

/-! ### Counts in order -/

theorem Nearest.mono {n k : ℕ} {u v : ℚ} (hn : Nearest n u) (hk : Nearest k v) (h : u ≤ v) :
    n ≤ k := by
  -- counts in the wrong order would need values a whole unit apart, or a shared half
  by_contra hlt
  have hstep : (k : ℚ) + 1 ≤ n := by exact_mod_cast not_le.mp hlt
  have hlow := (abs_le.mp hk.near).1
  have hhigh := (abs_le.mp hn.near).2
  -- both are just one half away, from the same number
  obtain rfl : u = v := by linarith
  exact hlt (hn.unique hk).le

theorem Counts.mono {bits : ℕ} {floor : ℤ} {u v : ℚ} {n k : ℕ} {t j : ℤ}
    (hn : Counts bits floor u n t)
    (hk : Counts bits floor v k j) (h : u ≤ v) : size n t ≤ size k j := by
  have hfloor := hn.floor_le
  have hfloor' := hk.floor_le
  -- by the units; between two of them lies a number that needs no rounding
  obtain hlt | rfl | hgt := lt_trichotomy t j
  · -- the last number of the smaller unit is not below the one and not above the other
    have hlast : size (2 ^ (bits + 1)) t = 2 ^ (bits + 1 + t : ℤ) :=
      (two_pow_add (bits + 1) t).symm
    refine (hn.ge le_rfl hfloor (hn.short.le.trans_eq hlast.symm)).trans
      (hk.le le_rfl hfloor (hlast.trans_le ?_))
    refine le_trans ?_ (hk.full.resolve_left (by omega))
    exact zpow_le_zpow_right₀ (by norm_num) (by omega)
  · have hle : n ≤ k := hn.nearest.mono hk.nearest (div_le_div_of_nonneg_right h (by positivity))
    exact mul_le_mul_of_nonneg_right (by exact_mod_cast hle) (by positivity)
  · -- a larger unit is for larger numbers
    have hpow := ((hn.full.resolve_left (by omega)).trans h).trans_lt hk.short
    have := (zpow_lt_zpow_iff_right₀ (by norm_num : (1 : ℚ) < 2)).mp hpow
    omega

theorem counts_zero : Counts 23 (-149) 0 0 (-149) :=
  ⟨le_rfl, by simpa using nearest_self 0, by positivity, .inl rfl⟩

/-- Zero is counted as zero, in whatever unit. -/
theorem Counts.size_eq_zero {n : ℕ} {t : ℤ} (h : Counts 23 (-149) 0 n t) : size n t = 0 :=
  h.eq (Nat.zero_le _) (by norm_num : (-149 : ℤ) ≤ 0) (by simp [size])

/-- Whatever is on the grid is counted as itself. -/
theorem exists_counts_size {k : ℕ} {j : ℤ} (hk : k ≤ 2 ^ 24) (hj : -149 ≤ j) :
    ∃ n t, Counts 23 (-149) (size k j) n t ∧ size n t = size k j := by
  by_cases hzero : k = 0
  · subst hzero
    rw [show size 0 j = 0 by simp [size]]
    exact ⟨0, -149, counts_zero, by simp [size]⟩
  · obtain ⟨n, t, hcounts, -⟩ := exists_counts_magnitudeBits .single hzero j
    exact ⟨n, t, hcounts, hcounts.eq hk hj rfl⟩

/-! ### Rounding to the grid -/

/-- **A rational number rounded to the grid.** Its size is counted in units, and the sign is kept.
-/
def IsRounded (v q : ℚ) : Prop :=
  ∃ s u n t, 0 ≤ u ∧ Counts 23 (-149) u n t ∧ v = withSign s u ∧ q = withSign s (size n t)

namespace IsRounded

variable {v w q r : ℚ}

/-- **What is on the grid** is rounded to itself. -/
theorem self (h : OnGrid v) : IsRounded v v := by
  obtain ⟨s, k, j, hk, hj, rfl⟩ := h
  obtain ⟨n, t, hcounts, hsize⟩ := exists_counts_size hk hj
  exact ⟨s, _, n, t, size_nonneg k j, hcounts, rfl, by rw [hsize]⟩

/-- The size is rounded on its own. -/
theorem abs (h : IsRounded v q) : IsRounded |v| |q| := by
  obtain ⟨s, u, n, t, hu, hcounts, rfl, rfl⟩ := h
  exact ⟨.positive, u, n, t, hu, hcounts, abs_withSign s hu, abs_withSign s (size_nonneg n t)⟩

theorem mono (hv : IsRounded v q) (hw : IsRounded w r) (h : v ≤ w) : q ≤ r := by
  obtain ⟨s, u, n, t, hu, hn, rfl, rfl⟩ := hv
  obtain ⟨s', u', k, j, hu', hk, rfl, rfl⟩ := hw
  have hn0 := size_nonneg n t
  have hk0 := size_nonneg k j
  cases s with
  | negative =>
    cases s' with
    | negative => exact neg_le_neg (hk.mono hn (neg_le_neg_iff.mp h))
    | positive => exact (neg_nonpos.mpr hn0).trans hk0
  | positive =>
    cases s' with
    | positive => exact hn.mono hk h
    | negative =>
      -- only zero is both above zero and below it
      change u ≤ -u' at h
      obtain rfl : u = 0 := by linarith
      obtain rfl : u' = 0 := by linarith
      change size n t ≤ -size k j
      rw [hn.size_eq_zero, hk.size_eq_zero, neg_zero]

theorem exists_counts (h : IsRounded v q) (hv : 0 ≤ v) :
    ∃ n t, Counts 23 (-149) v n t ∧ q = size n t := by
  obtain ⟨s, u, n, t, hu, hcounts, rfl, rfl⟩ := h
  cases s with
  | positive => exact ⟨n, t, hcounts, rfl⟩
  | negative =>
    change 0 ≤ -u at hv
    obtain rfl : u = 0 := by linarith
    refine ⟨n, t, by rwa [withSign_zero], ?_⟩
    rw [hcounts.size_eq_zero, withSign_zero]

theorem eq_of_onGrid (h : IsRounded v q) (hv : OnGrid v) : q = v :=
  le_antisymm (h.mono (self hv) le_rfl) ((self hv).mono h le_rfl)

theorem exists_error (h : IsRounded v q) :
    ∃ n t, Counts 23 (-149) |v| n t ∧ |q - v| = |size n t - (|v|)| := by
  obtain ⟨s, u, n, t, hu, hcounts, rfl, rfl⟩ := h
  rw [abs_withSign s hu]
  refine ⟨n, t, hcounts, ?_⟩
  -- the sign is taken off both sides
  cases s with
  | positive => rfl
  | negative =>
    change |-size n t - -u| = |size n t - u|
    rw [neg_sub_neg, abs_sub_comm]

/-- **Rounding changes little:** by one part in `2 ^ 24`, if the number is not too small. -/
theorem error_le_of_le (h : IsRounded v q) (hv : 1 / 2 ^ 126 ≤ |v|) : |q - v| ≤ |v| / 2 ^ 24 := by
  obtain ⟨n, t, hcounts, herror⟩ := h.exists_error
  rw [herror]
  refine hcounts.error_le (le_trans (le_of_eq ?_) hv)
  norm_num

theorem error_le (h : IsRounded v q) : |q - v| ≤ |v| / 2 ^ 24 + 1 / 2 ^ 150 := by
  by_cases hlarge : 1 / 2 ^ 126 ≤ |v|
  · exact (h.error_le_of_le hlarge).trans (le_add_of_nonneg_right (by positivity))
  · obtain ⟨n, t, hcounts, herror⟩ := h.exists_error
    -- the unit is the smallest one
    obtain rfl : t = -149 := by
      refine hcounts.full.resolve_right fun hle => hlarge (le_trans ?_ hle)
      refine le_trans (le_of_eq ?_) (zpow_le_zpow_right₀ (by norm_num : (1 : ℚ) ≤ 2)
        (show (-126 : ℤ) ≤ (23 : ℕ) + t by have := hcounts.floor_le; push_cast; omega))
      norm_num
    have hunit : (0 : ℚ) < 2 ^ (-149 : ℤ) := by positivity
    have hsplit : size n (-149) - |v| = (n - |v| / 2 ^ (-149 : ℤ)) * 2 ^ (-149 : ℤ) := by
      rw [size]
      field_simp
    rw [herror, hsplit, abs_mul, abs_of_pos hunit]
    calc |(n : ℚ) - |v| / 2 ^ (-149 : ℤ)| * 2 ^ (-149 : ℤ) ≤ 1 / 2 * 2 ^ (-149 : ℤ) :=
          mul_le_mul_of_nonneg_right hcounts.nearest.near hunit.le
      _ = 1 / 2 ^ 150 := by norm_num
      _ ≤ |v| / 2 ^ 24 + 1 / 2 ^ 150 := le_add_of_nonneg_left (by positivity)

end IsRounded

/-! ### From the grid to numbers -/

/-- **A number in place of one on the grid:** an infinity if that one is too large. -/
inductive Holds (x : Float32) (q : ℚ) : Prop
  /-- It is the value of the number. -/
  | finite (hx : x.isFinite = true) (hq : value x = q)
  /-- It is too large. -/
  | above (hx : x.toModel.unpack = .infinity .positive) (hq : 2 ^ 128 ≤ q)
  /-- It is too large, with a minus. -/
  | below (hx : x.toModel.unpack = .infinity .negative) (hq : q ≤ -2 ^ 128)

namespace Holds

variable {x y : Float32} {q r : ℚ}

theorem neg_infinity_le (hx : x.toModel.unpack = .infinity .negative)
    (hy : y.toModel.unpack ≠ .notANumber) : x ≤ y := by
  rw [le_iff, hx, unpacked_le_iff]
  refine ⟨nofun, hy, ?_⟩
  cases hu : y.toModel.unpack with
  | notANumber => exact absurd hu hy
  | infinity s | zero s | finite s => cases s <;> simp [rank, Prod.Lex.toLex_le_toLex]

theorem le_infinity (hx : x.toModel.unpack ≠ .notANumber)
    (hy : y.toModel.unpack = .infinity .positive) : x ≤ y := by
  rw [le_iff, hy, unpacked_le_iff]
  refine ⟨hx, nofun, ?_⟩
  cases hu : x.toModel.unpack with
  | notANumber => exact absurd hu hx
  | infinity s | zero s | finite s => cases s <;> simp [rank, Prod.Lex.toLex_le_toLex]

theorem lt_infinity (hx : x.isFinite = true) (hy : y.toModel.unpack = .infinity .positive) :
    x < y := by
  rw [lt_iff, hy]
  obtain ⟨s, hx⟩ | ⟨s, m, e, hm, hx⟩ := unpack_cases_of_isFinite hx
  · rw [hx]
    rfl
  · rw [hx]
    cases s <;> rfl

theorem ne_notANumber (h : Holds x q) : x.toModel.unpack ≠ .notANumber := by
  cases h with
  | finite hx hq =>
    intro hnan
    rw [isFinite_of_unpack hnan] at hx
    cases hx
  | above hx hq | below hx hq =>
    rw [hx]
    nofun

/-- What is not too large is a value. -/
theorem isFinite_of_lt (h : Holds x q) (hq : |q| < 2 ^ 128) : x.isFinite = true := by
  obtain ⟨hlow, hhigh⟩ := abs_lt.mp hq
  cases h with
  | finite hx _ => exact hx
  | above _ hge => exact absurd hhigh (not_lt.mpr hge)
  | below _ hle => exact absurd hlow (not_lt.mpr hle)

theorem value_eq (h : Holds x q) (hx : x.isFinite = true) : value x = q := by
  cases h with
  | finite _ hq => exact hq
  | above hinf hq | below hinf hq =>
    rw [isFinite_of_unpack hinf] at hx
    cases hx

/-- **Numbers are in the order** of what they hold. -/
theorem le (hx : Holds x q) (hy : Holds y r) (h : q ≤ r) : x ≤ y := by
  have hxn := hx.ne_notANumber
  have hyn := hy.ne_notANumber
  -- an infinity holds what no finite number reaches, so only two finite ones are compared
  cases hx with
  | below hx _ => exact neg_infinity_le hx hyn
  | above hx hq =>
    cases hy with
    | above hy _ => exact le_infinity hxn hy
    | finite hy hr =>
      have hlt := (abs_lt.mp (abs_value_lt hy)).2
      linarith
    | below _ hr =>
      have hpos : (0 : ℚ) < 2 ^ 128 := by positivity
      linarith
  | finite hx hq =>
    cases hy with
    | above hy _ => exact le_infinity hxn hy
    | finite hy hr =>
      rw [le_iff_value_le hx hy, hq, hr]
      exact h
    | below _ hr =>
      have hlt := (abs_lt.mp (abs_value_lt hx)).1
      linarith

/-- A mantissa and an exponent as they are kept are packed as a number that holds their value. -/
theorem of_fits {s : Sign} {m : ℕ} {e : ℤ} {hm : 0 < m} (hfits : FitsIn .binary32 m e)
    (hx : x.toModel.unpack = unpack .binary32 ((UnpackedFloat.finite s m e hm).pack .binary32)) :
    Holds x (withSign s (size m e)) := by
  -- beyond the largest exponent the number is packed as an infinity
  by_cases he : e ≤ maxExponent .binary32
  · rw [unpack_pack_of_fits hfits he] at hx
    exact .finite (isFinite_of_unpack hx) (value_of_finite hx)
  · rw [unpack_pack_of_overflow (not_le.mp he)] at hx
    have hmax : maxExponent .binary32 = 104 := rfl
    have hmin : Format.binary32.minExponent = -149 := rfl
    have hlarge : (2 : ℚ) ^ 128 ≤ size m e := by
      rw [← zpow_natCast]
      refine le_trans ?_ (hfits.le_size (by omega))
      exact zpow_le_zpow_right₀ (by norm_num) (by change (128 : ℤ) ≤ 23 + e; omega)
    cases s with
    | positive => exact .above hx hlarge
    | negative => exact .below hx (neg_le_neg hlarge)

end Holds

/-! ### Both steps -/

/-- **What a rational number is rounded to.** -/
def RoundsTo (v : ℚ) (x : Float32) : Prop :=
  ∃ q, IsRounded v q ∧ Holds x q

/-- The library rounds sizes to numbers, with the sign that it is given. -/
theorem roundsTo_of_rounds {x : Float32} {s : Sign} {v : ℚ} {u : UnpackedFloat} (hv : 0 ≤ v)
    (h : Rounds .binary32 s v u) (hx : x.toModel.unpack = unpack .binary32 (u.pack .binary32)) :
    RoundsTo (withSign s v) x := by
  -- to zero, or to a mantissa and an exponent
  cases h with
  | @zero t hcounts =>
    rw [unpack_pack_zero] at hx
    refine ⟨_, ⟨s, v, 0, t, hv, hcounts, rfl, rfl⟩, .finite (isFinite_of_unpack hx) ?_⟩
    rw [IsZero.value_eq ⟨s, hx⟩, size, Nat.cast_zero, zero_mul, withSign_zero]
  | @finite n t m e hm hcounts hfits heq =>
    exact ⟨_, ⟨s, v, n, t, hv, hcounts, rfl, rfl⟩, heq ▸ Holds.of_fits hfits hx⟩

/-- **A number is what its value is rounded to.** -/
theorem roundsTo_value {x : Float32} (hx : x.isFinite = true) : RoundsTo (value x) x :=
  ⟨value x, .self (onGrid_value hx), .finite hx rfl⟩

theorem roundsTo_zero {x : Float32} (hx : IsZero x) : RoundsTo 0 x :=
  hx.value_eq ▸ roundsTo_value hx.isFinite

namespace RoundsTo

variable {x y : Float32} {v w : ℚ}

theorem ne_notANumber (h : RoundsTo v x) : x.toModel.unpack ≠ .notANumber := by
  obtain ⟨q, -, hq⟩ := h
  exact hq.ne_notANumber

/-- A number is on the grid where the rational number was rounded to. -/
theorem isRounded (h : RoundsTo v x) (hx : x.isFinite = true) : IsRounded v (value x) := by
  obtain ⟨q, hvq, hq⟩ := h
  rwa [hq.value_eq hx]

theorem mono (hx : RoundsTo v x) (hy : RoundsTo w y) (h : v ≤ w) : x ≤ y := by
  obtain ⟨q, hvq, hq⟩ := hx
  obtain ⟨r, hwr, hr⟩ := hy
  exact hq.le hr (hvq.mono hwr h)

/-- **Rounding does not cross a number.** -/
theorem le_of_le_value (hx : RoundsTo v x) (hy : y.isFinite = true) (h : v ≤ value y) : x ≤ y :=
  hx.mono (roundsTo_value hy) h

theorem ge_of_value_le (hx : RoundsTo v x) (hy : y.isFinite = true) (h : value y ≤ v) : y ≤ x :=
  (roundsTo_value hy).mono hx h

/-- **Rounding keeps the order of sizes,** and what is not larger than a number is not too large. -/
theorem abs_value_le (hx : RoundsTo v x) (hy : RoundsTo w y) (hyf : y.isFinite = true)
    (h : |v| ≤ |w|) : x.isFinite = true ∧ |value x| ≤ |value y| := by
  obtain ⟨q, hvq, hq⟩ := hx
  -- sizes are rounded on their own, so their order is kept
  have hle : |q| ≤ |value y| := hvq.abs.mono (hy.isRounded hyf).abs h
  have hx := hq.isFinite_of_lt (hle.trans_lt (abs_value_lt hyf))
  rw [hq.value_eq hx]
  exact ⟨hx, hle⟩

theorem isFinite_of_abs_le (hx : RoundsTo v x) (hy : y.isFinite = true) (h : |v| ≤ value y) :
    x.isFinite = true :=
  (hx.abs_value_le (roundsTo_value hy) hy (h.trans (le_abs_self _))).1

theorem value_eq (h : RoundsTo v x) (hgrid : OnGrid v) (hx : x.isFinite = true) : value x = v := by
  obtain ⟨q, hvq, hq⟩ := h
  rw [hq.value_eq hx, hvq.eq_of_onGrid hgrid]

theorem exact (h : RoundsTo v x) (hgrid : OnGrid v) (hv : |v| < 2 ^ 128) :
    x.isFinite = true ∧ value x = v := by
  have hx : x.isFinite = true := by
    obtain ⟨q, hvq, hq⟩ := h
    rw [hvq.eq_of_onGrid hgrid] at hq
    exact hq.isFinite_of_lt hv
  exact ⟨hx, h.value_eq hgrid hx⟩

theorem error_le (h : RoundsTo v x) (hx : x.isFinite = true) :
    |value x - v| ≤ |v| / 2 ^ 24 + 1 / 2 ^ 150 :=
  (h.isRounded hx).error_le

/-- What is not below zero grows and shrinks by one part in `2 ^ 24` at most, and half of the
smallest unit. -/
theorem bounds (h : RoundsTo v x) (hx : x.isFinite = true) (hv : 0 ≤ v) :
    v * (1 - 1 / 2 ^ 24) ≤ value x + 1 / 2 ^ 150 ∧
        value x ≤ v * (1 + 1 / 2 ^ 24) + 1 / 2 ^ 150 := by
  have herror := abs_le.mp (h.error_le hx)
  rw [abs_of_nonneg hv] at herror
  constructor <;> linarith [herror.1, herror.2]

theorem value_nonneg (h : RoundsTo v x) (hx : x.isFinite = true) (hv : 0 ≤ v) : 0 ≤ value x :=
  (IsRounded.self onGrid_zero).mono (h.isRounded hx) hv

theorem value_le_value (hx : RoundsTo v x) (hy : RoundsTo w y) (hxf : x.isFinite = true)
    (hyf : y.isFinite = true) (h : v ≤ w) : value x ≤ value y :=
  (le_iff_value_le hxf hyf).mp (hx.mono hy h)

end RoundsTo

end Skirmish.Numeric
