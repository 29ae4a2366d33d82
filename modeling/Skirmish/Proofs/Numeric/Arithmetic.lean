import Skirmish.Proofs.Numeric.Roundings
import Skirmish.Proofs.Numeric.Sums

/-!
# Arithmetic

The operations in single precision, as roundings of exact results:

* `exists_rounds_sqrt` — a square root is rounded to an integer whose halfway points are around it;
* `roundsTo_add`, `roundsTo_mul` and `roundsTo_div` — the result is what the exact one is rounded
  to.
-/

/-! ## Quotients and square roots

Neither a quotient nor a square root has to have finitely many bits. The library computes as many as
are needed to round, and what it knows of the others is where the number is between an integer and
the next.

* `represents_divCore` — a quotient has enough bits;
* `rootMark` — a rational number in place of a square root;
* `Squeezed` — an integer whose halfway points are around a square root;
* `exists_rounds_sqrt` — a square root is rounded to such an integer.

A square root need not be rational, so there is no rational number that it could be compared with.
But the halfway points between integers are rational, and so is which side of them it is on.
-/

namespace Skirmish.Numeric

open Float.Model
open Float.Model.UnpackedFloat

variable {spec : Format}

/-! ### Quotients -/

section Quotients

variable {m₁ m₂ q : ℕ} {e₁ e₂ e : ℤ} {accuracy : Accuracy}

theorem two_pow_le_div (hm₂ : 0 < m₂) {m : ℕ} (hm : m ≠ 0) {bits : ℕ}
    (h : m₂.log2 + 1 + bits ≤ m.log2) : 2 ^ bits ≤ m / m₂ := by
  rw [Nat.le_div_iff_mul_le hm₂]
  calc 2 ^ bits * m₂ ≤ 2 ^ bits * 2 ^ (m₂.log2 + 1) := Nat.mul_le_mul_left _ Nat.lt_log2_self.le
    _ = 2 ^ (m₂.log2 + 1 + bits) := by rw [← Nat.pow_add, Nat.add_comm]
    _ ≤ 2 ^ m.log2 := Nat.pow_le_pow_right (by decide) h
    _ ≤ m := Nat.log2_self_le hm

theorem represents_divCore (hm₁ : 0 < m₁) (hm₂ : 0 < m₂)
    (h : divCore spec m₁ e₁ m₂ e₂ = (q, e, accuracy)) :
    Enough spec q e ∧
      Represents (.ofMantissaAndAccuracy q accuracy) (size m₁ e₁ / size m₂ e₂ / 2 ^ e) := by
  obtain ⟨unit, hunit⟩ : ∃ unit, unit = min (e₁ - e₂)
      (spec.targetExponent (totalExponent m₁ e₁ - totalExponent m₂ e₂)) := ⟨_, rfl⟩
  obtain ⟨k, hk⟩ : ∃ k, k = (e₁ - e₂ - unit).toNat := ⟨_, rfl⟩
  -- the dividend is shifted to the unit of the quotient
  have hcore : divCore spec m₁ e₁ m₂ e₂ =
      (m₁ * 2 ^ k / m₂, unit, accuracyOfFraction (m₁ * 2 ^ k % m₂) m₂) := by
    rw [hk, hunit, ← Nat.shiftLeft_eq]
    rfl
  have htarget : spec.targetExponent (totalExponent m₁ e₁ - totalExponent m₂ e₂) =
      max ((m₁.log2 + e₁) - (m₂.log2 + e₂) - spec.mantissaBitsWithoutImplicit - 1 : ℤ)
        spec.minExponent := by
    unfold Format.targetExponent totalExponent Format.mantissaBits
    congr 1
    push_cast
    ring
  rw [hcore] at h
  simp only [Prod.mk.injEq] at h
  obtain ⟨rfl, rfl, rfl⟩ := h
  refine ⟨?_, ?_⟩
  · by_cases hfloor : unit ≤ spec.minExponent
    · exact .inl hfloor
    · -- the unit is not the smallest one, so the dividend was given the bits that it needs
      refine enough_of_full (two_pow_le_div hm₂ (by positivity) ?_) _
      rw [log2_mul_two_pow hm₁.ne']
      omega
  · -- in that unit the exact quotient is the integer part and the remainder
    have hvalue : size m₁ e₁ / size m₂ e₂ / 2 ^ unit =
        ((m₁ * 2 ^ k / m₂ : ℕ) : ℚ) + ((m₁ * 2 ^ k % m₂ : ℕ) : ℚ) / m₂ := by
      have hpos : (0 : ℚ) < m₂ := by exact_mod_cast hm₂
      have hsum : ((m₂ * (m₁ * 2 ^ k / m₂) + m₁ * 2 ^ k % m₂ : ℕ) : ℚ) = (m₁ * 2 ^ k : ℕ) := by
        exact_mod_cast Nat.div_add_mod (m₁ * 2 ^ k) m₂
      have hunits : (2 : ℚ) ^ e₁ = 2 ^ k * (2 ^ e₂ * 2 ^ unit) := by
        rw [← zpow_natCast, ← zpow_add₀ (by norm_num), ← zpow_add₀ (by norm_num)]
        congr 1
        omega
      push_cast at hsum
      rw [size, size, hunits]
      field_simp
      linarith
    rw [hvalue]
    exact represents_fraction _ (Nat.mod_lt _ hm₂)

end Quotients

/-! ### Square roots -/

section Roots

variable {m n k : ℕ}

def rootAccuracy (m : ℕ) : Accuracy :=
  if m - m.sqrt * m.sqrt = 0 then .exact
  else .inexact (if m - m.sqrt * m.sqrt ≤ m.sqrt then .lt else .gt)

/-- **A rational number in place of the root** of an integer. It has the same integer part, and is
on the same side of the next half. -/
def rootMark (m : ℕ) : ℚ :=
  if m - m.sqrt * m.sqrt = 0 then m.sqrt
  else m.sqrt + if m - m.sqrt * m.sqrt ≤ m.sqrt then 1 / 4 else 3 / 4

/-- The root is an integer, or it is before the next half, or behind it. No root is at a half. -/
theorem rootMark_cases (m : ℕ) :
    (m = m.sqrt * m.sqrt ∧ rootAccuracy m = .exact ∧ rootMark m = m.sqrt) ∨
    (m.sqrt * m.sqrt < m ∧ m ≤ m.sqrt * m.sqrt + m.sqrt ∧
      rootAccuracy m = .inexact .lt ∧ rootMark m = m.sqrt + 1 / 4) ∨
    (m.sqrt * m.sqrt + m.sqrt < m ∧ m ≤ m.sqrt * m.sqrt + m.sqrt + m.sqrt ∧
      rootAccuracy m = .inexact .gt ∧ rootMark m = m.sqrt + 3 / 4) := by
  have hlower := Nat.sqrt_le m
  have hupper := Nat.sqrt_le_add m
  unfold rootAccuracy rootMark
  -- an integer root at a half would make four times the integer an odd square
  by_cases hexact : m - m.sqrt * m.sqrt = 0
  · simp only [if_pos hexact]
    exact .inl ⟨by omega, trivial, trivial⟩
  · by_cases hlow : m - m.sqrt * m.sqrt ≤ m.sqrt
    · simp only [if_neg hexact, if_pos hlow]
      exact .inr (.inl ⟨by omega, by omega, trivial, trivial⟩)
    · simp only [if_neg hexact, if_neg hlow]
      exact .inr (.inr ⟨by omega, by omega, trivial, trivial⟩)

theorem sqrt_le_rootMark (m : ℕ) : (m.sqrt : ℚ) ≤ rootMark m := by
  obtain ⟨-, -, hmark⟩ | ⟨-, -, -, hmark⟩ | ⟨-, -, -, hmark⟩ := rootMark_cases m <;>
    rw [hmark] <;> linarith

theorem represents_rootMark (m : ℕ) :
    Represents (.ofMantissaAndAccuracy m.sqrt (rootAccuracy m)) (rootMark m) := by
  obtain ⟨-, hacc, hmark⟩ | ⟨-, -, hacc, hmark⟩ | ⟨-, -, hacc, hmark⟩ := rootMark_cases m <;>
    rw [hacc, hmark]
  · exact represents_exact _
  · exact_mod_cast represents_fraction m.sqrt (show 1 < 4 by decide)
  · exact_mod_cast represents_fraction m.sqrt (show 3 < 4 by decide)

/-- **Halves above the mark** are not below the root. -/
theorem le_sq_of_rootMark_le (hle : 2 * rootMark m ≤ k) : 4 * m ≤ k * k := by
  -- by where the mark is; a half above it is above the root too
  obtain ⟨hm, -, hmark⟩ | ⟨-, hm, -, hmark⟩ | ⟨-, hm, -, hmark⟩ := rootMark_cases m <;>
    rw [hmark] at hle <;> generalize m.sqrt = r at hm hle
  · have hr : 2 * r ≤ k := by exact_mod_cast hle
    nlinarith
  · have hr : 2 * r < k := by
      have : ((2 * r : ℕ) : ℚ) < k := by push_cast; linarith
      exact_mod_cast this
    nlinarith
  · have hr : 2 * r + 1 < k := by
      have : ((2 * r + 1 : ℕ) : ℚ) < k := by push_cast; linarith
      exact_mod_cast this
    nlinarith

/-- **Halves below the mark** are not above the root. -/
theorem sq_le_of_le_rootMark (hle : k ≤ 2 * rootMark m) : k * k ≤ 4 * m := by
  -- by where the mark is; a half below it is below the root too
  obtain ⟨hm, -, hmark⟩ | ⟨hm, -, -, hmark⟩ | ⟨hm, -, -, hmark⟩ := rootMark_cases m <;>
    rw [hmark] at hle <;> generalize m.sqrt = r at hm hle
  · have hr : k ≤ 2 * r := by exact_mod_cast hle
    nlinarith
  · have hr : k < 2 * r + 1 := by
      have : (k : ℚ) < (2 * r + 1 : ℕ) := by push_cast; linarith
      exact_mod_cast this
    nlinarith
  · have hr : k < 2 * r + 2 := by
      have : (k : ℚ) < (2 * r + 2 : ℕ) := by push_cast; linarith
      exact_mod_cast this
    nlinarith

/-- **An integer next to a root:** in its unit, the root is between the halves before it and after
it. -/
structure Squeezed (n : ℕ) (t : ℤ) (v : ℚ) : Prop where
  /-- The half before it is not above the root. -/
  lower : 0 < n → ((n - 1 / 2) * 2 ^ t) ^ 2 ≤ v
  /-- The half after it is not below the root. -/
  upper : v ≤ ((n + 1 / 2) * 2 ^ t) ^ 2

/-- **What the mark is rounded to** is next to the root, in any larger unit. -/
theorem squeezed_of_nearest {unit t : ℤ} (hunit : unit ≤ t)
    (hnearest : Nearest n (rootMark m * 2 ^ unit / 2 ^ t)) : Squeezed n t (size m (2 * unit)) := by
  obtain ⟨d, hd⟩ : ∃ d : ℕ, t = unit + d := ⟨(t - unit).toNat, by omega⟩
  have hpow : (2 : ℚ) ^ t = 2 ^ d * 2 ^ unit := by
    rw [hd, zpow_add₀ (by norm_num), zpow_natCast, mul_comm]
  have hdpos : (0 : ℚ) < 2 ^ d := by positivity
  have hscale : rootMark m * 2 ^ unit / 2 ^ t = rootMark m / 2 ^ d := by
    rw [hpow]
    field_simp
  obtain ⟨hlow, hhigh⟩ := abs_le.mp hnearest.near
  rw [hscale] at hlow hhigh
  -- squares of halves are compared as integers, in the small unit
  have hsquare : ∀ a : ℚ, (a * 2 ^ t) ^ 2 = (a * 2 ^ d) ^ 2 * (2 ^ unit) ^ 2 := by
    intro a
    rw [hpow]
    ring
  have hsize : size m (2 * unit) = m * (2 ^ unit) ^ 2 := by
    rw [size, two_mul, zpow_add₀ (by norm_num), sq]
  refine ⟨fun hn => ?_, ?_⟩
  · -- the half before, counted in halves of the small unit
    obtain ⟨k, rfl⟩ : ∃ k, n = k + 1 := ⟨n - 1, by omega⟩
    have hle : (((2 * k + 1) * 2 ^ d : ℕ) : ℚ) ≤ 2 * rootMark m := by
      have hmul : ((k : ℚ) + 1 / 2) * 2 ^ d ≤ rootMark m := by
        rw [← le_div_iff₀ hdpos]
        push_cast at hhigh
        linarith
      push_cast
      linarith
    have hsq : ((((2 * k + 1) * 2 ^ d) * ((2 * k + 1) * 2 ^ d) : ℕ) : ℚ) ≤ (4 * m : ℕ) := by
      exact_mod_cast sq_le_of_le_rootMark hle
    push_cast at hsq ⊢
    rw [hsquare, hsize]
    exact mul_le_mul_of_nonneg_right (by linarith) (by positivity)
  · have hle : 2 * rootMark m ≤ ((2 * n + 1) * 2 ^ d : ℕ) := by
      have hmul : rootMark m ≤ (n + 1 / 2) * 2 ^ d := by
        rw [← div_le_iff₀ hdpos]
        linarith
      push_cast
      linarith
    have hsq : ((4 * m : ℕ) : ℚ) ≤ (((2 * n + 1) * 2 ^ d) * ((2 * n + 1) * 2 ^ d) : ℕ) := by
      exact_mod_cast le_sq_of_rootMark_le hle
    push_cast at hsq ⊢
    rw [hsquare, hsize]
    exact mul_le_mul_of_nonneg_right (by linarith) (by positivity)

theorem Counts.le_unit {v : ℚ} {e t : ℤ}
    (hcounts : Counts spec.mantissaBitsWithoutImplicit spec.minExponent v n t)
    (henough : Enough spec m e) (hle : size m e ≤ v) : e ≤ t := by
  obtain he | ⟨hm, he⟩ := henough
  · exact he.trans hcounts.floor_le
  · rw [targetExponent_eq] at he
    by_contra hlt
    have hfloor := hcounts.floor_le
    -- the leading bit would not fit
    have hshort :=
      ((two_pow_log2_le_size (Nat.pos_of_ne_zero hm) e).trans hle).trans_lt hcounts.short
    have := (zpow_lt_zpow_iff_right₀ (by norm_num)).mp hshort
    omega

/-- **A square root is rounded** from a number in its place, which is counted as an integer next to
the root. -/
theorem exists_rounds_sqrt (spec : Format) (hm : 0 < m) (e : ℤ) :
    ∃ v, 0 ≤ v ∧ Rounds spec .positive v (UnpackedFloat.sqrt spec (.finite .positive m e hm)) ∧
      ∀ n t, Counts spec.mantissaBitsWithoutImplicit spec.minExponent v n t →
        Squeezed n t (size m e) := by
  obtain ⟨unit, hunit⟩ : ∃ unit, unit = min (e / 2)
      (spec.targetExponent ((totalExponent m e + 1) / 2)) := ⟨_, rfl⟩
  obtain ⟨k, hk⟩ : ∃ k, k = (e - 2 * unit).toNat := ⟨_, rfl⟩
  have hsqrt : UnpackedFloat.sqrt spec (.finite .positive m e hm) =
      roundWithAccuracy spec .positive (m * 2 ^ k).sqrt unit (rootAccuracy (m * 2 ^ k)) := by
    rw [hk, hunit, ← Nat.shiftLeft_eq]
    rfl
  have hhalf : unit ≤ e / 2 := hunit ▸ min_le_left _ _
  have hrep := represents_rootMark (m * 2 ^ k)
  have hscale : rootMark (m * 2 ^ k) = rootMark (m * 2 ^ k) * 2 ^ unit / 2 ^ unit := by
    rw [mul_div_cancel_right₀ _ (by positivity)]
  have hlower : ((m * 2 ^ k).sqrt : ℚ) ≤ rootMark (m * 2 ^ k) := sqrt_le_rootMark _
  have henough : Enough spec (m * 2 ^ k).sqrt unit := by
    by_cases hfloor : unit ≤ spec.minExponent
    · exact .inl hfloor
    · -- the unit is not the smallest one, so the root was given the bits that it needs
      have hlog : (m * 2 ^ k).log2 = m.log2 + k := log2_mul_two_pow hm.ne' k
      have htarget : unit ≤ (m.log2 + 2 + e) / 2 - spec.mantissaBitsWithoutImplicit - 1 := by
        unfold Format.targetExponent totalExponent Format.mantissaBits at hunit
        omega
      have hbits : 2 * spec.mantissaBitsWithoutImplicit ≤ (m * 2 ^ k).log2 := by
        rw [hlog]
        omega
      refine enough_of_full ?_ _
      rw [Nat.le_sqrt, ← Nat.pow_add, ← two_mul]
      exact (Nat.pow_le_pow_right (by decide) hbits).trans (Nat.log2_self_le (by positivity))
  refine ⟨rootMark (m * 2 ^ k) * 2 ^ unit, ?_, ?_, fun n t hcounts => ?_⟩
  · exact mul_nonneg ((Nat.cast_nonneg _).trans hlower) (by positivity)
  · rw [hsqrt]
    exact rounds_roundWithAccuracy henough (hscale ▸ hrep)
  · -- the unit of the count is no smaller than that of the mark
    have hle : size (m * 2 ^ k).sqrt unit ≤ rootMark (m * 2 ^ k) * 2 ^ unit :=
      mul_le_mul_of_nonneg_right hlower (by positivity)
    rw [size_eq_of_le m (show 2 * unit ≤ e by omega), ← hk]
    exact squeezed_of_nearest (hcounts.le_unit henough hle) hcounts.nearest

end Roots

end Skirmish.Numeric

/-! ## Arithmetic on values

An operation on finite numbers gives what the exact result is rounded to.

* `roundsTo_add`, `roundsTo_sub`, `roundsTo_mul` and `roundsTo_div` — the four operations;
* `sqrt_bounds` — a square root is finite, and off by one part in `2 ^ 24` at most;
* `isFinite_of_add`, `isFinite_of_mul` and `isFinite_of_sqrt` — nothing finite comes from what is
  not finite;
* `sub_exact` and `onGrid_sub` — a small difference of numbers in a common unit is exact, and so is
  a very small one.

Only the value of the result is given, so nothing is said of the sign of a zero.
-/

namespace Skirmish.Numeric

open Float.Model
open Float.Model.UnpackedFloat

variable {x y : Float32}

theorem value_eq_of_beq (h : (x == y) = true) : value x = value y := by
  obtain rfl | ⟨hx, hy⟩ := eq_or_isZero_of_beq h
  · rfl
  · rw [hx.value_eq, hy.value_eq]

/-! ### Sums -/

/-- A signed count is rounded to a number of its sign. -/
theorem roundsTo_normalize {k e : ℤ}
    (hx : x.toModel.unpack =
      unpack .binary32 ((normalize .binary32 k e .positive).pack .binary32)) :
    RoundsTo (k * 2 ^ e) x := by
  -- the library takes the sign off a count before it rounds
  obtain hneg | rfl | hpos := lt_trichotomy k 0
  · rw [normalize_of_neg hneg] at hx
    have hrounds :=
      roundsTo_of_rounds (size_nonneg _ e) (rounds_round (s := .negative) (by omega)) hx
    rw [withSign_size] at hrounds
    change RoundsTo (((-((-k).toNat : ℤ) : ℤ) : ℚ) * 2 ^ e) x at hrounds
    rwa [Int.toNat_of_nonneg (by omega), neg_neg] at hrounds
  · rw [Int.cast_zero, zero_mul]
    exact roundsTo_zero ⟨.positive, hx.trans unpack_pack_zero⟩
  · rw [normalize_of_pos hpos] at hx
    have hrounds :=
      roundsTo_of_rounds (size_nonneg _ e) (rounds_round (s := .positive) (by omega)) hx
    rw [withSign_size] at hrounds
    change RoundsTo (((k.toNat : ℤ) : ℚ) * 2 ^ e) x at hrounds
    rwa [Int.toNat_of_nonneg hpos.le] at hrounds

theorem roundsTo_add (hx : x.isFinite = true) (hy : y.isFinite = true) :
    RoundsTo (value x + value y) (x + y) := by
  obtain ⟨t, hyu⟩ | ⟨t, n, j, hn, hyu⟩ := unpack_cases_of_isFinite hy
  · -- a zero leaves the other term as it is
    have hsame := add_beq_of_isZero hx ⟨t, hyu⟩
    rw [IsZero.value_eq ⟨t, hyu⟩, add_zero, ← value_eq_of_beq hsame]
    exact roundsTo_value (isFinite_of_beq hsame hx)
  · have hadd := unpack_add x y
    obtain ⟨s, hxu⟩ | ⟨s, m, e, hm, hxu⟩ := unpack_cases_of_isFinite hx
    · obtain ⟨hfits, he⟩ := fitsIn_single hyu
      rw [hxu, hyu] at hadd
      have hsame : x + y = y :=
        eq_of_unpack_eq ((hadd.trans (unpack_pack_of_fits hfits he)).trans hyu.symm)
      rw [IsZero.value_eq ⟨s, hxu⟩, zero_add, hsame]
      exact roundsTo_value hy
    · -- both terms are counted in the smaller unit
      have hsum : value x + value y = ((s.apply (m <<< (e - min e j).toNat) +
          t.apply (n <<< (j - min e j).toNat) : ℤ) : ℚ) * 2 ^ min e j := by
        rw [value_of_finite hxu, value_of_finite hyu, size_eq_of_le m (min_le_left e j),
          size_eq_of_le n (min_le_right e j), withSign_size, withSign_size, Nat.shiftLeft_eq,
          Nat.shiftLeft_eq]
        push_cast
        ring
      rw [hsum]
      refine roundsTo_normalize ?_
      rw [hadd, hxu, hyu]
      rfl

/-- A finite number is taken off by adding its opposite. -/
theorem sub_eq_add_neg_single (x : Float32) (hy : y.isFinite = true) : x - y = x + -y := by
  have hneg : (-y).toModel.unpack = y.toModel.unpack.neg := by
    change unpack .binary32 (y.toModel.unpack.neg.pack .binary32) = _
    obtain ⟨t, hyu⟩ | ⟨t, n, j, hn, hyu⟩ := unpack_cases_of_isFinite hy
    · rw [hyu]
      exact unpack_pack_zero
    · obtain ⟨hfits, he⟩ := fitsIn_single hyu
      rw [hyu]
      exact unpack_pack_of_fits hfits he
  refine eq_of_unpack_eq ?_
  rw [unpack_add, hneg, ← unpacked_sub_eq_add_neg .binary32 hy]
  rfl

theorem roundsTo_sub (hx : x.isFinite = true) (hy : y.isFinite = true) :
    RoundsTo (value x - value y) (x - y) := by
  rw [sub_eq_add_neg_single x hy, sub_eq_add_neg, ← value_neg hy]
  exact roundsTo_add hx (isFinite_neg hy)

/-! ### Products -/

theorem enough_mul {m n : ℕ} {e j : ℤ} (hm : 0 < m) (hn : 0 < n) (hfits : FitsIn .binary32 m e)
    (hfits' : FitsIn .binary32 n j) : Enough .binary32 (m * n) (e + j) := by
  have hmin : Format.binary32.minExponent = -149 := rfl
  obtain he | hfull := hfits.full
  · obtain hj | hfull := hfits'.full
    · exact .inl (by omega)
    · exact enough_of_full (hfull.trans (Nat.le_mul_of_pos_left _ hm)) _
  · exact enough_of_full (hfull.trans (Nat.le_mul_of_pos_right _ hn)) _

theorem roundsTo_mul (hx : x.isFinite = true) (hy : y.isFinite = true) :
    RoundsTo (value x * value y) (x * y) := by
  obtain ⟨s, hxu⟩ | ⟨s, m, e, hm, hxu⟩ := unpack_cases_of_isFinite hx
  · rw [IsZero.value_eq ⟨s, hxu⟩, zero_mul]
    exact roundsTo_zero (isZero_mul_left ⟨s, hxu⟩ hy)
  · obtain ⟨t, hyu⟩ | ⟨t, n, j, hn, hyu⟩ := unpack_cases_of_isFinite hy
    · rw [IsZero.value_eq ⟨t, hyu⟩, mul_zero]
      exact roundsTo_zero (isZero_mul hx ⟨t, hyu⟩)
    · have hmul := unpack_mul x y
      rw [hxu, hyu] at hmul
      rw [value_of_finite hxu, value_of_finite hyu, ← withSign_mul]
      refine roundsTo_of_rounds (mul_nonneg (size_nonneg m e) (size_nonneg n j)) ?_ hmul
      refine rounds_roundWithAccuracy
        (enough_mul hm hn (fitsIn_single hxu).1 (fitsIn_single hyu).1) ?_
      have hsize : size m e * size n j / 2 ^ (e + j) = (m * n : ℕ) := by
        rw [size, size, zpow_add₀ (by norm_num)]
        push_cast
        field_simp
      rw [hsize]
      exact represents_exact _

/-- **A product with a factor of at most one** is not larger than the other factor. -/
theorem abs_value_mul_le (hx : x.isFinite = true) (hy : y.isFinite = true) (h : |value y| ≤ 1) :
    (x * y).isFinite = true ∧ |value (x * y)| ≤ |value x| := by
  refine (roundsTo_mul hx hy).abs_value_le (roundsTo_value hx) hx ?_
  rw [abs_mul]
  exact mul_le_of_le_one_right (abs_nonneg _) h

/-! ### Quotients -/

theorem unpack_div (x y : Float32) : (x / y).toModel.unpack =
    unpack .binary32 ((x.toModel.unpack.div .binary32 y.toModel.unpack).pack .binary32) := rfl

theorem roundsTo_div (hx : x.isFinite = true) (hy : y.isFinite = true) (hne : value y ≠ 0) :
    RoundsTo (value x / value y) (x / y) := by
  obtain ⟨t, hyu⟩ | ⟨t, n, j, hn, hyu⟩ := unpack_cases_of_isFinite hy
  · exact absurd (IsZero.value_eq ⟨t, hyu⟩) hne
  · have hdiv := unpack_div x y
    obtain ⟨s, hxu⟩ | ⟨s, m, e, hm, hxu⟩ := unpack_cases_of_isFinite hx
    · -- zero divided by anything else is a zero of some sign
      rw [hxu, hyu] at hdiv
      rw [IsZero.value_eq ⟨s, hxu⟩, zero_div]
      exact roundsTo_zero ⟨s / t, hdiv.trans unpack_pack_zero⟩
    · obtain ⟨q, unit, accuracy, hcore⟩ :
          ∃ q unit accuracy, divCore .binary32 m e n j = (q, unit, accuracy) := ⟨_, _, _, rfl⟩
      obtain ⟨henough, hrep⟩ := represents_divCore hm hn hcore
      have hresult : (UnpackedFloat.finite s m e hm).div .binary32 (.finite t n j hn) =
          roundWithAccuracy .binary32 (s / t) q unit accuracy := by
        change roundWithAccuracy .binary32 (s / t) (divCore .binary32 m e n j).1
          (divCore .binary32 m e n j).2.1 (divCore .binary32 m e n j).2.2 = _
        rw [hcore]
      rw [hxu, hyu, hresult] at hdiv
      rw [value_of_finite hxu, value_of_finite hyu, ← withSign_div]
      exact roundsTo_of_rounds (div_nonneg (size_nonneg m e) (size_nonneg n j))
        (rounds_roundWithAccuracy henough hrep) hdiv

/-! ### Square roots -/

theorem unpack_sqrt (x : Float32) : x.sqrt.toModel.unpack =
    unpack .binary32 ((x.toModel.unpack.sqrt .binary32).pack .binary32) := rfl

/-- An integer with all its bits that is next to a root is off by one part in `2 ^ 24`. -/
theorem Squeezed.bounds {n : ℕ} {t : ℤ} {v : ℚ} (h : Squeezed n t v) (hn : 2 ^ 23 ≤ n) :
    (size n t * (1 - 1 / 2 ^ 24)) ^ 2 ≤ v ∧ v ≤ (size n t * (1 + 1 / 2 ^ 24)) ^ 2 := by
  have hcast : (2 : ℚ) ^ 23 ≤ n := by exact_mod_cast hn
  have hunit : (0 : ℚ) < 2 ^ t := by positivity
  have hhalf : (1 / 2 : ℚ) ≤ n * (1 / 2 ^ 24) := by linarith
  -- half a unit is one part in `2 ^ 24` of a count with all its bits
  refine ⟨le_trans ?_ (h.lower (by omega)), h.upper.trans ?_⟩
  · rw [size, mul_right_comm]
    refine pow_le_pow_left₀ (mul_nonneg (by linarith) hunit.le) ?_ 2
    exact mul_le_mul_of_nonneg_right (by linarith) hunit.le
  · rw [size, mul_right_comm]
    refine pow_le_pow_left₀ (mul_nonneg (by linarith) hunit.le) ?_ 2
    exact mul_le_mul_of_nonneg_right (by linarith) hunit.le

theorem Squeezed.ne_floor {m n : ℕ} {e t : ℤ} (h : Squeezed n t (size m e)) (hm : 0 < m)
    (he : -149 ≤ e) (hn : n ≤ 2 ^ 24) : t ≠ -149 := by
  rintro rfl
  have hcast : (n : ℚ) ≤ 2 ^ 24 := by exact_mod_cast hn
  have hleast : (2 : ℚ) ^ (-149 : ℤ) ≤ size m e := by
    have hone : (1 : ℚ) ≤ m := by exact_mod_cast hm
    calc (2 : ℚ) ^ (-149 : ℤ) ≤ 1 * 2 ^ e := by
          rw [one_mul]
          exact zpow_le_zpow_right₀ (by norm_num) he
      _ ≤ size m e := mul_le_mul_of_nonneg_right hone (by positivity)
  have hroot : (((n : ℚ) + 1 / 2) * 2 ^ (-149 : ℤ)) ^ 2 ≤ ((2 ^ 24 + 1 / 2) * 2 ^ (-149 : ℤ)) ^ 2 :=
    pow_le_pow_left₀ (by positivity) (mul_le_mul_of_nonneg_right (by linarith) (by positivity)) 2
  -- in the smallest unit even the largest count has too small a square
  have hsmall : (((2 : ℚ) ^ 24 + 1 / 2) * 2 ^ (-149 : ℤ)) ^ 2 < 2 ^ (-149 : ℤ) := by norm_num
  exact absurd (hleast.trans (h.upper.trans hroot)) (not_le.mpr hsmall)

theorem sqrt_bounds (hx : x.isFinite = true) (hnonneg : 0 ≤ value x) :
    x.sqrt.isFinite = true ∧ 0 ≤ value x.sqrt ∧ (value x.sqrt * (1 - 1 / 2 ^ 24)) ^ 2 ≤ value x ∧
      value x ≤ (value x.sqrt * (1 + 1 / 2 ^ 24)) ^ 2 := by
  have hsqrt := unpack_sqrt x
  obtain ⟨s, hxu⟩ | ⟨s, m, e, hm, hxu⟩ := unpack_cases_of_isFinite hx
  · rw [hxu] at hsqrt
    have hzero : IsZero x.sqrt := ⟨s, hsqrt.trans unpack_pack_zero⟩
    rw [hzero.value_eq, IsZero.value_eq ⟨s, hxu⟩]
    exact ⟨hzero.isFinite, le_rfl, by norm_num, by norm_num⟩
  · have hvalue := value_of_finite hxu
    have hpos := size_pos hm e
    obtain rfl : s = .positive := by
      cases s with
      | positive => rfl
      | negative =>
        change value x = -size m e at hvalue
        linarith
    change value x = size m e at hvalue
    obtain ⟨hfits, -⟩ := fitsIn_single hxu
    obtain ⟨v, hv, hrounds, hsqueezed⟩ := exists_rounds_sqrt .binary32 hm e
    rw [hxu] at hsqrt
    rw [hvalue]
    -- the number in place of the root is counted, and the count is the result
    obtain ⟨q, hrounded, hholds⟩ := roundsTo_of_rounds hv hrounds hsqrt
    obtain ⟨n, t, hcounts, rfl⟩ := hrounded.exists_counts hv
    have hroot := hsqueezed n t hcounts
    obtain ⟨hlow, hhigh⟩ :=
      hroot.bounds (hcounts.le_count (hroot.ne_floor hm hfits.floor_le hcounts.count_le))
    have hnonneg := size_nonneg n t
    have hfinite : x.sqrt.isFinite = true := by
      refine hholds.isFinite_of_lt ?_
      have hsmall : (size n t * (1 - 1 / 2 ^ 24)) ^ 2 < (2 ^ 65 * (1 - 1 / 2 ^ 24)) ^ 2 := by
        refine hlow.trans_lt (((le_abs_self _).trans_lt (hvalue ▸ abs_value_lt hx)).trans_le ?_)
        norm_num
      have hlt := lt_of_mul_lt_mul_right
        (lt_of_pow_lt_pow_left₀ 2 (by positivity) hsmall) (by norm_num)
      rw [abs_of_nonneg hnonneg]
      exact hlt.trans (by norm_num)
    rw [hholds.value_eq hfinite]
    exact ⟨hfinite, hnonneg, hlow, hhigh⟩

/-! ### What is not finite -/

section Unpacked

variable {spec : Format} {u v : UnpackedFloat}

theorem isFinite_of_pack (h : (unpack .binary32 (u.pack .binary32)).isFinite = true) :
    u.isFinite = true := by
  cases u with
  | notANumber =>
    rw [unpack_pack_notANumber] at h
    cases h
  | infinity s =>
    rw [unpack_pack_infinity] at h
    cases h
  | zero s | finite s => rfl

theorem unpacked_isFinite_of_add (h : (u.add spec v).isFinite = true) :
    u.isFinite = true ∧ v.isFinite = true := by
  -- by kinds; of two infinities there is the one, or none
  cases u with
  | notANumber => cases h
  | infinity s =>
    cases v with
    | infinity t => cases s <;> cases t <;> cases h
    | notANumber | zero t | finite t => cases h
  | zero s | finite s =>
    cases v with
    | notANumber | infinity t => cases h
    | zero t | finite t => exact ⟨rfl, rfl⟩

theorem unpacked_isFinite_of_mul (h : (u.mul spec v).isFinite = true) :
    u.isFinite = true ∧ v.isFinite = true := by
  cases u with
  | notANumber => cases h
  | infinity s => cases v <;> cases h
  | zero s | finite s =>
    cases v with
    | notANumber | infinity t => cases h
    | zero t | finite t => exact ⟨rfl, rfl⟩

theorem unpacked_isFinite_of_sqrt (h : (u.sqrt spec).isFinite = true) : u.isFinite = true := by
  cases u with
  | notANumber => cases h
  | infinity s => cases s <;> cases h
  | zero s | finite s => rfl

end Unpacked

theorem isFinite_of_add (h : (x + y).isFinite = true) : x.isFinite = true ∧ y.isFinite = true := by
  rw [isFinite_of_unpack (unpack_add x y)] at h
  exact unpacked_isFinite_of_add (isFinite_of_pack h)

theorem isFinite_of_mul (h : (x * y).isFinite = true) : x.isFinite = true ∧ y.isFinite = true := by
  rw [isFinite_of_unpack (unpack_mul x y)] at h
  exact unpacked_isFinite_of_mul (isFinite_of_pack h)

theorem isFinite_of_sqrt (h : x.sqrt.isFinite = true) : x.isFinite = true := by
  rw [isFinite_of_unpack (unpack_sqrt x)] at h
  exact unpacked_isFinite_of_sqrt (isFinite_of_pack h)

/-! ### Exact differences -/

theorem sub_exact {a b : ℤ} {j : ℤ} (hx : x.isFinite = true) (hy : y.isFinite = true)
    (ha : value x = a * 2 ^ j) (hb : value y = b * 2 ^ j) (hj : -149 ≤ j) (hab : |a - b| ≤ 2 ^ 24)
    (hlt : |value x - value y| < 2 ^ 128) :
    (x - y).isFinite = true ∧ value (x - y) = value x - value y := by
  refine (roundsTo_sub hx hy).exact (onGrid_of_eq hab hj ?_) hlt
  rw [ha, hb]
  push_cast
  ring

/-- **A very small difference** is on the grid, because both numbers are integers in the smallest
unit. -/
theorem onGrid_sub (hx : x.isFinite = true) (hy : y.isFinite = true)
    (hsmall : |value x - value y| ≤ 1 / 2 ^ 125) : OnGrid (value x - value y) := by
  obtain ⟨a, ha⟩ := (onGrid_value hx).exists_units
  obtain ⟨b, hb⟩ := (onGrid_value hy).exists_units
  have hsub : value x - value y = (a - b : ℤ) * 2 ^ (-149 : ℤ) := by
    rw [ha, hb]
    push_cast
    ring
  refine onGrid_of_eq ?_ le_rfl hsub
  have hunit : (0 : ℚ) < 2 ^ (-149 : ℤ) := by positivity
  rw [hsub, abs_mul, abs_of_pos hunit, ← le_div_iff₀ hunit,
    show (1 / 2 ^ 125 / 2 ^ (-149 : ℤ) : ℚ) = (2 ^ 24 : ℤ) by norm_num] at hsmall
  exact_mod_cast hsmall

end Skirmish.Numeric
