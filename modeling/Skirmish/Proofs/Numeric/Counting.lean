import Mathlib
import Skirmish.Numeric.Binary
import Skirmish.Proofs.Numeric.Canonical

/-!
# Rounding as counting

All rounding comes down to a count in units of a power of two:

* `Nearest` — the count is the nearest integer;
* `Counts` — and the unit is the one in which it has just as many bits as fit;
* `rounds_roundWithAccuracy` — the library rounds so.
-/

/-! ## The nearest integer

All rounding comes down to one thing: a number is counted in units of a power of two, and the count
is rounded to the nearest integer, of two equally near ones to the even one. The library does so in
two ways, by bits that are shifted out one at a time and by a division.

* `Nearest` — an integer is what a number is rounded to;
* `Nearest.le` and `Nearest.ge` — rounding does not cross an integer;
* `Represents` — what the bits shifted out tell of a number, and `Represents.shiftRight`, that
  shifting keeps it so;
* `Represents.nearest` and `nearest_nearestShift` — both ways round to the nearest integer.
-/

namespace Skirmish.Numeric

open Float.Model.UnpackedFloat

/-- **Rounding to an integer:** none is nearer, and of two equally near it is the even one. -/
structure Nearest (n : ℕ) (x : ℚ) : Prop where
  /-- It is at most one half away. -/
  near : |(n : ℚ) - x| ≤ 1 / 2
  /-- If it is one half away, it is even. -/
  tie : |(n : ℚ) - x| = 1 / 2 → n % 2 = 0

namespace Nearest

variable {n k : ℕ} {x : ℚ}

theorem le (h : Nearest n x) (hk : (k : ℚ) ≤ x) : k ≤ n := by
  have hnear := (abs_le.mp h.near).1
  have hlt : (k : ℚ) < (n + 1 : ℕ) := by
    push_cast
    linarith
  exact Nat.lt_succ_iff.mp (by exact_mod_cast hlt)

theorem ge (h : Nearest n x) (hk : x ≤ k) : n ≤ k := by
  have hnear := (abs_le.mp h.near).2
  have hlt : (n : ℚ) < (k + 1 : ℕ) := by
    push_cast
    linarith
  exact Nat.lt_succ_iff.mp (by exact_mod_cast hlt)

theorem eq_of_eq (h : Nearest n x) (hk : x = k) : n = k :=
  le_antisymm (h.ge hk.le) (h.le hk.ge)

/-- **There is only one.** Of two, each would be one half away and even. -/
theorem unique (h : Nearest n x) (h' : Nearest k x) : n = k := by
  obtain ⟨hn₁, hn₂⟩ := abs_le.mp h.near
  obtain ⟨hk₁, hk₂⟩ := abs_le.mp h'.near
  have hle : n ≤ k + 1 := by
    have : (n : ℚ) ≤ (k + 1 : ℕ) := by
      push_cast
      linarith
    exact_mod_cast this
  have hge : k ≤ n + 1 := by
    have : (k : ℚ) ≤ (n + 1 : ℕ) := by
      push_cast
      linarith
    exact_mod_cast this
  -- neighbours are both one half away, and one of them is odd
  have hne : ∀ i j : ℕ, i = j + 1 → Nearest i x → Nearest j x → False := by
    rintro _ j rfl hi hj
    have hi₂ := (abs_le.mp hi.near).2
    have hj₁ := (abs_le.mp hj.near).1
    push_cast at hi₂
    have hx : x = j + 1 / 2 := by linarith
    have hieven := hi.tie (by
      rw [hx]
      push_cast
      rw [show (j : ℚ) + 1 - (j + 1 / 2) = 1 / 2 by ring]
      norm_num)
    have hjeven := hj.tie (by
      rw [hx, show (j : ℚ) - (j + 1 / 2) = -(1 / 2) by ring]
      norm_num)
    omega
  obtain hlt | heq | hgt := lt_trichotomy n k
  · exact absurd h (fun h => hne k n (by omega) h' h)
  · exact heq
  · exact absurd h (fun h => hne n k (by omega) h h')

end Nearest

/-! ### Bits that are shifted out -/

/-- **What bits tell of a number:** its integer part, whether the rest is one half or more, and
whether there is any rest besides a half. -/
structure Represents (em : ExtendedMantissa) (x : ℚ) : Prop where
  /-- The integer part is not above the number. -/
  lower : (em.mantissa : ℚ) ≤ x
  /-- It is the largest such. -/
  upper : x < em.mantissa + 1
  /-- The first bit stands for a half. -/
  half : em.roundBit = true ↔ (em.mantissa : ℚ) + 1 / 2 ≤ x
  /-- The other one for anything else. -/
  rest : em.stickyBit = false ↔ x = em.mantissa ∨ x = em.mantissa + 1 / 2

theorem represents_exact (m : ℕ) :
    Represents (ExtendedMantissa.ofMantissaAndAccuracy m .exact) m := by
  refine ⟨le_rfl, ?_, ?_, ?_⟩
  · change (m : ℚ) < m + 1
    linarith
  · change false = true ↔ (m : ℚ) + 1 / 2 ≤ m
    refine ⟨fun h => absurd h (by decide), fun h => ?_⟩
    linarith
  · change false = false ↔ (m : ℚ) = m ∨ (m : ℚ) = m + 1 / 2
    simp

/-- **A rest that is known by comparison with one half:** the bits behind the integer tell no more
than that. -/
theorem represents_inexact (m : ℕ) {v : ℚ} (hpos : 0 < v) (hone : v < 1) :
    Represents (ExtendedMantissa.ofMantissaAndAccuracy m (.inexact (compare v (1 / 2))))
      (m + v) := by
  -- less than a half, a half, or more; in each case the two bits say just that
  cases hcompare : compare v (1 / 2) with
  | lt =>
    have hlt := compare_lt_iff_lt.mp hcompare
    refine ⟨?_, ?_, ?_, ?_⟩ <;> simp only [ExtendedMantissa.ofMantissaAndAccuracy]
    · linarith
    · linarith
    · exact iff_of_false (by decide) fun h => by linarith
    · exact iff_of_false (by decide) (by rintro (h | h) <;> linarith)
  | eq =>
    obtain rfl := compare_eq_iff_eq.mp hcompare
    refine ⟨?_, ?_, ?_, ?_⟩ <;> simp only [ExtendedMantissa.ofMantissaAndAccuracy]
    · linarith
    · linarith
    · exact iff_of_true trivial le_rfl
    · exact iff_of_true trivial (.inr trivial)
  | gt =>
    have hgt := compare_gt_iff_gt.mp hcompare
    refine ⟨?_, ?_, ?_, ?_⟩ <;> simp only [ExtendedMantissa.ofMantissaAndAccuracy]
    · linarith
    · linarith
    · exact iff_of_true trivial (by linarith)
    · exact iff_of_false (by decide) (by rintro (h | h) <;> linarith)

/-- A fraction is compared with one half by doubling what it counts. -/
theorem compare_half (num : ℕ) {den : ℕ} (hden : 0 < den) :
    compare (2 * num) den = compare ((num : ℚ) / den) (1 / 2) := by
  have hden' : (0 : ℚ) < den := by exact_mod_cast hden
  -- both comparisons have the same outcome, whichever it is
  obtain hlt | heq | hgt := lt_trichotomy (2 * num) den
  · have hcast : (2 : ℚ) * num < den := by exact_mod_cast hlt
    rw [compare_lt_iff_lt.mpr hlt, eq_comm, compare_lt_iff_lt, div_lt_iff₀ hden']
    linarith
  · have hcast : (2 : ℚ) * num = den := by exact_mod_cast heq
    rw [compare_eq_iff_eq.mpr heq, eq_comm, compare_eq_iff_eq, div_eq_iff hden'.ne']
    linarith
  · have hcast : (den : ℚ) < 2 * num := by exact_mod_cast hgt
    rw [compare_gt_iff_gt.mpr hgt, eq_comm, compare_gt_iff_gt, lt_div_iff₀ hden']
    linarith

/-- **A quotient's rest,** compared with one half. -/
theorem represents_fraction (m : ℕ) {num den : ℕ} (h : num < den) :
    Represents (ExtendedMantissa.ofMantissaAndAccuracy m (accuracyOfFraction num den))
      (m + num / den) := by
  have hden : (0 : ℚ) < den := by exact_mod_cast Nat.zero_lt_of_lt h
  -- the library calls a quotient without a rest exact
  by_cases hnum : num = 0
  · subst hnum
    simpa [accuracyOfFraction] using represents_exact m
  · have hpos : (0 : ℚ) < num := by exact_mod_cast Nat.pos_of_ne_zero hnum
    have hone : (num : ℚ) / den < 1 := by
      rw [div_lt_one hden]
      exact_mod_cast h
    unfold accuracyOfFraction
    rw [if_neg hnum, compare_half num (Nat.zero_lt_of_lt h)]
    exact represents_inexact m (div_pos hpos hden) hone

namespace Represents

variable {em : ExtendedMantissa} {x : ℚ}

/-- **No bits behind an integer:** then it is all of the number. -/
theorem exact_iff (h : Represents em x) :
    (em.roundBit || em.stickyBit) = false ↔ x = em.mantissa := by
  rw [Bool.or_eq_false_iff, h.rest, ← Bool.not_eq_true, h.half, not_le]
  constructor
  · rintro ⟨hlow, hx | hx⟩
    · exact hx
    · exact absurd hx hlow.ne
  · intro hx
    exact ⟨by linarith, .inl hx⟩

theorem shiftRightOne (h : Represents em x) : Represents em.shiftRightOne (x / 2) := by
  have hlower := h.lower
  have hupper := h.upper
  -- the bit shifted out is the new half, and the old half joins the rest
  have hhalf : em.shiftRightOne.roundBit = true ↔ em.mantissa % 2 = 1 := by
    change (em.mantissa % 2 != 0) = true ↔ _
    rw [bne_iff_ne, Nat.mod_two_ne_zero]
  have hrest : em.shiftRightOne.stickyBit = false ↔ x = em.mantissa := h.exact_iff
  have hsplit : (em.mantissa : ℚ) = 2 * em.shiftRightOne.mantissa + (em.mantissa % 2 : ℕ) := by
    exact_mod_cast (Nat.div_add_mod em.mantissa 2).symm
  -- the bit that goes out is a zero or a one
  obtain hbit | hbit := Nat.mod_two_eq_zero_or_one em.mantissa
  · rw [hbit, Nat.cast_zero, add_zero] at hsplit
    refine ⟨by linarith, by linarith, ?_, ?_⟩
    · rw [hhalf, hbit]
      exact iff_of_false (by decide) fun hx => by linarith
    · rw [hrest]
      exact ⟨fun hx => .inl (by linarith), by rintro (hx | hx) <;> linarith⟩
  · rw [hbit, Nat.cast_one] at hsplit
    refine ⟨by linarith, by linarith, ?_, ?_⟩
    · rw [hhalf, hbit]
      exact iff_of_true rfl (by linarith)
    · rw [hrest]
      exact ⟨fun hx => .inr (by linarith), by rintro (hx | hx) <;> linarith⟩

theorem shiftRight (h : Represents em x) (k : ℕ) : Represents (em >>> k) (x / 2 ^ k) := by
  change Represents (k.repeat ExtendedMantissa.shiftRightOne em) _
  -- bit by bit
  induction k with
  | zero => simpa [Nat.repeat] using h
  | succ k ih =>
    have hnext := ih.shiftRightOne
    rwa [div_div, ← pow_succ] at hnext

theorem nearest (h : Represents em x) : Nearest em.roundedMantissa x := by
  obtain ⟨m, r, s⟩ := em
  obtain ⟨hlower, hupper, hhalf, hrest⟩ := h
  simp only at hlower hupper hhalf hrest
  cases r <;> cases s <;> simp only [Bool.false_eq_true, false_iff, true_iff, reduceCtorEq, not_or,
    not_le] at hhalf hrest
  · -- nothing behind the integer
    obtain hx | hx := hrest
    · subst hx
      exact ⟨by simp [ExtendedMantissa.roundedMantissa, ExtendedMantissa.accuracy,
          Accuracy.roundToNearestEven], fun htie => by
        norm_num [ExtendedMantissa.roundedMantissa, ExtendedMantissa.accuracy,
          Accuracy.roundToNearestEven] at htie⟩
    · linarith
  · -- less than a half
    change Nearest m x
    have habs : |(m : ℚ) - x| = x - m := by
      rw [abs_sub_comm, abs_of_nonneg (by linarith)]
    exact ⟨by rw [habs]; linarith, fun htie => by rw [habs] at htie; linarith⟩
  · -- a half
    change Nearest (m + m % 2) x
    have hx : x = m + 1 / 2 := by
      obtain hx | hx := hrest
      · linarith
      · exact hx
    obtain hbit | hbit := Nat.mod_two_eq_zero_or_one m
    · rw [hbit, Nat.add_zero, hx]
      exact ⟨by rw [show (m : ℚ) - (m + 1 / 2) = -(1 / 2) by ring]; norm_num, fun _ => hbit⟩
    · rw [hbit, hx]
      refine ⟨?_, fun _ => by omega⟩
      push_cast
      rw [show (m : ℚ) + 1 - (m + 1 / 2) = 1 / 2 by ring]
      norm_num
  · -- more than a half
    change Nearest (m + 1) x
    have habs : |((m + 1 : ℕ) : ℚ) - x| = m + 1 - x := by
      push_cast
      rw [abs_of_nonneg (by linarith)]
    have hne : x ≠ m + 1 / 2 := hrest.2
    have hlt : (m : ℚ) + 1 / 2 < x := lt_of_le_of_ne hhalf (Ne.symm hne)
    exact ⟨by rw [habs]; linarith, fun htie => by rw [habs] at htie; linarith⟩

end Represents

/-! ### Division by a power of two -/

theorem nearest_nearestShift (m k : ℕ) : Nearest (nearestShift m k) (m / 2 ^ k) := by
  have hpow : (0 : ℚ) < 2 ^ k := by positivity
  unfold nearestShift
  -- a quotient without any bits is cut off before it is divided
  split
  · next hsmall =>
    -- the quotient is below one half
    have hlt : 2 * m < 2 ^ k := by
      by_cases hm : m = 0
      · subst hm
        simp
      · have hlog : m < 2 ^ (m.log2 + 1) := Nat.lt_log2_self
        have hstep : 2 ^ (m.log2 + 1 + 1) ≤ 2 ^ k := Nat.pow_le_pow_right (by decide) hsmall
        rw [pow_succ] at hstep
        omega
    have hhalf : (m : ℚ) / 2 ^ k < 1 / 2 := by
      rw [div_lt_iff₀ hpow]
      have : ((2 * m : ℕ) : ℚ) < (2 ^ k : ℕ) := by exact_mod_cast hlt
      push_cast at this
      linarith
    have habs : |((0 : ℕ) : ℚ) - (m : ℚ) / 2 ^ k| = (m : ℚ) / 2 ^ k := by
      rw [abs_sub_comm, Nat.cast_zero, sub_zero, abs_of_nonneg (by positivity)]
    exact ⟨by rw [habs]; linarith, fun _ => rfl⟩
  · have hdiv : m >>> k = m / 2 ^ k := Nat.shiftRight_eq_div_pow m k
    have hmod : m - (m / 2 ^ k) <<< k = m % 2 ^ k := by
      have hsum := Nat.div_add_mod m (2 ^ k)
      rw [Nat.shiftLeft_eq, Nat.mul_comm (m / 2 ^ k)]
      omega
    have hone : 1 <<< k = 2 ^ k := Nat.one_shiftLeft k
    simp only [hdiv, hmod, hone]
    -- the rest is compared with one half, as the bits would do
    have hrep := represents_fraction (m / 2 ^ k) (Nat.mod_lt m (Nat.two_pow_pos k))
    have hvalue : ((m / 2 ^ k : ℕ) : ℚ) + ((m % 2 ^ k : ℕ) : ℚ) / ((2 ^ k : ℕ) : ℚ) =
        m / 2 ^ k := by
      have hsum : ((2 ^ k * (m / 2 ^ k) + m % 2 ^ k : ℕ) : ℚ) = m := by
        exact_mod_cast Nat.div_add_mod m (2 ^ k)
      push_cast at hsum ⊢
      rw [← hsum]
      field_simp
    rw [hvalue] at hrep
    have hnear := hrep.nearest
    unfold accuracyOfFraction at hnear
    split at hnear
    · next hzero =>
      rw [hzero, Nat.compare_eq_lt.mpr (by simp)]
      exact hnear
    · generalize compare (2 * (m % 2 ^ k)) (2 ^ k) = o at hnear ⊢
      cases o <;> exact hnear

end Skirmish.Numeric

/-! ## Counting in units

To round a positive number, the power of two is chosen in which the number has just as many bits as
fit, and the number is counted in this unit.

* `Counts` — the count that a number is rounded to, and the unit;
* `Counts.le` and `Counts.ge` — rounding does not cross a number that needs no rounding;
* `Counts.error_le` — it changes little;
* `Rounds` — the unpacked number that the count stands for;
* `Enough` — a mantissa with enough bits to be rounded from, or one that loses none;
* `rounds_roundWithAccuracy` — the library rounds so, whatever it knows of the number.

A count may be one too many for the bits that fit. It is then even, and is written in the next unit.
-/

namespace Skirmish.Numeric

open Float.Model
open Float.Model.UnpackedFloat

/-- **The count that a number is rounded to,** in units of `2 ^ t`, with so many bits after the
first one and a smallest unit. -/
structure Counts (bits : ℕ) (floor : ℤ) (v : ℚ) (n : ℕ) (t : ℤ) : Prop where
  /-- The unit is not too small. -/
  floor_le : floor ≤ t
  /-- It is counted to the nearest one. -/
  nearest : Nearest n (v / 2 ^ t)
  /-- The number has not too many bits for the unit. -/
  short : v < 2 ^ (bits + 1 + t : ℤ)
  /-- It has not too few, unless the unit is the smallest one. -/
  full : t = floor ∨ 2 ^ (bits + t : ℤ) ≤ v

namespace Counts

variable {bits : ℕ} {floor : ℤ} {v : ℚ} {n k : ℕ} {t j : ℤ}

theorem count_le (h : Counts bits floor v n t) : n ≤ 2 ^ (bits + 1) := by
  refine h.nearest.ge ?_
  -- in its unit, the number is below the first one with a bit too many
  rw [div_le_iff₀ (by positivity)]
  have hpow : (2 : ℚ) ^ (bits + 1 + t : ℤ) = (2 ^ (bits + 1) : ℕ) * 2 ^ t := by
    rw [zpow_add₀ (by norm_num)]
    push_cast
    rfl
  rw [← hpow]
  exact h.short.le

theorem le_count (h : Counts bits floor v n t) (ht : t ≠ floor) : 2 ^ bits ≤ n := by
  refine h.nearest.le ?_
  rw [le_div_iff₀ (by positivity)]
  have hpow : (2 : ℚ) ^ (bits + t : ℤ) = (2 ^ bits : ℕ) * 2 ^ t := by
    rw [zpow_add₀ (by norm_num)]
    push_cast
    rfl
  rw [← hpow]
  exact h.full.resolve_left ht

theorem fits (h : Counts bits floor v n t) (hlt : n < 2 ^ (bits + 1)) : Fits bits floor n t := by
  refine ⟨hlt, h.floor_le, ?_⟩
  by_cases ht : t = floor
  · exact .inl ht
  · exact .inr (h.le_count ht)

theorem fits_carry (h : Counts bits floor v n t) : Fits bits floor (2 ^ bits) (t + 1) := by
  have hfloor := h.floor_le
  exact ⟨Nat.pow_lt_pow_right (by decide) (by omega), by omega, .inr le_rfl⟩

theorem size_carry (bits : ℕ) (t : ℤ) : size (2 ^ bits) (t + 1) = size (2 ^ (bits + 1)) t := by
  rw [size, size, zpow_add₀ (by norm_num)]
  push_cast
  ring

theorem exists_fits (h : Counts bits floor v n t) :
    ∃ m e, Fits bits floor m e ∧ size m e = size n t := by
  -- the count fits, or is the one that carries
  obtain hlt | rfl := h.count_le.lt_or_eq
  · exact ⟨n, t, h.fits hlt, rfl⟩
  · exact ⟨2 ^ bits, t + 1, h.fits_carry, size_carry bits t⟩

theorem size_div (k : ℕ) (hj : t ≤ j) : size k j / 2 ^ t = (k * 2 ^ (j - t).toNat : ℕ) := by
  rw [size_eq_of_le k hj, size]
  field_simp

theorem size_le_of_lt (hk : k ≤ 2 ^ (bits + 1)) (hj : j < t) : size k j ≤ 2 ^ (bits + t : ℤ) := by
  have hcast : (k : ℚ) ≤ 2 ^ (bits + 1) := by exact_mod_cast hk
  have hpow : (2 : ℚ) ^ (bits + 1 : ℕ) * 2 ^ j ≤ 2 ^ (bits + t : ℤ) := by
    rw [← zpow_natCast, ← zpow_add₀ (by norm_num)]
    exact zpow_le_zpow_right₀ (by norm_num) (by push_cast; omega)
  exact (mul_le_mul_of_nonneg_right hcast (by positivity)).trans hpow

theorem le (h : Counts bits floor v n t) (hk : k ≤ 2 ^ (bits + 1)) (hj : floor ≤ j)
    (hle : size k j ≤ v) : size k j ≤ size n t := by
  by_cases htj : t ≤ j
  · have hcount : k * 2 ^ (j - t).toNat ≤ n := by
      refine h.nearest.le ?_
      rw [← size_div k htj]
      exact div_le_div_of_nonneg_right hle (by positivity)
    rw [size_eq_of_le k htj]
    exact mul_le_mul_of_nonneg_right (by exact_mod_cast hcount) (by positivity)
  · -- it is below the unit's first number with all bits
    have hcount : (2 ^ bits : ℚ) ≤ n := by exact_mod_cast h.le_count (by omega)
    have hfirst : (2 : ℚ) ^ (bits + t : ℤ) ≤ size n t := by
      rw [zpow_add₀ (by norm_num), size]
      exact mul_le_mul_of_nonneg_right (by exact_mod_cast hcount) (by positivity)
    exact (size_le_of_lt hk (by omega)).trans hfirst

theorem ge (h : Counts bits floor v n t) (hk : k ≤ 2 ^ (bits + 1)) (hj : floor ≤ j)
    (hge : v ≤ size k j) : size n t ≤ size k j := by
  by_cases htj : t ≤ j
  · have hcount : n ≤ k * 2 ^ (j - t).toNat := by
      refine h.nearest.ge ?_
      rw [← size_div k htj]
      exact div_le_div_of_nonneg_right hge (by positivity)
    rw [size_eq_of_le k htj]
    exact mul_le_mul_of_nonneg_right (by exact_mod_cast hcount) (by positivity)
  · -- the number is the unit's first one with all bits, and is counted exactly
    have hsmall := size_le_of_lt hk (show j < t by omega)
    have hv : v = 2 ^ (bits + t : ℤ) :=
      le_antisymm (hge.trans hsmall) (h.full.resolve_left (by omega))
    have hcount : n = 2 ^ bits := by
      refine h.nearest.eq_of_eq ?_
      rw [hv, zpow_add₀ (by norm_num)]
      push_cast
      field_simp
      rfl
    have hsize : size n t = v := by
      rw [hv, hcount, size, zpow_add₀ (by norm_num)]
      push_cast
      rfl
    rw [hsize]
    exact hge

theorem eq (h : Counts bits floor v n t) (hk : k ≤ 2 ^ (bits + 1)) (hj : floor ≤ j)
    (heq : v = size k j) : size n t = v := by
  rw [heq]
  exact le_antisymm (h.ge hk hj heq.le) (h.le hk hj heq.ge)

theorem error_le (h : Counts bits floor v n t) (hv : 2 ^ (bits + floor : ℤ) ≤ v) :
    |size n t - v| ≤ v / 2 ^ (bits + 1) := by
  -- half a unit is small compared with a number that has all its bits
  have hunit : (2 : ℚ) ^ (bits + t : ℤ) ≤ v := by
    obtain rfl | hfull := h.full
    · exact hv
    · exact hfull
  have hsplit : size n t - v = (n - v / 2 ^ t) * 2 ^ t := by
    rw [size]
    field_simp
  rw [hsplit, abs_mul, abs_of_pos (show (0 : ℚ) < 2 ^ t by positivity)]
  have hhalf : (1 / 2 : ℚ) * 2 ^ t = 2 ^ (bits + t : ℤ) / 2 ^ (bits + 1) := by
    rw [zpow_add₀ (by norm_num), zpow_natCast]
    field_simp
    ring
  calc |(n : ℚ) - v / 2 ^ t| * 2 ^ t ≤ 1 / 2 * 2 ^ t :=
        mul_le_mul_of_nonneg_right h.nearest.near (by positivity)
    _ = 2 ^ (bits + t : ℤ) / 2 ^ (bits + 1) := hhalf
    _ ≤ v / 2 ^ (bits + 1) := div_le_div_of_nonneg_right hunit (by positivity)

end Counts

/-- **The unit follows from the leading bit,** wherever the number is between an integer and the
next. -/
theorem counts_of_nearest {bits : ℕ} {floor : ℤ} {v : ℚ} {m n : ℕ} {e t : ℤ} (hm : m ≠ 0)
    (hlower : size m e ≤ v) (hupper : v < size (m + 1) e) (ht : t = max (m.log2 + e - bits) floor)
    (hnearest : Nearest n (v / 2 ^ t)) : Counts bits floor v n t := by
  have hpow : ∀ i j : ℤ, i ≤ j → (2 : ℚ) ^ i ≤ 2 ^ j :=
    fun i j h => zpow_le_zpow_right₀ (by norm_num) h
  refine ⟨by omega, hnearest, ?_, ?_⟩
  · have hnext : size (m + 1) e ≤ 2 ^ (m.log2 + 1 + e : ℤ) := by
      have hcast : ((m + 1 : ℕ) : ℚ) ≤ (2 ^ (m.log2 + 1) : ℕ) := by
        exact_mod_cast Nat.succ_le_of_lt Nat.lt_log2_self
      rw [zpow_add₀ (by norm_num), size]
      exact mul_le_mul_of_nonneg_right (by exact_mod_cast hcast) (by positivity)
    exact (hupper.trans_le hnext).trans_le (hpow _ _ (by omega))
  · -- above the smallest unit the leading bit has the place of the first one
    by_cases hfloor : t = floor
    · exact .inl hfloor
    · have hleading := two_pow_log2_le_size (Nat.pos_of_ne_zero hm) e
      exact .inr (((hpow _ _ (by omega)).trans hleading).trans hlower)

/-! ### Rounding in the library -/

section Rounding

variable {spec : Format} {s : Sign} {v : ℚ} {m : ℕ} {e : ℤ}

/-- **The unpacked number** that a positive one is rounded to. -/
inductive Rounds (spec : Format) (s : Sign) (v : ℚ) : UnpackedFloat → Prop
  /-- It is less than one half of the smallest unit, or just so large. -/
  | zero {t : ℤ} (h : Counts spec.mantissaBitsWithoutImplicit spec.minExponent v 0 t) :
    Rounds spec s v (.zero s)
  /-- It is counted in units. -/
  | finite {n : ℕ} {t : ℤ} {m : ℕ} {e : ℤ} {hm : 0 < m}
      (h : Counts spec.mantissaBitsWithoutImplicit spec.minExponent v n t) (hfits : FitsIn spec m e)
      (heq : size m e = size n t) :
    Rounds spec s v (.finite s m e hm)

theorem targetExponent_eq (spec : Format) (m : ℕ) (e : ℤ) :
    spec.targetExponent (totalExponent m e) =
      max (m.log2 + e - spec.mantissaBitsWithoutImplicit) spec.minExponent := by
  unfold Format.targetExponent totalExponent Format.mantissaBits
  congr 1
  push_cast
  ring

/-- **A mantissa has bits enough:** its unit is at most the smallest one, or it is not zero and its
unit is at most the one of its leading bit. -/
def Enough (spec : Format) (m : ℕ) (e : ℤ) : Prop :=
  e ≤ spec.minExponent ∨ m ≠ 0 ∧ e ≤ spec.targetExponent (totalExponent m e)

theorem Enough.le_targetExponent (h : Enough spec m e) :
    e ≤ spec.targetExponent (totalExponent m e) := by
  obtain he | ⟨-, he⟩ := h
  · rw [targetExponent_eq]
    omega
  · exact he

theorem enough_of_full (h : 2 ^ spec.mantissaBitsWithoutImplicit ≤ m) (e : ℤ) :
    Enough spec m e := by
  have hm : m ≠ 0 := by
    have := Nat.two_pow_pos spec.mantissaBitsWithoutImplicit
    omega
  have hlog : spec.mantissaBitsWithoutImplicit ≤ m.log2 := (Nat.le_log2 hm).mpr h
  refine .inr ⟨hm, ?_⟩
  rw [targetExponent_eq]
  omega

theorem counts_shiftRight {accuracy : Accuracy} (henough : Enough spec m e)
    (hrep : Represents (.ofMantissaAndAccuracy m accuracy) (v / 2 ^ e)) {t : ℤ}
    (ht : t = spec.targetExponent (totalExponent m e)) :
    Counts spec.mantissaBitsWithoutImplicit spec.minExponent v
      (ExtendedMantissa.ofMantissaAndAccuracy m accuracy >>> (t - e).toNat).roundedMantissa t := by
  have he : e ≤ t := ht ▸ henough.le_targetExponent
  rw [targetExponent_eq] at ht
  have hmantissa : (ExtendedMantissa.ofMantissaAndAccuracy m accuracy).mantissa = m := by
    cases accuracy with
    | exact => rfl
    | inexact o => cases o <;> rfl
  -- the mantissa is the integer part of the number in its unit
  have hlower : size m e ≤ v := by
    have := hrep.lower
    rwa [hmantissa, le_div_iff₀ (by positivity)] at this
  have hupper : v < size (m + 1) e := by
    have := hrep.upper
    rw [hmantissa, div_lt_iff₀ (by positivity)] at this
    rw [size]
    exact_mod_cast this
  have hnearest : Nearest (ExtendedMantissa.ofMantissaAndAccuracy m accuracy >>>
      (t - e).toNat).roundedMantissa (v / 2 ^ t) := by
    have hdiv : v / 2 ^ e / 2 ^ (t - e).toNat = v / 2 ^ t := by
      rw [div_div, ← zpow_natCast, ← zpow_add₀ (by norm_num), Int.toNat_of_nonneg (by omega)]
      congr 2
      omega
    rw [← hdiv]
    exact (hrep.shiftRight _).nearest
  by_cases hm : m = 0
  · -- the number is less than the smallest unit, which it is counted in
    subst hm
    obtain he' : e ≤ spec.minExponent := henough.resolve_right fun h => h.1 rfl
    rw [Nat.log2_zero] at ht
    obtain rfl : t = spec.minExponent := by omega
    refine ⟨le_rfl, hnearest, hupper.trans_le ?_, .inl rfl⟩
    rw [size, Nat.zero_add, Nat.cast_one, one_mul]
    exact zpow_le_zpow_right₀ (by norm_num) (by omega)
  · exact counts_of_nearest hm hlower hupper ht hnearest

def ofShifted (s : Sign) (shifted : ExtendedMantissa × ℤ) : UnpackedFloat :=
  if h : shifted.1.mantissa = 0 then .zero s
  else .finite s shifted.1.mantissa shifted.2 (Nat.pos_of_ne_zero h)

/-- A count is written in its own unit, or in the next one if there is a bit too many. -/
theorem rounds_ofShifted {n : ℕ} {t : ℤ}
    (h : Counts spec.mantissaBitsWithoutImplicit spec.minExponent v n t) :
    Rounds spec s v (ofShifted s (shiftToTargetExponent spec n t .exact)) := by
  have hnext := targetExponent_eq spec n t
  have hfloor := h.floor_le
  have hshift : ∀ k, (spec.targetExponent (totalExponent n t) - t).toNat = k →
      shiftToTargetExponent spec n t .exact =
        ((⟨n, false, false⟩ : ExtendedMantissa) >>> k, t + k) := by
    rintro _ rfl
    rfl
  -- the second shift moves by one bit if there is a carry, and else by none
  obtain hlt | hfull := h.count_le.lt_or_eq
  · -- the count has not too many bits
    have hlog : n.log2 ≤ spec.mantissaBitsWithoutImplicit := by
      by_cases hn : n = 0
      · simp [hn]
      · exact Nat.lt_succ_iff.mp ((Nat.log2_lt hn).mpr hlt)
    rw [hshift 0 (by omega)]
    change Rounds spec s v (if h : n = 0 then _ else .finite s n (t + (0 : ℕ)) _)
    split
    · next hn =>
      subst hn
      exact .zero h
    · rw [Nat.cast_zero, add_zero]
      exact .finite h (h.fits hlt) rfl
  · -- one bit too many, so half the count in the next unit
    have hlog : n.log2 = spec.mantissaBitsWithoutImplicit + 1 := by
      rw [hfull, Nat.log2_two_pow]
    have hhalf : n / 2 = 2 ^ spec.mantissaBitsWithoutImplicit := by
      rw [hfull, Nat.pow_succ]
      omega
    have hpos := Nat.two_pow_pos spec.mantissaBitsWithoutImplicit
    rw [hshift 1 (by omega)]
    change Rounds spec s v (if h : n / 2 = 0 then _ else .finite s (n / 2) (t + (1 : ℕ)) _)
    rw [dif_neg (by omega)]
    refine .finite h ?_ ?_
    · rw [hhalf]
      exact h.fits_carry
    · rw [hhalf, hfull]
      exact Counts.size_carry _ t

theorem rounds_roundWithAccuracy {accuracy : Accuracy} (henough : Enough spec m e)
    (hrep : Represents (.ofMantissaAndAccuracy m accuracy) (v / 2 ^ e)) :
    Rounds spec s v (roundWithAccuracy spec s m e accuracy) := by
  have he := henough.le_targetExponent
  have hshift : shiftToTargetExponent spec m e accuracy =
      (ExtendedMantissa.ofMantissaAndAccuracy m accuracy >>>
          (spec.targetExponent (totalExponent m e) - e).toNat,
        spec.targetExponent (totalExponent m e)) := by
    have hunit : e + ((spec.targetExponent (totalExponent m e) - e).toNat : ℤ) =
        spec.targetExponent (totalExponent m e) := by
      rw [Int.toNat_of_nonneg (by omega)]
      omega
    exact congrArg (Prod.mk _) hunit
  change Rounds spec s v (ofShifted s (shiftToTargetExponent spec
    (shiftToTargetExponent spec m e accuracy).1.roundedMantissa
    (shiftToTargetExponent spec m e accuracy).2 .exact))
  -- the first shift has made the count, and the second one writes it
  rw [hshift]
  exact rounds_ofShifted (counts_shiftRight henough hrep rfl)

end Rounding

end Skirmish.Numeric
