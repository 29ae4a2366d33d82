import Skirmish.Proofs.Numeric.Counting
import Skirmish.Proofs.Numeric.Patterns

/-!
# Sums and zeros

What can be said of sums and products without knowing how large they are:

* `le_add` — to add nothing negative makes no number smaller;
* `add_beq_of_isZero` and `isZero_mul` — what zeros do.
-/

/-! ## Sums do not fall below their terms

To add nothing negative to a number makes it no smaller, rounded as it may be: the number itself
needs no rounding, and rounding does not cross it. A sum that is too large is an infinity, which is
not smaller either.

* `rounds_round` — a mantissa and an exponent are rounded like the number that they stand for;
* `unpacked_le_add` — the sum of unpacked numbers;
* `le_add` — the sum in single precision, which is packed again.
-/

namespace Skirmish.Numeric

open Float.Model
open Float.Model.UnpackedFloat

section Unpacked

variable {spec : Format} {s : Sign} {m : ℕ} {e : ℤ}

theorem log2_mul_two_pow (hm : m ≠ 0) (k : ℕ) : (m * 2 ^ k).log2 = m.log2 + k := by
  have hpow := Nat.two_pow_pos k
  obtain ⟨hlower, hupper⟩ := (Nat.log2_eq_iff hm).mp rfl
  refine (Nat.log2_eq_iff (Nat.mul_ne_zero hm hpow.ne')).mpr ⟨?_, ?_⟩
  · rw [Nat.pow_add]
    exact Nat.mul_le_mul_right _ hlower
  · rw [show m.log2 + k + 1 = (m.log2 + 1) + k by omega, Nat.pow_add]
    exact Nat.mul_lt_mul_of_pos_right hupper hpow

theorem rounds_round (hm : m ≠ 0) : Rounds spec s (size m e) (round spec s m e) := by
  obtain ⟨k, hk⟩ : ∃ k, (e - spec.targetExponent (totalExponent m e)).toNat = k := ⟨_, rfl⟩
  have hround : round spec s m e = roundWithAccuracy spec s (m <<< k) (e - k) .exact := by
    rw [← hk]
    rfl
  have hshift : m <<< k = m * 2 ^ k := Nat.shiftLeft_eq m k
  have hne : m <<< k ≠ 0 := by
    rw [hshift]
    positivity
  have htotal : totalExponent (m <<< k) (e - k) = totalExponent m e := by
    unfold totalExponent
    rw [hshift, log2_mul_two_pow hm]
    push_cast
    ring
  -- the mantissa is first made as long as its unit needs, which loses nothing
  rw [hround]
  refine rounds_roundWithAccuracy (.inr ⟨hne, ?_⟩) ?_
  · rw [htotal]
    omega
  · have hsize : size m e / 2 ^ (e - k) = (m <<< k : ℕ) := by
      rw [hshift, size_eq_of_le m (show e - k ≤ e by omega), size]
      rw [show (e - (e - k)).toNat = k by omega]
      field_simp
    rw [hsize]
    exact represents_exact _

theorem normalize_of_pos {k : ℤ} (hk : 0 < k) :
    normalize spec k e s = round spec .positive k.toNat e := by
  unfold UnpackedFloat.normalize
  rw [compare_gt_iff_gt.mpr hk]

theorem normalize_of_neg {k : ℤ} (hk : k < 0) :
    normalize spec k e s = round spec .negative (-k).toNat e := by
  unfold UnpackedFloat.normalize
  rw [compare_lt_iff_lt.mpr hk]

/-- A finite number is taken off by adding its opposite. -/
theorem unpacked_sub_eq_add_neg (spec : Format) {u v : UnpackedFloat} (hv : v.isFinite = true) :
    u.sub spec v = u.add spec v.neg := by
  -- by the kinds of both; signs count twice as one in the end
  cases v with
  | notANumber | infinity t => cases hv
  | zero t => cases u <;> rfl
  | finite t n j hn =>
    cases u with
    | notANumber | infinity s | zero s => rfl
    | finite s m e hm =>
      have happly : ∀ k, (-t).apply k = -t.apply k := by
        intro k
        cases t with
        | positive => rfl
        | negative => exact (neg_neg _).symm
      unfold UnpackedFloat.sub UnpackedFloat.neg UnpackedFloat.add
      simp only [happly, Int.sub_eq_add_neg]

theorem positive_le_iff {n : ℕ} {t : ℤ} {hm : 0 < m} {hn : 0 < n} :
    (UnpackedFloat.finite .positive m e hm).le (.finite .positive n t hn) = true ↔
      e < t ∨ e = t ∧ m ≤ n :=
  isLE_then e t m n

theorem negative_le_iff {n : ℕ} {t : ℤ} {hm : 0 < m} {hn : 0 < n} :
    (UnpackedFloat.finite .negative m e hm).le (.finite .negative n t hn) = true ↔
      t < e ∨ e = t ∧ n ≤ m :=
  isLE_swap_then e t m n

/-- What is rounded up from a number, or not at all, is not below it. -/
theorem le_unpack_pack_of_rounds {v : ℚ} {u : UnpackedFloat} {hm : 0 < m} (hfits : FitsIn spec m e)
    (hle : size m e ≤ v) (h : Rounds spec .positive v u) :
    (UnpackedFloat.finite .positive m e hm).le (unpack spec (u.pack spec)) = true := by
  have hkept : ∀ n t, Counts spec.mantissaBitsWithoutImplicit spec.minExponent v n t →
      size m e ≤ size n t :=
    fun n t hcounts => hcounts.le hfits.short.le hfits.floor_le hle
  -- the rounded number is zero, finite or too large
  cases h with
  | zero hcounts =>
    -- a positive number is not rounded to zero if there is a smaller one
    have hpos : 0 < size m e := by
      unfold size
      positivity
    have hzero := hkept _ _ hcounts
    rw [show ∀ t, size 0 t = 0 by simp [size]] at hzero
    linarith
  | @finite n t m' e' hm' hcounts hfits' heq =>
    by_cases he' : e' ≤ maxExponent spec
    · rw [unpack_pack_of_fits hfits' he', positive_le_iff]
      refine hfits.le_of_size_le hfits' ?_
      rw [heq]
      exact hkept _ _ hcounts
    · rw [unpack_pack_of_overflow (by omega)]
      rfl

theorem neg_le_unpack_pack_of_rounds {v : ℚ} {u : UnpackedFloat} {hm : 0 < m}
    (hfits : FitsIn spec m e) (he : e ≤ maxExponent spec) (hle : v ≤ size m e)
    (h : Rounds spec .negative v u) :
    (UnpackedFloat.finite .negative m e hm).le (unpack spec (u.pack spec)) = true := by
  cases h with
  | zero hcounts =>
    rw [unpack_pack_zero]
    rfl
  | @finite n t m' e' hm' hcounts hfits' heq =>
    have hkept : size m' e' ≤ size m e := by
      rw [heq]
      exact hcounts.ge hfits.short.le hfits.floor_le hle
    -- it does not overflow, for the number itself does not
    have horder := hfits'.le_of_size_le hfits hkept
    rw [unpack_pack_of_fits hfits' (by omega), negative_le_iff]
    omega

/-- **A sum of finite numbers,** the second one positive. -/
theorem finite_le_add {n : ℕ} {t : ℤ} {hm : 0 < m} {hn : 0 < n} (hfits : FitsIn spec m e)
    (he : e ≤ maxExponent spec) :
    (UnpackedFloat.finite s m e hm).le
      (unpack spec (((UnpackedFloat.finite s m e hm).add spec
        (.finite .positive n t hn)).pack spec)) = true := by
  -- both terms are counted in the smaller unit
  obtain ⟨unit, hunit⟩ : ∃ unit, unit = min e t := ⟨_, rfl⟩
  obtain ⟨a, ha⟩ : ∃ a, a = m <<< (e - unit).toNat := ⟨_, rfl⟩
  obtain ⟨b, hb⟩ : ∃ b, b = n <<< (t - unit).toNat := ⟨_, rfl⟩
  have hsize : size m e = size a unit := by
    rw [ha, Nat.shiftLeft_eq]
    exact size_eq_of_le m (by omega)
  have hbpos : 0 < b := by
    rw [hb, Nat.shiftLeft_eq]
    positivity
  have hadd : (UnpackedFloat.finite s m e hm).add spec (.finite .positive n t hn) =
      normalize spec (s.apply a + b) unit .positive := by
    rw [ha, hb, hunit]
    rfl
  have hmono : ∀ {i j : ℕ}, i ≤ j → size i unit ≤ size j unit :=
    fun h => mul_le_mul_of_nonneg_right (by exact_mod_cast h) (by positivity)
  rw [hadd]
  cases s with
  | positive =>
    change (UnpackedFloat.finite .positive m e hm).le
      (unpack spec ((normalize spec ((a : ℤ) + b) unit .positive).pack spec)) = true
    rw [normalize_of_pos (by omega)]
    exact le_unpack_pack_of_rounds hfits (hsize ▸ hmono (by omega)) (rounds_round (by omega))
  | negative =>
    change (UnpackedFloat.finite .negative m e hm).le
      (unpack spec ((normalize spec (-(a : ℤ) + b) unit .positive).pack spec)) = true
    obtain hlt | heq | hgt := lt_trichotomy (-(a : ℤ) + b) 0
    · -- the negative term is the larger one, and part of it is left
      rw [normalize_of_neg hlt]
      exact neg_le_unpack_pack_of_rounds hfits he (hsize ▸ hmono (by omega))
        (rounds_round (by omega))
    · rw [heq]
      exact le_of_hasSign rfl (hasSign_unpack_pack rfl)
    · rw [normalize_of_pos hgt]
      exact le_of_hasSign rfl (hasSign_unpack_pack (hasSign_roundWithAccuracy _ _ _))

theorem zero_le_of_hasSign {u : UnpackedFloat} (h : HasSign .positive u) :
    (UnpackedFloat.zero s).le u = true := by
  cases u with
  | notANumber => exact h.elim
  | infinity t | zero t | finite t =>
    obtain rfl : t = .positive := h
    rfl

theorem unpacked_le_add {u v : UnpackedFloat} (hu : u.isFinite = true)
    (hkept : ∀ s m e hm, u = .finite s m e hm → FitsIn spec m e ∧ e ≤ maxExponent spec)
    (hv : UnpackedFloat.le (.zero .positive) v = true) :
    u.le (unpack spec ((u.add spec v).pack spec)) = true := by
  -- by the kinds of both; only two finite numbers are really added
  cases u with
  | notANumber | infinity s => cases hu
  | zero s =>
    cases v with
    | notANumber => cases hv
    | infinity t =>
      cases t with
      | negative => cases hv
      | positive => exact zero_le_of_hasSign (hasSign_unpack_pack rfl)
    | zero t =>
      change (UnpackedFloat.zero s).le (unpack spec ((if s == t then .zero s else
        .zero .positive : UnpackedFloat).pack spec)) = true
      split <;>
      · rw [unpack_pack_zero]
        rfl
    | finite t =>
      cases t with
      | negative => cases hv
      | positive => exact zero_le_of_hasSign (hasSign_unpack_pack rfl)
  | finite s m e hm =>
    obtain ⟨hfits, he⟩ := hkept s m e hm rfl
    cases v with
    | notANumber => cases hv
    | infinity t =>
      cases t with
      | negative => cases hv
      | positive =>
        change (UnpackedFloat.finite s m e hm).le
          (unpack spec ((UnpackedFloat.infinity .positive).pack spec)) = true
        rw [unpack_pack_infinity]
        cases s <;> rfl
    | zero t =>
      -- a zero changes nothing
      change (UnpackedFloat.finite s m e hm).le
        (unpack spec ((UnpackedFloat.finite s m e hm).pack spec)) = true
      rw [unpack_pack_of_fits hfits he, unpacked_le_iff]
      exact ⟨nofun, nofun, le_rfl⟩
    | finite t =>
      cases t with
      | negative => cases hv
      | positive => exact finite_le_add hfits he

end Unpacked

theorem le_add {x y : Float32} (hx : x.isFinite = true) (hy : 0 ≤ y) : x ≤ x + y := by
  have hbits : 1 < Format.binary32.exponentBits := by decide
  exact le_iff.mpr (unpacked_le_add hx (fun _ _ _ _ h => fits_of_unpack hbits h) (le_iff.mp hy))

end Skirmish.Numeric

/-! ## Zeros

There are two zeros, which are equal as numbers without being the same. What an operation does with
one of them is therefore said with the equality of numbers, `==`.

* `eq_or_isZero_of_beq` — equal numbers are the same, or both are zeros;
* `add_beq_of_isZero` — a zero added to a number leaves it as it is;
* `isZero_mul` — a finite number times a zero is a zero;
* `mul_self_eq_of_beq` — equal numbers have the same square;
* `mul_one_of_isFinite` — a finite number times one is the number.

Zeros are left out of every rounding. A product with one is rounded, but has nothing to lose: the
number had been kept with so many bits before.
-/

namespace Skirmish.Numeric

open Float.Model
open Float.Model.UnpackedFloat

section Unpacked

variable {spec : Format} {u v : UnpackedFloat} {s : Sign} {m : ℕ} {e : ℤ} {hm : 0 < m}

/-- Unpacked numbers that are equal are the same, or both are zeros. -/
theorem unpacked_cases_of_beq (h : u.beq v = true) :
    u = v ∨ (∃ s, u = .zero s) ∧ ∃ t, v = .zero t := by
  have hcompare : u.compare v = some .eq := by simpa [UnpackedFloat.beq] using h
  -- kinds that differ are told apart by the comparison
  cases u with
  | notANumber => cases hcompare
  | infinity s =>
    cases v with
    | infinity t => cases s <;> cases t <;> first | exact .inl rfl | cases hcompare
    | notANumber | zero t | finite t => cases s <;> cases hcompare
  | zero s =>
    cases v with
    | zero t => exact .inr ⟨⟨s, rfl⟩, t, rfl⟩
    | notANumber => cases hcompare
    | infinity t | finite t => cases t <;> cases hcompare
  | finite s m e hm =>
    cases v with
    | notANumber | zero t => cases s <;> cases hcompare
    | infinity t => cases s <;> cases t <;> cases hcompare
    | finite t n j hn =>
      -- signs that differ decide at once, or else exponents and mantissas are compared
      have hparts : s = t ∧ ((compare e j).then (compare m n) = .eq) := by
        cases s <;> cases t <;> first | cases hcompare | refine ⟨rfl, ?_⟩
        · exact Ordering.swap_eq_eq.mp (Option.some.inj hcompare)
        · exact Option.some.inj hcompare
      obtain ⟨rfl, hparts⟩ := hparts
      obtain ⟨hexponent, hmantissa⟩ := Ordering.then_eq_eq.mp hparts
      obtain rfl := compare_eq_iff_eq.mp hexponent
      obtain rfl := compare_eq_iff_eq.mp hmantissa
      exact .inl rfl

theorem unpacked_beq_self (h : u ≠ .notANumber) : u.beq u = true := by
  have hcompare : u.compare u = some .eq := by
    cases u with
    | notANumber => exact absurd rfl h
    | infinity s => cases s <;> rfl
    | zero s => rfl
    | finite s m e hm =>
      have hparts : (compare e e).then (compare m m) = .eq :=
        Ordering.then_eq_eq.mpr ⟨compare_eq_iff_eq.mpr rfl, compare_eq_iff_eq.mpr rfl⟩
      cases s with
      | positive => exact congrArg some hparts
      | negative => exact congrArg some (Ordering.swap_eq_eq.mpr hparts)
  rw [UnpackedFloat.beq, hcompare]
  rfl

/-- **A number that needs no rounding** is not changed by it. -/
theorem eq_of_rounds (h : Rounds spec s (size m e) u) (hfits : FitsIn spec m e) :
    u = .finite s m e hm := by
  have hcount : ∀ n t, Counts spec.mantissaBitsWithoutImplicit spec.minExponent (size m e) n t →
      size n t = size m e :=
    fun n t hcounts => hcounts.eq hfits.short.le hfits.floor_le rfl
  cases h with
  | zero hcounts =>
    -- zero would be as large as the number, which is positive
    have hzero := hcount 0 _ hcounts
    rw [size, Nat.cast_zero, zero_mul] at hzero
    exact absurd hzero (size_pos hm e).ne
  | @finite n t m' e' hm' hcounts hfits' heq =>
    obtain ⟨rfl, rfl⟩ := hfits'.eq_of_size_eq hfits (heq.trans (hcount n t hcounts))
    rfl

theorem unpacked_mul_comm : u.mul spec v = v.mul spec u := by
  have hsign : ∀ s t : Sign, s * t = t * s := by
    intro s t
    cases s <;> cases t <;> rfl
  -- by kinds; signs, mantissas and exponents commute on their own
  cases u with
  | notANumber => cases v <;> rfl
  | infinity s | zero s =>
    cases v with
    | notANumber => rfl
    | infinity t | zero t | finite t =>
      unfold UnpackedFloat.mul
      simp only [hsign s t]
  | finite s m e hm =>
    cases v with
    | notANumber => rfl
    | infinity t | zero t =>
      unfold UnpackedFloat.mul
      simp only [hsign s t]
    | finite t n j hn =>
      unfold UnpackedFloat.mul
      simp only [hsign s t, Nat.mul_comm m n, Int.add_comm e j]

theorem unpacked_mul_one (hfits : FitsIn .binary32 m e) :
    (UnpackedFloat.finite s m e hm).mul .binary32 (.finite .positive (2 ^ 23) (-23) (by decide)) =
      .finite s m e hm := by
  have hsign : s * .positive = s := by cases s <;> rfl
  have hsize : size (m * 2 ^ 23) (e + -23) = size m e := by
    rw [size_eq_of_le m (show e + -23 ≤ e by omega)]
    congr 2
    rw [show (e - (e + -23)).toNat = 23 by omega]
  -- the mantissa has become longer by as many bits as the exponent has become smaller
  have hrounds : Rounds .binary32 s (size m e)
      (roundWithAccuracy .binary32 s (m * 2 ^ 23) (e + -23) .exact) := by
    refine rounds_roundWithAccuracy (enough_of_full (Nat.le_mul_of_pos_left _ hm) _) ?_
    rw [← hsize, size, mul_div_cancel_right₀ _ (by positivity)]
    exact_mod_cast represents_exact (m * 2 ^ 23)
  change roundWithAccuracy .binary32 (s * .positive) (m * 2 ^ 23) (e + -23) .exact = _
  rw [hsign]
  exact eq_of_rounds hrounds hfits

end Unpacked

/-! ### Finite numbers -/

variable {x y z : Float32}

theorem isFinite_of_unpack {u : UnpackedFloat} (h : x.toModel.unpack = u) :
    x.isFinite = u.isFinite := by
  rw [← h]
  rfl

/-- A finite number is a zero, or has a mantissa and an exponent. -/
theorem unpack_cases_of_isFinite (h : x.isFinite = true) :
    (∃ s, x.toModel.unpack = .zero s) ∨ ∃ s m e hm, x.toModel.unpack = .finite s m e hm := by
  change x.toModel.unpack.isFinite = true at h
  cases hx : x.toModel.unpack with
  | notANumber | infinity s =>
    rw [hx] at h
    cases h
  | zero s => exact .inl ⟨s, rfl⟩
  | finite s m e hm => exact .inr ⟨s, m, e, hm, rfl⟩

theorem isNaN_of_isFinite (h : x.isFinite = true) : x.isNaN = false := by
  change x.toModel.unpack.isNaN = false
  obtain ⟨s, hx⟩ | ⟨s, m, e, hm, hx⟩ := unpack_cases_of_isFinite h
  · rw [hx]
    rfl
  · rw [hx]
    rfl

theorem isInf_of_isFinite (h : x.isFinite = true) : x.isInf = false := by
  change x.toModel.unpack.isInf = false
  obtain ⟨s, hx⟩ | ⟨s, m, e, hm, hx⟩ := unpack_cases_of_isFinite h
  · rw [hx]
    rfl
  · rw [hx]
    rfl

theorem isNaN_of_le (h : x ≤ y) : y.isNaN = false := by
  cases hnan : y.isNaN with
  | false => rfl
  | true => exact absurd (isNaN_iff.mp hnan) (ne_notANumber_of_le h)

theorem isFinite_of_le (hy : y.isFinite = true) (hz : z.isFinite = true) (hle : y ≤ x)
    (hge : x ≤ z) : x.isFinite = true := by
  rw [le_iff] at hle hge
  change x.toModel.unpack.isFinite = true
  cases hx : x.toModel.unpack with
  | zero s | finite s => rfl
  | notANumber =>
    rw [hx, unpacked_le_iff] at hle
    exact absurd rfl hle.2.1
  | infinity s =>
    -- the bound on the other side would have to be infinite too
    rw [hx] at hle hge
    cases s with
    | positive =>
      obtain ⟨t, hz⟩ | ⟨t, m, e, hm, hz⟩ := unpack_cases_of_isFinite hz
      · rw [hz] at hge
        cases hge
      · rw [hz] at hge
        cases t <;> cases hge
    | negative =>
      obtain ⟨t, hy⟩ | ⟨t, m, e, hm, hy⟩ := unpack_cases_of_isFinite hy
      · rw [hy] at hle
        cases hle
      · rw [hy] at hle
        cases t <;> cases hle

/-- What is not below zero is finite or the positive infinity. -/
theorem isFinite_or_infinity (h : 0 ≤ x) :
    x.isFinite = true ∨ x.toModel.unpack = .infinity .positive := by
  have hle : UnpackedFloat.le (.zero .positive) x.toModel.unpack = true := le_iff.mp h
  -- by kind; a NaN and the other infinity are excluded by the comparison
  cases hx : x.toModel.unpack with
  | notANumber =>
    rw [hx] at hle
    cases hle
  | infinity s =>
    rw [hx] at hle
    cases s with
    | positive => exact .inr rfl
    | negative => cases hle
  | zero s | finite s => exact .inl (isFinite_of_unpack hx)

/-- **Finite numbers are in order,** one way or the other. -/
theorem le_iff_not_lt (hx : x.isFinite = true) (hy : y.isFinite = true) : x ≤ y ↔ ¬ y < x := by
  have hne : ∀ {z : Float32}, z.isFinite = true → z.toModel.unpack ≠ .notANumber := by
    intro z hz hnan
    rw [isFinite_of_unpack hnan] at hz
    cases hz
  rw [le_iff, lt_iff, unpacked_le_iff, unpacked_lt_iff]
  simp only [ne_eq, hne hx, hne hy, not_false_eq_true, true_and, not_lt]

/-! ### Equality of numbers -/

/-- **The two zeros.** -/
def IsZero (x : Float32) : Prop :=
  ∃ s, x.toModel.unpack = .zero s

theorem isZero_zero : IsZero 0 := ⟨.positive, rfl⟩

theorem IsZero.isFinite (h : IsZero x) : x.isFinite = true := by
  obtain ⟨s, hx⟩ := h
  exact isFinite_of_unpack hx

theorem IsZero.eq_or (h : IsZero x) : x = 0 ∨ x = -0 := by
  obtain ⟨s, hx⟩ := h
  cases s with
  | positive => exact .inl (eq_of_unpack_eq hx)
  | negative => exact .inr (eq_of_unpack_eq hx)

theorem IsZero.neg (h : IsZero x) : IsZero (-x) := by
  obtain rfl | rfl := h.eq_or
  · exact ⟨.negative, rfl⟩
  · exact ⟨.positive, rfl⟩

theorem beq_iff : (x == y) = true ↔ x.toModel.unpack.beq y.toModel.unpack = true := Iff.rfl

theorem beq_self (h : x.isNaN = false) : (x == x) = true := by
  refine beq_iff.mpr (unpacked_beq_self ?_)
  intro hx
  change x.toModel.unpack.isNaN = false at h
  rw [hx] at h
  cases h

theorem IsZero.beq (hx : IsZero x) (hy : IsZero y) : (x == y) = true := by
  obtain ⟨s, hx⟩ := hx
  obtain ⟨t, hy⟩ := hy
  rw [beq_iff, hx, hy]
  rfl

theorem eq_or_isZero_of_beq (h : (x == y) = true) : x = y ∨ IsZero x ∧ IsZero y := by
  obtain heq | hzero := unpacked_cases_of_beq (beq_iff.mp h)
  · exact .inl (eq_of_unpack_eq heq)
  · exact .inr hzero

theorem le_of_beq (h : (x == y) = true) : x ≤ y := by
  have hcompare : x.toModel.unpack.compare y.toModel.unpack = some .eq := by
    simpa [UnpackedFloat.beq] using beq_iff.mp h
  rw [le_iff, UnpackedFloat.le, hcompare]
  rfl

theorem isFinite_of_beq (h : (x == y) = true) (hy : y.isFinite = true) : x.isFinite = true := by
  obtain rfl | ⟨hx, -⟩ := eq_or_isZero_of_beq h
  · exact hy
  · exact hx.isFinite

/-! ### Sums and products -/

theorem unpack_add (x y : Float32) : (x + y).toModel.unpack =
    unpack .binary32 ((x.toModel.unpack.add .binary32 y.toModel.unpack).pack .binary32) := rfl

theorem unpack_mul (x y : Float32) : (x * y).toModel.unpack =
    unpack .binary32 ((x.toModel.unpack.mul .binary32 y.toModel.unpack).pack .binary32) := rfl

theorem mul_comm_single (x y : Float32) : x * y = y * x := by
  refine eq_of_unpack_eq ?_
  rw [unpack_mul, unpack_mul, unpacked_mul_comm]

theorem add_beq_of_isZero (hx : x.isFinite = true) (hy : IsZero y) : (x + y == x) = true := by
  obtain ⟨t, hy⟩ := hy
  have hadd := unpack_add x y
  obtain ⟨s, hx⟩ | ⟨s, m, e, hm, hx⟩ := unpack_cases_of_isFinite hx
  · -- two zeros make a zero, though not always the first one
    have hsum : ∃ s', (UnpackedFloat.zero s).add .binary32 (.zero t) = .zero s' := by
      cases s <;> cases t <;> exact ⟨_, rfl⟩
    obtain ⟨s', hsum⟩ := hsum
    rw [hx, hy, hsum, unpack_pack_zero] at hadd
    exact IsZero.beq ⟨s', hadd⟩ ⟨s, hx⟩
  · -- any other number is the sum itself, which is packed as it had been
    obtain ⟨hfits, he⟩ := fitsIn_single hx
    rw [hx, hy] at hadd
    have hsame : x + y = x :=
      eq_of_unpack_eq ((hadd.trans (unpack_pack_of_fits hfits he)).trans hx.symm)
    rw [hsame]
    exact beq_self (isNaN_of_isFinite (isFinite_of_unpack hx))

/-- **A sum of times** is not below the first one, be it infinite. -/
theorem le_add_of_nonneg (hx : 0 ≤ x) (hfinite : y.isFinite = true) (hy : 0 ≤ y) : x ≤ x + y := by
  obtain hxfinite | hinf := isFinite_or_infinity hx
  · exact le_add hxfinite hy
  · -- nothing finite is added to infinity
    have hsum : x + y = x := by
      refine eq_of_unpack_eq ?_
      rw [unpack_add, hinf]
      obtain ⟨s, hy⟩ | ⟨s, m, e, hm, hy⟩ := unpack_cases_of_isFinite hfinite
      · rw [hy]
        exact unpack_pack_infinity
      · rw [hy]
        exact unpack_pack_infinity
    rw [hsum]
    exact single_le_refl_of_le hx

theorem isZero_mul (hx : x.isFinite = true) (hy : IsZero y) : IsZero (x * y) := by
  obtain ⟨t, hy⟩ := hy
  have hmul := unpack_mul x y
  obtain ⟨s, hx⟩ | ⟨s, m, e, hm, hx⟩ := unpack_cases_of_isFinite hx
  · rw [hx, hy] at hmul
    exact ⟨s * t, hmul.trans unpack_pack_zero⟩
  · rw [hx, hy] at hmul
    exact ⟨s * t, hmul.trans unpack_pack_zero⟩

theorem isZero_mul_left (hx : IsZero x) (hy : y.isFinite = true) : IsZero (x * y) := by
  rw [mul_comm_single]
  exact isZero_mul hy hx

theorem IsZero.mul_self (h : IsZero x) : (x * x).toModel.unpack = .zero .positive := by
  obtain ⟨s, hx⟩ := h
  have hmul := unpack_mul x x
  rw [hx] at hmul
  cases s with
  | positive | negative => exact hmul.trans unpack_pack_zero

theorem mul_self_eq_of_beq (h : (x == y) = true) : x * x = y * y := by
  obtain rfl | ⟨hx, hy⟩ := eq_or_isZero_of_beq h
  · rfl
  · exact eq_of_unpack_eq (hx.mul_self.trans hy.mul_self.symm)

theorem mul_one_of_isFinite (hx : x.isFinite = true) : x * 1 = x := by
  have hone : (1 : Float32).toModel.unpack = .finite .positive (2 ^ 23) (-23) (by decide) := by rfl
  have hmul := unpack_mul x 1
  refine eq_of_unpack_eq ?_
  obtain ⟨s, hx⟩ | ⟨s, m, e, hm, hx⟩ := unpack_cases_of_isFinite hx
  · rw [hx, hone] at hmul
    rw [hmul, hx]
    cases s with
    | positive | negative => exact unpack_pack_zero
  · obtain ⟨hfits, he⟩ := fitsIn_single hx
    rw [hx, hone, unpacked_mul_one hfits] at hmul
    rw [hmul, hx]
    exact unpack_pack_of_fits hfits he

end Skirmish.Numeric
