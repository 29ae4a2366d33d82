import Skirmish.Proofs.Numeric.Sums

/-!
# Values and signs of numbers

Finite numbers are rational numbers, and numbers without a minus are not below zero:

* `le_iff_value_le` — the order of finite numbers is that of their values;
* `lesser_bounds` — what has no minus is between zero and the limit that it is given.
-/

/-! ## The values of numbers

A finite number is a rational number, its exact value. Zeros of either sign have the same value, and
so the value is all that comparisons see.

* `value` — the exact value of a number;
* `le_iff_value_le` and `lt_iff_value_lt` — the order of finite numbers is that of their values;
* `OnGrid` — the rational numbers that have few enough bits to be values, were it not for their
  size.
-/

namespace Skirmish.Numeric

open Float.Model
open Float.Model.UnpackedFloat

/-! ### Signs of rational numbers -/

/-- A size with a sign. -/
def withSign : Sign → ℚ → ℚ
  | .positive, v => v
  | .negative, v => -v

section Signs

variable {s t : Sign} {u v : ℚ}

@[simp] theorem withSign_zero (s : Sign) : withSign s 0 = 0 := by
  cases s with
  | positive => rfl
  | negative => exact neg_zero

theorem withSign_neg (s : Sign) (v : ℚ) : withSign (-s) v = -withSign s v := by
  cases s with
  | positive => rfl
  | negative => exact (neg_neg v).symm

theorem withSign_mul (s t : Sign) (u v : ℚ) :
    withSign (s * t) (u * v) = withSign s u * withSign t v := by
  cases s <;> cases t
  · exact (neg_mul_neg u v).symm
  · exact (neg_mul u v).symm
  · exact (mul_neg u v).symm
  · rfl

theorem withSign_div (s t : Sign) (u v : ℚ) :
    withSign (s / t) (u / v) = withSign s u / withSign t v := by
  cases s <;> cases t
  · exact (neg_div_neg_eq u v).symm
  · exact (neg_div v u).symm
  · exact (div_neg u).symm
  · rfl

theorem abs_withSign (s : Sign) (hv : 0 ≤ v) : |withSign s v| = v := by
  cases s with
  | positive => exact abs_of_nonneg hv
  | negative => exact (abs_neg v).trans (abs_of_nonneg hv)

theorem withSign_size (s : Sign) (m : ℕ) (e : ℤ) :
    withSign s (size m e) = (s.apply m : ℤ) * 2 ^ e := by
  cases s with
  | positive => exact congrArg (· * (2 : ℚ) ^ e) (Int.cast_natCast m).symm
  | negative =>
    change -((m : ℚ) * 2 ^ e) = ((-(m : ℤ) : ℤ) : ℚ) * 2 ^ e
    push_cast
    ring

end Signs

/-! ### Values -/

/-- The rational number that an exact value is. -/
def Scaled.value (x : Scaled) : ℚ :=
  x.mantissa * 2 ^ x.exponent

/-- **The exact value** of a finite number. -/
def value (x : Float32) : ℚ :=
  (exactSingle x).value

section Values

variable {x y : Float32} {s : Sign} {m : ℕ} {e : ℤ} {hm : 0 < m}

theorem IsZero.value_eq (h : IsZero x) : value x = 0 := by
  have hzero : ∀ negative, (⟨negative, 0, -149⟩ : Scaled).value = 0 := by
    intro negative
    cases negative <;> exact zero_mul _
  obtain rfl | rfl := h.eq_or
  · exact hzero false
  · exact hzero true

@[simp] theorem value_zero : value 0 = 0 := isZero_zero.value_eq

theorem value_of_finite (h : x.toModel.unpack = .finite s m e hm) :
    value x = withSign s (size m e) := by
  rw [value, exactSingle_eq h, withSign_size]
  cases s <;> rfl

@[simp] theorem value_one : value 1 = 1 := by
  have hunpack : (1 : Float32).toModel.unpack = .finite .positive (2 ^ 23) (-23) (by decide) := by
    rfl
  rw [value_of_finite hunpack]
  norm_num [withSign, size]

/-- The values of finite numbers are small. -/
theorem abs_value_lt (hx : x.isFinite = true) : |value x| < 2 ^ 128 := by
  -- a zero has no size, and anything else is below the first number that overflows
  obtain ⟨s, hx⟩ | ⟨s, m, e, hm, hx⟩ := unpack_cases_of_isFinite hx
  · rw [IsZero.value_eq ⟨s, hx⟩, abs_zero]
    positivity
  · obtain ⟨hfits, he⟩ := fitsIn_single hx
    have hmax : maxExponent .binary32 = 104 := rfl
    rw [value_of_finite hx, abs_withSign s (size_nonneg m e), ← zpow_natCast]
    exact hfits.size_lt.trans_le (zpow_le_zpow_right₀ (by norm_num)
      (by change 23 + 1 + e ≤ 128; omega))

theorem value_neg (hx : x.isFinite = true) : value (-x) = -value x := by
  obtain ⟨s, hx⟩ | ⟨s, m, e, hm, hx⟩ := unpack_cases_of_isFinite hx
  · rw [IsZero.value_eq (IsZero.neg ⟨s, hx⟩), IsZero.value_eq ⟨s, hx⟩, neg_zero]
  · rw [value_of_finite (unpack_neg_single hx), value_of_finite hx, withSign_neg]

theorem isFinite_neg (hx : x.isFinite = true) : (-x).isFinite = true := by
  obtain ⟨s, hx⟩ | ⟨s, m, e, hm, hx⟩ := unpack_cases_of_isFinite hx
  · exact (IsZero.neg ⟨s, hx⟩).isFinite
  · exact isFinite_of_unpack (unpack_neg_single hx)

/-- **The smaller number comes first,** and only then. -/
theorem Fits.size_le_iff {bits : ℕ} {floor : ℤ} {n : ℕ} {t : ℤ} (hm : Fits bits floor m e)
    (hn : Fits bits floor n t) : size m e ≤ size n t ↔ e < t ∨ e = t ∧ m ≤ n := by
  refine ⟨hm.le_of_size_le hn, fun h => ?_⟩
  -- the other order of sizes would give the other order of forms
  by_contra hlt
  have hge := hn.le_of_size_le hm (not_le.mp hlt).le
  obtain ⟨rfl, rfl⟩ : e = t ∧ m = n := by omega
  exact hlt le_rfl

theorem le_iff_value_le (hx : x.isFinite = true) (hy : y.isFinite = true) :
    x ≤ y ↔ value x ≤ value y := by
  rw [le_iff]
  -- zeros first, as they have no mantissa; then signs, and sizes of one sign
  obtain ⟨s, hx⟩ | ⟨s, m, e, hm, hx⟩ := unpack_cases_of_isFinite hx
  · rw [IsZero.value_eq ⟨s, hx⟩]
    obtain ⟨t, hy⟩ | ⟨t, n, j, hn, hy⟩ := unpack_cases_of_isFinite hy
    · rw [IsZero.value_eq ⟨t, hy⟩, hx, hy]
      exact iff_of_true rfl le_rfl
    · have hpos := size_pos hn j
      rw [value_of_finite hy, hx, hy]
      cases t with
      | positive => exact iff_of_true rfl hpos.le
      | negative => exact iff_of_false nofun (not_le.mpr (neg_neg_of_pos hpos))
  · have hmpos := size_pos hm e
    obtain ⟨t, hy⟩ | ⟨t, n, j, hn, hy⟩ := unpack_cases_of_isFinite hy
    · rw [value_of_finite hx, IsZero.value_eq ⟨t, hy⟩, hx, hy]
      cases s with
      | positive => exact iff_of_false nofun (not_le.mpr hmpos)
      | negative => exact iff_of_true rfl (neg_nonpos.mpr hmpos.le)
    · have hnpos := size_pos hn j
      have hm' := (fitsIn_single hx).1
      have hn' := (fitsIn_single hy).1
      rw [value_of_finite hx, value_of_finite hy, hx, hy]
      -- of two numbers with a minus the larger one comes first
      cases s <;> cases t
      · rw [negative_le_iff]
        change _ ↔ -size m e ≤ -size n j
        rw [neg_le_neg_iff, hn'.size_le_iff hm']
        omega
      · refine iff_of_true rfl ?_
        change -size m e ≤ size n j
        linarith
      · refine iff_of_false nofun (not_le.mpr ?_)
        change -size n j < size m e
        linarith
      · rw [positive_le_iff]
        exact (hm'.size_le_iff hn').symm

theorem lt_iff_value_lt (hx : x.isFinite = true) (hy : y.isFinite = true) :
    x < y ↔ value x < value y := by
  rw [← not_le, ← le_iff_value_le hy hx, le_iff_not_lt hy hx, not_not]

/-- A number that has a value besides zero is known by it. -/
theorem eq_of_value_eq (hx : x.isFinite = true) (hy : y.isFinite = true) (h : value x = value y)
    (hne : value x ≠ 0) : x = y := by
  obtain ⟨s, hx⟩ | ⟨s, m, e, hm, hx⟩ := unpack_cases_of_isFinite hx
  · exact absurd (IsZero.value_eq ⟨s, hx⟩) hne
  · obtain ⟨t, hy⟩ | ⟨t, n, j, hn, hy⟩ := unpack_cases_of_isFinite hy
    · exact absurd (h.trans (IsZero.value_eq ⟨t, hy⟩)) hne
    · have hmpos := size_pos hm e
      have hnpos := size_pos hn j
      rw [value_of_finite hx, value_of_finite hy] at h
      have hsize : size m e = size n j := by
        rw [← abs_withSign s hmpos.le, h, abs_withSign t hnpos.le]
      obtain ⟨rfl, rfl⟩ := (fitsIn_single hx).1.eq_of_size_eq (fitsIn_single hy).1 hsize
      -- equal sizes that are not zero have equal signs
      have hsign : s = t := by
        cases s <;> cases t <;> first | rfl | (simp only [withSign] at h; linarith)
      rw [hsign] at hx
      exact eq_of_unpack_eq (hx.trans hy.symm)

end Values

/-! ### The grid -/

/-- **The rational numbers with few enough bits** to be values, were it not for their size. -/
def OnGrid (v : ℚ) : Prop :=
  ∃ s k j, k ≤ 2 ^ 24 ∧ -149 ≤ j ∧ v = withSign s (size k j)

theorem onGrid_zero : OnGrid 0 :=
  ⟨.positive, 0, 0, by norm_num, by norm_num, by simp [withSign, size]⟩

theorem onGrid_one_div {n : ℕ} (hn : n ≤ 149) : OnGrid (1 / 2 ^ n) :=
  ⟨.positive, 1, -n, by norm_num, by omega, by simp [withSign, size, zpow_neg]⟩

/-- **The values of finite numbers** are on the grid. -/
theorem onGrid_value {x : Float32} (hx : x.isFinite = true) : OnGrid (value x) := by
  obtain ⟨s, hx⟩ | ⟨s, m, e, hm, hx⟩ := unpack_cases_of_isFinite hx
  · rw [IsZero.value_eq ⟨s, hx⟩]
    exact onGrid_zero
  · have hfits := (fitsIn_single hx).1
    exact ⟨s, m, e, hfits.short.le, hfits.floor_le, value_of_finite hx⟩

theorem OnGrid.exists_units {v : ℚ} (h : OnGrid v) : ∃ a : ℤ, v = a * 2 ^ (-149 : ℤ) := by
  obtain ⟨s, k, j, -, hj, rfl⟩ := h
  exact ⟨_, by rw [size_eq_of_le k hj, withSign_size]⟩

/-- A small integer in any unit is on the grid. -/
theorem onGrid_of_eq {v : ℚ} {k : ℤ} {j : ℤ} (hk : |k| ≤ 2 ^ 24) (hj : -149 ≤ j)
    (hv : v = k * 2 ^ j) : OnGrid v := by
  have hnat : (k.natAbs : ℤ) ≤ 2 ^ 24 := by rwa [Int.natCast_natAbs]
  -- the sign is split from the integer
  obtain hnonneg | hneg := le_or_gt 0 k
  · refine ⟨.positive, k.natAbs, j, by exact_mod_cast hnat, hj, hv.trans ?_⟩
    rw [withSign_size]
    change (k : ℚ) * 2 ^ j = ((k.natAbs : ℤ) : ℚ) * 2 ^ j
    rw [Int.natAbs_of_nonneg hnonneg]
  · refine ⟨.negative, k.natAbs, j, by exact_mod_cast hnat, hj, hv.trans ?_⟩
    rw [withSign_size]
    change (k : ℚ) * 2 ^ j = ((-(k.natAbs : ℤ) : ℤ) : ℚ) * 2 ^ j
    rw [Int.ofNat_natAbs_of_nonpos hneg.le, neg_neg]

end Skirmish.Numeric

/-! ## Numbers without a minus

Squares have no minus, and neither have sums, quotients and square roots of numbers that have none.
Some of these are no numbers at all, such as the quotient of two infinities; everything else is not
below zero.

* `Unsigned` — numbers with a plus, and what is no number;
* `unsigned_mul_self`, `Unsigned.add`, `Unsigned.div` and `Unsigned.sqrt` — how they arise;
* `Unsigned.zero_le` — those that are numbers are not below zero;
* `lesser_bounds` — limited from above, all of them are between zero and the limit.
-/

namespace Skirmish.Numeric

open Float.Model
open Float.Model.UnpackedFloat

section Unpacked

variable {u v : UnpackedFloat}

/-- **A plus, or no number.** -/
def UnpackedUnsigned (u : UnpackedFloat) : Prop :=
  u = .notANumber ∨ HasSign .positive u

theorem unpackedUnsigned_pack (h : UnpackedUnsigned u) :
    UnpackedUnsigned (unpack .binary32 (u.pack .binary32)) := by
  obtain rfl | hsign := h
  · exact .inl rfl
  · exact .inr (hasSign_unpack_pack hsign)

theorem unpackedUnsigned_mul_self (spec : Format) (u : UnpackedFloat) :
    UnpackedUnsigned (u.mul spec u) := by
  have hsquare : ∀ {s : Sign}, HasSign s u → UnpackedUnsigned (u.mul spec u) := by
    intro s hs
    obtain ⟨hnan, -⟩ | hsign := mul_cases spec hs hs
    · exact .inl hnan
    · rw [show s * s = .positive by cases s <;> rfl] at hsign
      exact .inr hsign
  -- a square has equal signs, so its sign is a plus
  cases u with
  | notANumber => exact .inl rfl
  | infinity s | zero s | finite s => exact hsquare (s := s) rfl

/-- **A sum without a minus** is a number if its terms are. -/
theorem hasSign_add (spec : Format) (hu : HasSign .positive u) (hv : HasSign .positive v) :
    HasSign .positive (u.add spec v) := by
  cases u with
  | notANumber => exact hu.elim
  | infinity s | zero s =>
    obtain rfl : s = .positive := hu
    cases v with
    | notANumber => exact hv.elim
    | infinity t | zero t | finite t =>
      obtain rfl : t = .positive := hv
      rfl
  | finite s m e hm =>
    obtain rfl : s = .positive := hu
    cases v with
    | notANumber => exact hv.elim
    | infinity t | zero t =>
      obtain rfl : t = .positive := hv
      rfl
    | finite t n j hn =>
      obtain rfl : t = .positive := hv
      -- both terms are positive, and so is the sum of their counts
      change HasSign .positive (normalize spec ((m <<< (e - min e j).toNat : ℕ) +
        (n <<< (j - min e j).toNat : ℕ) : ℤ) (min e j) .positive)
      have hpos : 0 < m <<< (e - min e j).toNat := by
        rw [Nat.shiftLeft_eq]
        positivity
      rw [normalize_of_pos (Int.add_pos_of_pos_of_nonneg (by exact_mod_cast hpos)
        (Int.natCast_nonneg _))]
      exact hasSign_roundWithAccuracy _ _ _

theorem unpackedUnsigned_add (spec : Format) (hu : UnpackedUnsigned u) (hv : UnpackedUnsigned v) :
    UnpackedUnsigned (u.add spec v) := by
  obtain rfl | hu := hu
  · exact .inl rfl
  · obtain rfl | hv := hv
    · cases u with
      | notANumber => exact hu.elim
      | infinity s | zero s | finite s => exact .inl rfl
    · exact .inr (hasSign_add spec hu hv)

theorem unpackedUnsigned_div (spec : Format) (hu : UnpackedUnsigned u) (hv : UnpackedUnsigned v) :
    UnpackedUnsigned (u.div spec v) := by
  obtain rfl | hu := hu
  · exact .inl rfl
  · obtain rfl | hv := hv
    · cases u with
      | notANumber => exact hu.elim
      | infinity s | zero s | finite s => exact .inl rfl
    · cases u with
      | notANumber => exact hu.elim
      | infinity s | zero s | finite s =>
        obtain rfl : s = .positive := hu
        cases v with
        | notANumber => exact hv.elim
        | infinity t | zero t | finite t =>
          obtain rfl : t = .positive := hv
          -- there is no quotient of two infinities or two zeros
          first
          | exact .inl rfl
          | exact .inr rfl
          | exact .inr (hasSign_roundWithAccuracy _ _ _)

theorem hasSign_sqrt (spec : Format) (hu : HasSign .positive u) :
    HasSign .positive (u.sqrt spec) := by
  cases u with
  | notANumber => exact hu.elim
  | infinity s | zero s =>
    obtain rfl : s = .positive := hu
    rfl
  | finite s =>
    obtain rfl : s = .positive := hu
    exact hasSign_roundWithAccuracy _ _ _

theorem unpackedUnsigned_sqrt (spec : Format) (hu : UnpackedUnsigned u) :
    UnpackedUnsigned (u.sqrt spec) := by
  obtain rfl | hu := hu
  · exact .inl rfl
  · exact .inr (hasSign_sqrt spec hu)

end Unpacked

/-! ### Single precision -/

/-- **Numbers without a minus.** -/
def Unsigned (x : Float32) : Prop :=
  UnpackedUnsigned x.toModel.unpack

variable {x y : Float32}

theorem unsigned_mul_self (x : Float32) : Unsigned (x * x) :=
  unpackedUnsigned_pack (unpackedUnsigned_mul_self .binary32 x.toModel.unpack)

theorem Unsigned.add (hx : Unsigned x) (hy : Unsigned y) : Unsigned (x + y) :=
  unpackedUnsigned_pack (unpackedUnsigned_add .binary32 hx hy)

theorem Unsigned.div (hx : Unsigned x) (hy : Unsigned y) : Unsigned (x / y) :=
  unpackedUnsigned_pack (unpackedUnsigned_div .binary32 hx hy)

theorem Unsigned.sqrt (hx : Unsigned x) : Unsigned x.sqrt :=
  unpackedUnsigned_pack (unpackedUnsigned_sqrt .binary32 hx)

theorem unsigned_of_pos (hx : 0 < x) : Unsigned x :=
  .inr (hasSign_of_pos hx)

theorem Unsigned.zero_le (hx : Unsigned x) (hnan : x.isNaN = false) : 0 ≤ x := by
  refine le_iff.mpr (zero_le_of_hasSign (hx.resolve_left fun h => ?_))
  change x.toModel.unpack.isNaN = false at hnan
  rw [h] at hnan
  cases hnan

theorem unsigned_greater (x : Float32) (hy : 0 < y) : Unsigned (greater x y) := by
  have hnan : y.isNaN = false := isNaN_of_le (single_le_of_lt hy)
  unfold greater
  -- a NaN is passed over, and otherwise the greater one is taken
  split
  · exact unsigned_of_pos hy
  · rw [hnan, if_neg Bool.false_ne_true]
    split
    · next hgt => exact unsigned_of_pos (single_lt_trans hy hgt)
    · exact unsigned_of_pos hy

theorem lesser_bounds (hx : Unsigned x) (hy : 0 ≤ y) : 0 ≤ lesser x y ∧ lesser x y ≤ y := by
  have hself := single_le_refl_of_le hy
  unfold lesser
  -- a NaN is passed over, and otherwise the lesser one is taken
  split
  · exact ⟨hy, hself⟩
  · next hnan =>
    rw [isNaN_of_le hy, if_neg Bool.false_ne_true]
    split
    · next hlt => exact ⟨hx.zero_le (by simpa using hnan), single_le_of_lt hlt⟩
    · exact ⟨hy, hself⟩

end Skirmish.Numeric
