import Skirmish.Geometry
import Skirmish.Proofs.Geometry.Angles
import Skirmish.Proofs.Numeric.Arithmetic
import Skirmish.Proofs.Numeric.Values

/-!
# Lengths, and motion in no time

A vector's length and the vector limited in its length, up to the rounding errors; and what becomes
of angles, speeds and positions in no time:

* `Vector2.isLimited_clampLength` — limiting a finite vector limits its length;
* `Motion.turn_beq`, `Motion.thrust_beq`, `Motion.advance_beq` and `Motion.drag_eq` — motion in no
  time.
-/

/-! ## Lengths of vectors

The length of a vector is rounded four times, and a vector that is limited in its length is rounded
three times more: the quotient of the limit and the length, and the two products with it. Each time
a number is off by one part in `2 ^ 24` and half of the smallest unit.

* `length_cases` — a finite vector has a finite length, or the sum of its squares is too large for a
  number;
* `normSq` — the sum of the squares of the coordinates, exactly;
* `length_bounds` — how far the square of the length is from it;
* `IsLimited` — a vector limited in its length, up to the rounding errors;
* `isLimited_clampLength` — limiting a finite vector does that;
* `length_clampLength_le_iff` — when the limit is kept exactly;
* `isNaN_length_clampLength` — limiting one that is not finite gives something that has no length.

Errors are compared in squares, where the coordinates can be added up. A sum of squares that is too
large counts as an infinite length, and the vector is limited to zero.
-/

namespace Skirmish.Vector2

open Numeric
open Float.Model
open Float.Model.UnpackedFloat

variable {v w : Vector2} {k limit : Float32}

/-! ### Lengths -/

theorem unsigned_length (v : Vector2) : Unsigned v.length :=
  ((unsigned_mul_self v.x).add (unsigned_mul_self v.y)).sqrt

theorem isFinite_of_length (h : v.length.isFinite = true) : v.isFinite = true := by
  obtain ⟨hx, hy⟩ := isFinite_of_add (isFinite_of_sqrt h)
  exact isFinite_iff.mpr ⟨(isFinite_of_mul hx).1, (isFinite_of_mul hy).1⟩

/-- The length of a finite vector is a number, or infinite. -/
theorem isNaN_length (hv : v.isFinite = true) : v.length.isNaN = false := by
  obtain ⟨hx, hy⟩ := isFinite_iff.mp hv
  -- a square of a finite number is a number, and cannot be negative
  have hsquare : ∀ {x : Float32}, x.isFinite = true → HasSign .positive (x * x).toModel.unpack :=
    fun hx => (unsigned_mul_self _).resolve_left (roundsTo_mul hx hx).ne_notANumber
  have hsum : HasSign .positive v.lengthSquared.toModel.unpack :=
    hasSign_unpack_pack (hasSign_add .binary32 (hsquare hx) (hsquare hy))
  have hlength : HasSign .positive v.length.toModel.unpack :=
    hasSign_unpack_pack (hasSign_sqrt .binary32 hsum)
  exact isNaN_eq_false_iff.mpr ⟨.positive, hlength⟩

theorem length_cases (hv : v.isFinite = true) :
    v.length.isFinite = true ∨ v.length.toModel.unpack = .infinity .positive :=
  isFinite_or_infinity ((unsigned_length v).zero_le (isNaN_length hv))

theorem lt_length (hv : v.isFinite = true) (hlimit : limit.isFinite = true)
    (h : ¬ v.length ≤ limit) : limit < v.length := by
  -- for numbers that are ordered at all; an infinite length is above every limit
  obtain hlength | hinfinite := length_cases hv
  · rwa [le_iff_not_lt hlength hlimit, not_not] at h
  · exact Holds.lt_infinity hlimit hinfinite

/-! ### Squares -/

/-- **The square of the length,** exactly. -/
def normSq (v : Vector2) : ℚ :=
  value v.x ^ 2 + value v.y ^ 2

theorem value_mul_self_nonneg {x : Float32} (h : (x * x).isFinite = true) : 0 ≤ value (x * x) :=
  (roundsTo_mul (isFinite_of_mul h).1 (isFinite_of_mul h).1).value_nonneg h (mul_self_nonneg _)

theorem mul_self_le {x y : Float32} (hx : x.isFinite = true) (h : (y * y).isFinite = true)
    (hle : |value x| ≤ |value y|) : (x * x).isFinite = true ∧ value (x * x) ≤ value (y * y) := by
  have hy := (isFinite_of_mul h).1
  have hsquares : |value x * value x| ≤ |value y * value y| := by
    rw [abs_mul, abs_mul]
    exact mul_self_le_mul_self (abs_nonneg _) hle
  obtain ⟨hxx, hvalues⟩ := (roundsTo_mul hx hx).abs_value_le (roundsTo_mul hy hy) h hsquares
  rw [abs_of_nonneg (value_mul_self_nonneg hxx), abs_of_nonneg (value_mul_self_nonneg h)] at hvalues
  exact ⟨hxx, hvalues⟩

/-- **Coordinates that are not larger** have a sum of squares that is no more likely to be too
large. -/
theorem isFinite_lengthSquared_of_le (hw : w.isFinite = true) (hx : |value w.x| ≤ |value v.x|)
    (hy : |value w.y| ≤ |value v.y|) (h : v.lengthSquared.isFinite = true) :
    w.lengthSquared.isFinite = true := by
  obtain ⟨hwx, hwy⟩ := isFinite_iff.mp hw
  obtain ⟨hxx, hyy⟩ := isFinite_of_add h
  obtain ⟨hwxx, hlex⟩ := mul_self_le hwx hxx hx
  obtain ⟨hwyy, hley⟩ := mul_self_le hwy hyy hy
  -- sums are rounded monotonely, so the smaller sum overflows no sooner
  refine ((roundsTo_add hwxx hwyy).abs_value_le (roundsTo_add hxx hyy) h ?_).1
  rw [abs_of_nonneg (add_nonneg (value_mul_self_nonneg hwxx) (value_mul_self_nonneg hwyy)),
    abs_of_nonneg (add_nonneg (value_mul_self_nonneg hxx) (value_mul_self_nonneg hyy))]
  exact add_le_add hlex hley

theorem lengthSquared_bounds (h : v.lengthSquared.isFinite = true) : 0 ≤ value v.lengthSquared ∧
    v.normSq * (1 - 1 / 2 ^ 24) ^ 2 ≤ value v.lengthSquared + 1 / 2 ^ 148 ∧
      value v.lengthSquared ≤ v.normSq * (1 + 1 / 2 ^ 24) ^ 2 + 1 / 2 ^ 148 := by
  obtain ⟨hxx, hyy⟩ := isFinite_of_add h
  have hx := (isFinite_of_mul hxx).1
  have hy := (isFinite_of_mul hyy).1
  have hnonneg := add_nonneg (value_mul_self_nonneg hxx) (value_mul_self_nonneg hyy)
  have hrounds : RoundsTo (value (v.x * v.x) + value (v.y * v.y)) v.lengthSquared :=
    roundsTo_add hxx hyy
  -- two squares and a sum, each off by one part in `2 ^ 24` and half a unit
  obtain ⟨hlowx, hhighx⟩ := (roundsTo_mul hx hx).bounds hxx (mul_self_nonneg _)
  obtain ⟨hlowy, hhighy⟩ := (roundsTo_mul hy hy).bounds hyy (mul_self_nonneg _)
  obtain ⟨hlow, hhigh⟩ := hrounds.bounds h hnonneg
  have hsquare : v.normSq = value v.x * value v.x + value v.y * value v.y := by
    rw [normSq, sq, sq]
  rw [hsquare]
  refine ⟨hrounds.value_nonneg h hnonneg, ?_, ?_⟩ <;> linarith

theorem length_bounds (h : v.length.isFinite = true) :
    0 ≤ value v.length ∧ value v.length < 2 ^ 65 ∧
      v.normSq * (1 - 1 / 2 ^ 24) ^ 2 ≤ (value v.length * (1 + 1 / 2 ^ 24)) ^ 2 + 1 / 2 ^ 148 ∧
      (value v.length * (1 - 1 / 2 ^ 24)) ^ 2 ≤ v.normSq * (1 + 1 / 2 ^ 24) ^ 2 + 1 / 2 ^ 148 := by
  have hsum : v.lengthSquared.isFinite = true := isFinite_of_sqrt h
  obtain ⟨hnonneg, hlow, hhigh⟩ := lengthSquared_bounds hsum
  obtain ⟨-, hpos, hbelow, habove⟩ := sqrt_bounds hsum hnonneg
  refine ⟨hpos, ?_, hlow.trans (add_le_add habove le_rfl), hbelow.trans hhigh⟩
  -- the square is below `2 ^ 128` even after the root is rounded
  have hsmall : (value v.length * (1 - 1 / 2 ^ 24)) ^ 2 < (2 ^ 65 * (1 - 1 / 2 ^ 24)) ^ 2 := by
    refine hbelow.trans_lt (((le_abs_self _).trans_lt (abs_value_lt hsum)).trans_le ?_)
    norm_num
  exact lt_of_mul_lt_mul_right (lt_of_pow_lt_pow_left₀ 2 (by norm_num) hsmall) (by norm_num)

/-! ### Scaling down -/

/-- **A factor from zero to one.** -/
structure IsScale (k : Float32) : Prop where
  /-- It is finite. -/
  finite : k.isFinite = true
  /-- It is not below zero. -/
  nonneg : 0 ≤ value k
  /-- It is at most one. -/
  le_one : value k ≤ 1

/-- A sum is squared at the price of a little more of the one term and a lot more of the other. -/
theorem add_sq_le_of_pos (a b : ℚ) {c : ℚ} (hc : 0 < c) :
    (a + b) ^ 2 ≤ a ^ 2 * (1 + c) + b ^ 2 * (1 + 1 / c) := by
  -- the difference is a square
  have hsplit : a ^ 2 * (1 + c) + b ^ 2 * (1 + 1 / c) - (a + b) ^ 2 = (c * a - b) ^ 2 / c := by
    field_simp
    ring
  have hnonneg : 0 ≤ (c * a - b) ^ 2 / c := by positivity
  linarith

/-- A number that is scaled down gets no larger, and is off by one rounding. -/
theorem IsScale.mul_bounds {x : Float32} (hk : IsScale k) (hx : x.isFinite = true) :
    (x * k).isFinite = true ∧ |value (x * k)| ≤ |value x| ∧
      value (x * k) ^ 2 ≤ value x ^ 2 * value k ^ 2 * (1 + 1 / 2 ^ 24) ^ 3 + 1 / 2 ^ 251 := by
  -- the size is exact: a product with at most one is not rounded above its factor
  obtain ⟨hfinite, hle⟩ :=
    abs_value_mul_le hx hk.finite (by rw [abs_of_nonneg hk.nonneg]; exact hk.le_one)
  refine ⟨hfinite, hle, ?_⟩
  have herror : |value (x * k)| ≤ |value x * value k| * (1 + 1 / 2 ^ 24) + 1 / 2 ^ 150 := by
    have htriangle := abs_sub_abs_le_abs_sub (value (x * k)) (value x * value k)
    linarith [(roundsTo_mul hx hk.finite).error_le hfinite]
  -- the absolute error is too small to be squared with anything but a large weight
  calc value (x * k) ^ 2 = |value (x * k)| ^ 2 := (sq_abs _).symm
    _ ≤ (|value x * value k| * (1 + 1 / 2 ^ 24) + 1 / 2 ^ 150) ^ 2 :=
      pow_le_pow_left₀ (abs_nonneg _) herror 2
    _ ≤ (|value x * value k| * (1 + 1 / 2 ^ 24)) ^ 2 * (1 + 1 / 2 ^ 24) +
        (1 / 2 ^ 150) ^ 2 * (1 + 1 / (1 / 2 ^ 24)) := add_sq_le_of_pos _ _ (by norm_num)
    _ = value x ^ 2 * value k ^ 2 * (1 + 1 / 2 ^ 24) ^ 3 +
        (1 / 2 ^ 150) ^ 2 * (1 + 1 / (1 / 2 ^ 24)) := by
        rw [mul_pow, sq_abs]
        ring
    _ ≤ value x ^ 2 * value k ^ 2 * (1 + 1 / 2 ^ 24) ^ 3 + 1 / 2 ^ 251 :=
      add_le_add le_rfl (by norm_num)

theorem IsScale.normSq_mul_le (hk : IsScale k) (hv : v.isFinite = true) :
    (v * k).normSq ≤ v.normSq * value k ^ 2 * (1 + 1 / 2 ^ 24) ^ 3 + 1 / 2 ^ 250 := by
  obtain ⟨hx, hy⟩ := isFinite_iff.mp hv
  have hlex := (hk.mul_bounds hx).2.2
  have hley := (hk.mul_bounds hy).2.2
  change value (v.x * k) ^ 2 + value (v.y * k) ^ 2 ≤ (value v.x ^ 2 + value v.y ^ 2) * _ * _ + _
  linarith

theorem IsScale.isFinite_length_mul (hk : IsScale k) (h : v.length.isFinite = true) :
    (v * k).length.isFinite = true := by
  obtain ⟨hx, hy⟩ := isFinite_iff.mp (isFinite_of_length h)
  obtain ⟨hfinitex, hlex, -⟩ := hk.mul_bounds hx
  obtain ⟨hfinitey, hley, -⟩ := hk.mul_bounds hy
  have hsum : (v * k).lengthSquared.isFinite = true :=
    isFinite_lengthSquared_of_le (isFinite_iff.mpr ⟨hfinitex, hfinitey⟩) hlex hley
      (isFinite_of_sqrt h)
  exact (sqrt_bounds hsum (lengthSquared_bounds hsum).1).1

/-- **The quotient of a limit and a length above it** is a factor from zero to one. -/
theorem isScale_div (hlimit : limit.isFinite = true) (hnonneg : 0 ≤ value limit)
    (h : v.length.isFinite = true) (hlt : value limit < value v.length) :
    IsScale (limit / v.length) ∧
      value (limit / v.length) * value v.length ≤ value limit * (1 + 1 / 2 ^ 24) + 1 / 2 ^ 85 := by
  obtain ⟨-, hlength, -, -⟩ := length_bounds h
  have hpos : 0 < value v.length := hnonneg.trans_lt hlt
  have hrounds := roundsTo_div hlimit h hpos.ne'
  have hquotient : 0 ≤ value limit / value v.length := div_nonneg hnonneg hpos.le
  -- the exact quotient is below one, and one is a number
  have hle : |value limit / value v.length| ≤ |value (1 : Float32)| := by
    rw [value_one, abs_one, abs_of_nonneg hquotient, div_le_one hpos]
    exact hlt.le
  obtain ⟨hfinite, hleone⟩ := hrounds.abs_value_le (roundsTo_value rfl) rfl hle
  rw [value_one, abs_one] at hleone
  refine ⟨⟨hfinite, hrounds.value_nonneg hfinite hquotient, (le_abs_self _).trans hleone⟩, ?_⟩
  have hhigh := (hrounds.bounds hfinite hquotient).2
  -- multiplied back, the absolute error counts as often as the length is long
  calc value (limit / v.length) * value v.length
      ≤ (value limit / value v.length * (1 + 1 / 2 ^ 24) + 1 / 2 ^ 150) * value v.length :=
        mul_le_mul_of_nonneg_right hhigh hpos.le
    _ = value limit * (1 + 1 / 2 ^ 24) + 1 / 2 ^ 150 * value v.length := by
        field_simp
    _ ≤ value limit * (1 + 1 / 2 ^ 24) + 1 / 2 ^ 85 := by linarith

/-- **The errors together,** in squares: of the length before, of the factor, of the coordinates and
of the length afterwards. -/
theorem limited_le {m l k s s' l' : ℚ} (hm : 0 ≤ m) (hk : 0 ≤ k) (hone : k ≤ 1)
    (hs : s * (1 - 1 / 2 ^ 24) ^ 2 ≤ (l * (1 + 1 / 2 ^ 24)) ^ 2 + 1 / 2 ^ 148) (hl : 0 ≤ l)
    (hkl : k * l ≤ m * (1 + 1 / 2 ^ 24) + 1 / 2 ^ 85)
    (hs' : s' ≤ s * k ^ 2 * (1 + 1 / 2 ^ 24) ^ 3 + 1 / 2 ^ 250)
    (hl' : (l' * (1 - 1 / 2 ^ 24)) ^ 2 ≤ s' * (1 + 1 / 2 ^ 24) ^ 2 + 1 / 2 ^ 148) :
    l' ≤ m * (1 + 1 / 2 ^ 21) + 1 / 2 ^ 70 := by
  -- what the scaled vector should have had for the square of its length
  have hscaled : s * k ^ 2 * (1 - 1 / 2 ^ 24) ^ 2 ≤ (k * l) ^ 2 * (1 + 1 / 2 ^ 24) ^ 2 +
      1 / 2 ^ 148 := by
    have hmul := mul_le_mul_of_nonneg_right hs (sq_nonneg k)
    have hsq : k ^ 2 ≤ 1 := pow_le_one₀ hk hone
    linarith
  have hlimit : (k * l) ^ 2 ≤ (m * (1 + 1 / 2 ^ 24)) ^ 2 * (1 + 1 / 2 ^ 24) +
      (1 / 2 ^ 85) ^ 2 * (1 + 1 / (1 / 2 ^ 24)) :=
    (pow_le_pow_left₀ (mul_nonneg hk hl) hkl 2).trans (add_sq_le_of_pos _ _ (by norm_num))
  -- ten factors above one and four below it, which is less than fifteen parts
  have hsquare : l' ^ 2 ≤ m ^ 2 * (1 + 15 / 2 ^ 24) + 1 / 2 ^ 142 := by
    linarith [sq_nonneg m]
  have hproduct : 0 ≤ 2 * (m * (1 + 1 / 2 ^ 21)) * (1 / 2 ^ 70) := by positivity
  refine le_of_sq_le_sq ?_ (by positivity)
  calc l' ^ 2 ≤ m ^ 2 * (1 + 15 / 2 ^ 24) + 1 / 2 ^ 142 := hsquare
    _ ≤ (m * (1 + 1 / 2 ^ 21)) ^ 2 + (1 / 2 ^ 70) ^ 2 := by linarith [sq_nonneg m]
    _ ≤ (m * (1 + 1 / 2 ^ 21) + 1 / 2 ^ 70) ^ 2 := by
        rw [add_sq]
        linarith

/-! ### Limiting the length -/

/-- **A vector limited in its length,** up to the rounding errors. -/
structure IsLimited (v w : Vector2) (limit : Float32) : Prop where
  /-- The length is finite. -/
  finite : w.length.isFinite = true
  /-- It is at most the limit, but for eight parts in `2 ^ 24` and next to nothing. -/
  le : value w.length ≤ value limit * (1 + 1 / 2 ^ 21) + 1 / 2 ^ 70
  /-- A vector that was within the limit is the same. -/
  kept : v.length ≤ limit → w = v
  /-- One that was too long for a finite length is zero. -/
  lost : v.length.isFinite = false → IsZero w.length

theorem clampLength_eq_self (h : v.length ≤ limit) : v.clampLength limit = v := by
  have hlong : decide (v.length > limit) = false := decide_eq_false (not_lt_of_le h)
  unfold clampLength
  simp only [hlong, Bool.false_and, Bool.false_eq_true, if_false]

/-- **The vector scaled to a limit,** as far as rounding lets it be. -/
def scaledTo (v : Vector2) (limit : Float32) : Vector2 :=
  v * (limit / v.length)

theorem clampLength_eq_scaledTo (hnonneg : 0 ≤ limit) (hlong : limit < v.length) :
    v.clampLength limit = v.scaledTo limit := by
  have hpos : 0 < v.length := single_lt_of_le_of_lt hnonneg hlong
  unfold clampLength
  simp only [gt_iff_lt, hlong, hpos, decide_true, Bool.and_self, if_true]
  rfl

theorem isZero_div_infinity (hlimit : limit.isFinite = true)
    (h : k.toModel.unpack = .infinity .positive) : IsZero (limit / k) := by
  have hdiv := unpack_div limit k
  -- the library treats zeros and other finite dividends apart, with the same outcome
  obtain ⟨s, hu⟩ | ⟨s, m, e, hm, hu⟩ := unpack_cases_of_isFinite hlimit
  · rw [hu, h] at hdiv
    exact ⟨_, hdiv.trans unpack_pack_zero⟩
  · rw [hu, h] at hdiv
    exact ⟨_, hdiv.trans unpack_pack_zero⟩

theorem isZero_length (hx : IsZero v.x) (hy : IsZero v.y) : IsZero v.length := by
  have hsum : v.lengthSquared.toModel.unpack = .zero .positive := by
    unfold lengthSquared dot
    rw [unpack_add, hx.mul_self, hy.mul_self]
    rfl
  refine ⟨.positive, ?_⟩
  unfold length
  rw [unpack_sqrt, hsum]
  rfl

theorem isLimited_clampLength (hv : v.isFinite = true) (hlimit : limit.isFinite = true)
    (hnonneg : 0 ≤ limit) : IsLimited v (v.clampLength limit) limit := by
  have hvalue : 0 ≤ value limit := by
    have hle := (le_iff_value_le rfl hlimit).mp hnonneg
    rwa [value_zero] at hle
  obtain hlength | hinfinite := length_cases hv
  · have hshort : ¬ v.length.isFinite = false := by
      rw [hlength]
      exact nofun
    -- a vector that is short enough is not touched
    by_cases hle : v.length ≤ limit
    · rw [clampLength_eq_self hle]
      refine ⟨hlength, ?_, fun _ => rfl, fun h => absurd h hshort⟩
      have hbound := (le_iff_value_le hlength hlimit).mp hle
      linarith
    · -- the vector is scaled down, and loses or gains a little at every step
      have hlong := lt_length hv hlimit hle
      rw [clampLength_eq_scaledTo hnonneg hlong]
      obtain ⟨hscale, hproduct⟩ :=
        isScale_div hlimit hvalue hlength ((lt_iff_value_lt hlimit hlength).mp hlong)
      have hscaled := hscale.isFinite_length_mul hlength
      obtain ⟨hpos, -, hbefore, -⟩ := length_bounds hlength
      obtain ⟨-, -, -, hafter⟩ := length_bounds hscaled
      refine ⟨hscaled, ?_, fun h => absurd h hle, fun h => absurd h hshort⟩
      exact limited_le hvalue hscale.nonneg hscale.le_one hbefore hpos hproduct
        (hscale.normSq_mul_le hv) hafter
  · -- an infinite length brings the vector down to zero
    have hlong := Holds.lt_infinity hlimit hinfinite
    have hscale := isZero_div_infinity hlimit hinfinite
    obtain ⟨hx, hy⟩ := isFinite_iff.mp hv
    rw [clampLength_eq_scaledTo hnonneg hlong]
    have hzero : IsZero (v.scaledTo limit).length :=
      isZero_length (isZero_mul hx hscale) (isZero_mul hy hscale)
    refine ⟨hzero.isFinite, ?_, fun h => absurd hlong (not_lt_of_le h), fun _ => hzero⟩
    rw [hzero.value_eq]
    positivity

theorem length_clampLength_le_iff (hv : v.isFinite = true) (hlimit : limit.isFinite = true)
    (hnonneg : 0 ≤ limit) :
    (v.clampLength limit).length ≤ limit ↔
      v.length ≤ limit ∨ (v.scaledTo limit).length ≤ limit := by
  by_cases hle : v.length ≤ limit
  · rw [clampLength_eq_self hle]
    exact iff_of_true hle (.inl hle)
  · rw [clampLength_eq_scaledTo hnonneg (lt_length hv hlimit hle), or_iff_right hle]

theorem length_notANumber
    (h : v.x.toModel.unpack = .notANumber ∨ v.y.toModel.unpack = .notANumber) :
    v.length.toModel.unpack = .notANumber := by
  have hmul : ∀ {x : Float32}, x.toModel.unpack = .notANumber →
      (x * x).toModel.unpack = .notANumber := by
    intro x hx
    rw [unpack_mul, hx]
    exact unpack_pack_notANumber
  have hsum : v.lengthSquared.toModel.unpack = .notANumber := by
    unfold lengthSquared dot
    rw [unpack_add]
    obtain hx | hy := h
    · rw [hmul hx]
      exact unpack_pack_notANumber
    · rw [hmul hy]
      -- the other summand may be anything
      cases (v.x * v.x).toModel.unpack <;> exact unpack_pack_notANumber
  unfold length
  rw [unpack_sqrt, hsum]
  rfl

theorem mul_isZero_notANumber {x : Float32} (hx : x.isFinite = false) (hk : IsZero k) :
    (x * k).toModel.unpack = .notANumber := by
  obtain ⟨t, hk⟩ := hk
  change x.toModel.unpack.isFinite = false at hx
  rw [unpack_mul, hk]
  cases hu : x.toModel.unpack with
  | notANumber | infinity s => exact unpack_pack_notANumber
  | zero s | finite s =>
    rw [hu] at hx
    cases hx

theorem isNaN_length_clampLength (hv : v.isFinite = false) (hlimit : limit.isFinite = true)
    (hnonneg : 0 ≤ limit) : (v.clampLength limit).length.isNaN = true := by
  cases hnan : v.length.isNaN with
  | true =>
    -- no limit is below what is no number
    have hshort : ¬ limit < v.length := by
      intro hlong
      rw [isNaN_of_le (single_le_of_lt hlong)] at hnan
      cases hnan
    have hsame : v.clampLength limit = v := by
      unfold clampLength
      simp only [gt_iff_lt, hshort, decide_false, Bool.false_and, Bool.false_eq_true, if_false]
    rw [hsame, hnan]
  | false =>
    obtain hlength | hinfinite := isFinite_or_infinity ((unsigned_length v).zero_le hnan)
    · rw [isFinite_of_length hlength] at hv
      cases hv
    · -- an infinite coordinate is multiplied by zero
      have hscale := isZero_div_infinity hlimit hinfinite
      rw [clampLength_eq_scaledTo hnonneg (Holds.lt_infinity hlimit hinfinite)]
      refine isNaN_iff.mpr (length_notANumber ?_)
      obtain hx | hy := Bool.and_eq_false_iff.mp hv
      · exact .inl (mul_isZero_notANumber hx hscale)
      · exact .inr (mul_isZero_notANumber hy hscale)

end Skirmish.Vector2

/-! ## Motion in no time

A duration that is below zero, infinite or no number counts as no time at all, and in no time
nothing turns, gains speed, moves or slows down.

* `IsUntimely` — such durations, with `usableTime_of_isUntimely`;
* `turn_beq` — a turn by nothing, after which the angle is wrapped once more;
* `thrust_beq` — a push by nothing, after which the speed is limited once more;
* `advance_beq` — a step by nothing;
* `drag_eq` — a factor to the power zero.

All of this is up to the signs of zeros. An angle has to be wrapped before, and a speed within its
limit, or else even no time would change them.
-/

namespace Skirmish

open Numeric (IsZero)

/-! ### Zeros -/

namespace Numeric

open Float.Model

variable {x low high step : Float32}

theorem IsZero.wrapAngle (h : IsZero x) : IsZero (wrapAngle x) := by
  obtain rfl | rfl := h.eq_or
  · exact ⟨.positive, by rfl⟩
  · exact ⟨.negative, by rfl⟩

/-- **Limited to what lies between zeros,** a number is a zero. -/
theorem isZero_of_clamp? (hx : x.isNaN = false) (hlow : IsZero low) (hhigh : IsZero high)
    (h : clamp? x low high = some step) : IsZero step := by
  unfold clamp? at h
  -- a range in disorder has no result
  split at h
  · obtain rfl := Option.some.inj h
    split
    · exact hlow
    · next hge =>
      split
      · exact hhigh
      · next hle =>
        -- it is neither below the lower zero nor above the upper one
        obtain ⟨s, hlow⟩ := hlow
        obtain ⟨t, hhigh⟩ := hhigh
        rw [lt_iff, hlow] at hge
        change ¬ high < x at hle
        rw [lt_iff, hhigh] at hle
        cases hu : x.toModel.unpack with
        | notANumber =>
          change x.toModel.unpack.isNaN = false at hx
          rw [hu] at hx
          cases hx
        | zero u => exact ⟨u, hu⟩
        | infinity u | finite u =>
          rw [hu] at hge hle
          cases u with
          | positive => exact absurd rfl hle
          | negative => exact absurd rfl hge
  · cases h

theorem isFinite_greater_zero (h : x.isFinite = true) : (greater x 0).isFinite = true := by
  rw [greater_zero]
  split
  · exact h
  · rfl

end Numeric

/-- **An angle that is wrapped already** is finite, for any other is wrapped to zero. -/
theorem isFinite_of_wrapAngle_beq {angle : Float32} (h : (wrapAngle angle == angle) = true) :
    angle.isFinite = true := by
  by_contra hne
  rw [wrapAngle, if_neg hne] at h
  obtain rfl | ⟨-, hzero⟩ := Numeric.eq_or_isZero_of_beq h
  · exact hne rfl
  · exact hne hzero.isFinite

/-! ### Vectors -/

namespace Vector2

variable {v w d : Vector2} {k : Float32}

theorem beq_iff : (v == w) = true ↔ (v.x == w.x) = true ∧ (v.y == w.y) = true :=
  Bool.and_eq_true_iff

theorem beq_self (h : v.isFinite = true) : (v == v) = true := by
  obtain ⟨hx, hy⟩ := isFinite_iff.mp h
  exact beq_iff.mpr ⟨Numeric.beq_self (Numeric.isNaN_of_isFinite hx),
    Numeric.beq_self (Numeric.isNaN_of_isFinite hy)⟩

theorem isFinite_of_beq (h : (v == w) = true) (hw : w.isFinite = true) : v.isFinite = true := by
  obtain ⟨hx, hy⟩ := beq_iff.mp h
  obtain ⟨hwx, hwy⟩ := isFinite_iff.mp hw
  exact isFinite_iff.mpr ⟨Numeric.isFinite_of_beq hx hwx, Numeric.isFinite_of_beq hy hwy⟩

theorem length_eq_of_beq (h : (v == w) = true) : v.length = w.length := by
  obtain ⟨hx, hy⟩ := beq_iff.mp h
  rw [length, length, lengthSquared, lengthSquared, dot, dot, Numeric.mul_self_eq_of_beq hx,
    Numeric.mul_self_eq_of_beq hy]

/-- **A displacement by nothing,** that is one of no length in some direction. -/
theorem add_mul_beq (hv : v.isFinite = true) (hd : d.isFinite = true) (hk : IsZero k) :
    (v + d * k == v) = true := by
  obtain ⟨hvx, hvy⟩ := isFinite_iff.mp hv
  obtain ⟨hdx, hdy⟩ := isFinite_iff.mp hd
  exact beq_iff.mpr ⟨Numeric.add_beq_of_isZero hvx (Numeric.isZero_mul hdx hk),
    Numeric.add_beq_of_isZero hvy (Numeric.isZero_mul hdy hk)⟩

theorem mul_one (hv : v.isFinite = true) : v * (1 : Float32) = v := by
  obtain ⟨hx, hy⟩ := isFinite_iff.mp hv
  have hparts : v * (1 : Float32) = ⟨v.x * 1, v.y * 1⟩ := rfl
  rw [hparts, Numeric.mul_one_of_isFinite hx, Numeric.mul_one_of_isFinite hy]

end Vector2

/-! ### Motion -/

namespace Motion

/-- **Durations that no frame has:** below zero, infinite or no number. -/
def IsUntimely (dt : Float32) : Prop :=
  dt < 0 ∨ dt.isNaN = true ∨ dt.isInf = true

variable {dt angle bearing speed acceleration limit factor hz : Float32} {turn : Turn}
  {position velocity : Vector2}

theorem IsUntimely.not_pos (h : IsUntimely dt) (hfinite : dt.isFinite = true) : ¬ 0 < dt := by
  obtain hneg | hnan | hinf := h
  · exact Numeric.not_lt_of_lt hneg
  · rw [Numeric.isNaN_of_isFinite hfinite] at hnan
    cases hnan
  · rw [Numeric.isInf_of_isFinite hfinite] at hinf
    cases hinf

theorem usableTime_of_isUntimely (h : IsUntimely dt) : usableTime dt = 0 := by
  unfold usableTime
  split
  · next hfinite => rw [Numeric.greater_zero, if_neg (h.not_pos hfinite)]
  · rfl

section

variable (htime : usableTime dt = 0)
include htime

theorem turn_beq (hspeed : speed.isFinite = true) (hangle : (wrapAngle angle == angle) = true)
    (h : turnToward angle bearing speed dt = some turn) : (turn.angle == angle) = true := by
  unfold turnToward at h
  obtain ⟨step, hstep, rfl⟩ := Option.map_eq_some_iff.mp h
  -- the speed may be of any size, for no time is left to use it
  have hlimit : IsZero (Numeric.greater speed 0 * usableTime dt) := by
    rw [htime]
    exact Numeric.isZero_mul (Numeric.isFinite_greater_zero hspeed) Numeric.isZero_zero
  have hzero : IsZero step :=
    Numeric.isZero_of_clamp? (isNaN_wrapAngle _) hlimit.neg hlimit hstep
  have hfinite := isFinite_of_wrapAngle_beq hangle
  change (wrapAngle (angle + step) == angle) = true
  -- the sum may be a zero of the other sign, which wrapping turns to a zero again
  obtain hsame | ⟨hsum, hold⟩ :=
    Numeric.eq_or_isZero_of_beq (Numeric.add_beq_of_isZero hfinite hzero)
  · rw [hsame]
    exact hangle
  · exact hsum.wrapAngle.beq hold

theorem thrust_beq (hvelocity : velocity.isFinite = true) (hangle : angle.isFinite = true)
    (hacceleration : acceleration.isFinite = true) (hlimit : 0 < limit)
    (hspeed : velocity.length ≤ limit) :
    (thrust velocity angle acceleration limit dt == velocity) = true := by
  have hzero : IsZero (acceleration * usableTime dt) := by
    rw [htime]
    exact Numeric.isZero_mul hacceleration Numeric.isZero_zero
  have hsame := Vector2.add_mul_beq hvelocity (isFinite_ofAngle hangle) hzero
  unfold thrust
  -- the limit is positive, and the speed is kept within it
  rw [Numeric.greater_zero, if_pos hlimit, Vector2.clampLength_eq_self]
  · exact hsame
  · rw [Vector2.length_eq_of_beq hsame]
    exact hspeed

theorem advance_beq (hposition : position.isFinite = true) (hvelocity : velocity.isFinite = true) :
    (advance position velocity dt == position) = true := by
  unfold advance
  rw [htime]
  exact Vector2.add_mul_beq hposition hvelocity Numeric.isZero_zero

theorem drag_eq (hvelocity : velocity.isFinite = true) (hhz : hz.isFinite = true) :
    drag velocity factor hz dt = velocity := by
  -- no case of the power is looked at before an exponent of zero
  have hpower : Numeric.power factor (usableTime dt * hz) = 1 := by
    have hzero : IsZero (usableTime dt * hz) := by
      rw [htime]
      exact Numeric.isZero_mul_left Numeric.isZero_zero hhz
    unfold Numeric.power
    rw [hzero.beq Numeric.isZero_zero]
    rfl
  unfold drag
  rw [hpower, Vector2.mul_one hvelocity]

end

end Motion

end Skirmish
