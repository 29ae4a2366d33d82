import Skirmish.Proofs.Geometry.Angles
import Skirmish.Proofs.Numeric.Arithmetic
import Skirmish.Random.Replay

/-!
# Draws

What one word is turned into, for every source of words:

* `value_unitOfHalf` — a number from the unit interval is exact;
* `forall_drawBetween_iff` — a number from a range is in the range, its upper end included or not;
* `units_and_angles_of_bits` — units and directions are in the order of the bits that count.
-/

/-! ## Draws from the unit interval

The upper 24 of the low 32 bits of a word are an integer that single precision keeps, and so is that
integer divided by `2 ^ 24`.

* `value_toFloat32` — integers of at most 24 bits are kept;
* `value_unitOfHalf` — the number drawn is exactly the integer divided by `2 ^ 24`;
* `value_unitOfHalf_le` — so it is at most the number drawn from the largest word, which is below
  one.
-/

namespace Skirmish.Random

open Numeric
open Float.Model
open Float.Model.UnpackedFloat

theorem value_toFloat32 {n : UInt32} (hn : n.toNat ≤ 2 ^ 24) :
    n.toFloat32.isFinite = true ∧ value n.toFloat32 = n.toNat := by
  have hunpack : n.toFloat32.toModel.unpack =
      unpack .binary32 ((normalize .binary32 (n.toNat : ℤ) 0 .positive).pack .binary32) := rfl
  have hrounds := roundsTo_normalize hunpack
  rw [zpow_zero, mul_one, Int.cast_natCast] at hrounds
  have hcast : (n.toNat : ℚ) ≤ 2 ^ 24 := by exact_mod_cast hn
  -- an integer that short lies on the grid, and rounding leaves the grid alone
  have hgrid : OnGrid (n.toNat : ℚ) :=
    ⟨.positive, n.toNat, 0, hn, by norm_num, by simp [withSign, size]⟩
  refine hrounds.exact hgrid ?_
  rw [abs_of_nonneg (Nat.cast_nonneg _)]
  exact hcast.trans_lt (by norm_num)

theorem value_steps : value 16777216 = 2 ^ 24 := by
  have hunpack : (16777216 : Float32).toModel.unpack =
      .finite .positive (2 ^ 23) 1 (by decide) := by rfl
  rw [value_of_finite hunpack]
  norm_num [withSign, size]

theorem shiftRight_lt (half : UInt32) : (half >>> 8).toNat < 2 ^ 24 := by
  rw [UInt32.toNat_shiftRight, Nat.shiftRight_eq_div_pow]
  have hlt := half.toNat_lt
  change half.toNat / 2 ^ 8 < 2 ^ 24
  omega

theorem value_unitOfHalf (half : UInt32) :
    (unitOfHalf half).isFinite = true ∧ value (unitOfHalf half) = (half >>> 8).toNat / 2 ^ 24 := by
  have hlt := shiftRight_lt half
  obtain ⟨hfinite, hvalue⟩ := value_toFloat32 hlt.le
  have hrounds : RoundsTo (value (half >>> 8).toFloat32 / value 16777216) (unitOfHalf half) :=
    roundsTo_div hfinite rfl (by rw [value_steps]; norm_num)
  rw [hvalue, value_steps] at hrounds
  -- a division by a power of two only moves the exponent
  have hgrid : OnGrid ((half >>> 8).toNat / 2 ^ 24 : ℚ) :=
    ⟨.positive, (half >>> 8).toNat, -24, hlt.le, by norm_num,
      by norm_num [withSign, size, div_eq_mul_inv]⟩
  have hone : ((half >>> 8).toNat / 2 ^ 24 : ℚ) ≤ 1 := by
    rw [div_le_one (by norm_num)]
    exact_mod_cast hlt.le
  refine hrounds.exact hgrid ?_
  rw [abs_of_nonneg (by positivity)]
  exact hone.trans_lt (by norm_num)

theorem isFinite_unitOfHalf (half : UInt32) : (unitOfHalf half).isFinite = true :=
  (value_unitOfHalf half).1

theorem value_unitOfHalf_nonneg (half : UInt32) : 0 ≤ value (unitOfHalf half) := by
  rw [(value_unitOfHalf half).2]
  positivity

def topHalf : UInt32 := 0xffffffff

theorem value_unitOfHalf_topHalf : value (unitOfHalf topHalf) = 1 - 1 / 2 ^ 24 := by
  have hbits : (topHalf >>> 8).toNat = 2 ^ 24 - 1 := by rfl
  rw [(value_unitOfHalf topHalf).2, hbits]
  norm_num

theorem value_unitOfHalf_le (half : UInt32) :
    value (unitOfHalf half) ≤ value (unitOfHalf topHalf) := by
  rw [(value_unitOfHalf half).2, value_unitOfHalf_topHalf, div_le_iff₀ (by norm_num)]
  have hle : (((half >>> 8).toNat : ℕ) : ℚ) ≤ (2 ^ 24 - 1 : ℕ) := by
    exact_mod_cast Nat.le_sub_one_of_lt (shiftRight_lt half)
  exact hle.trans (by norm_num)

end Skirmish.Random

/-! ## Draws from a range

A draw from a range adds a part of the range's width to its lower end. Width, part and sum are
rounded, one after the other.

* `IsRange` — finite ends in order, whose difference is a number;
* `IsRange.part_le` — the part is at most the exact width, although the width was rounded before;
* `IsRange.le_stretch` and `IsRange.stretch_le` — so a draw is never outside the range, ends
  included;
* `IsRange.stretch_le_stretch` — the largest word gives the largest draw;
* `not_isFinite_stretch` — if the width is too large for a number, so is every draw;
* `forall_drawBetween_iff` — no draw is at the upper end if that one is not, and only then.

Whether the upper end is left out is not a matter of the range's size alone. It is drawn from the
range between one and the next number after it, and from the one between 300 and 500, but not from
the one between 200 and 500.
-/

namespace Skirmish.Random

open Numeric
open Float.Model
open Float.Model.UnpackedFloat

/-- **The number drawn from a range** for half a word. -/
def stretch (low high : Float32) (half : UInt32) : Float32 :=
  low + (high - low) * unitOfHalf half

theorem drawBetween_eq {σ : Type} [WordSource σ] {low high : Float32} (h : low < high) (s : σ) :
    (drawBetween low high s).1 = stretch low high (drawHalf s).1 := by
  unfold drawBetween
  rw [if_neg fun hle => not_lt_of_le hle h]
  rfl

/-! ### Parts of a width -/

section Parts

variable {width : Float32}

theorem part_bounds (hfinite : width.isFinite = true) (hnonneg : 0 ≤ value width) (half : UInt32) :
    (width * unitOfHalf half).isFinite = true ∧ 0 ≤ value (width * unitOfHalf half) ∧
      value (width * unitOfHalf half) ≤ value width := by
  have hunit := isFinite_unitOfHalf half
  -- a factor of at most one, on which rounding cannot go beyond the width
  have hone : |value (unitOfHalf half)| ≤ 1 := by
    rw [abs_of_nonneg (value_unitOfHalf_nonneg half)]
    exact ((value_unitOfHalf_le half).trans_eq value_unitOfHalf_topHalf).trans (by norm_num)
  obtain ⟨hpart, hle⟩ := abs_value_mul_le hfinite hunit hone
  rw [abs_of_nonneg hnonneg] at hle
  refine ⟨hpart, ?_, (le_abs_self _).trans hle⟩
  exact (roundsTo_mul hfinite hunit).value_nonneg hpart
    (mul_nonneg hnonneg (value_unitOfHalf_nonneg half))

theorem part_le_part (hfinite : width.isFinite = true) (hnonneg : 0 ≤ value width) (half : UInt32) :
    value (width * unitOfHalf half) ≤ value (width * unitOfHalf topHalf) := by
  refine (roundsTo_mul hfinite (isFinite_unitOfHalf half)).value_le_value
    (roundsTo_mul hfinite (isFinite_unitOfHalf topHalf)) (part_bounds hfinite hnonneg half).1
    (part_bounds hfinite hnonneg topHalf).1 ?_
  exact mul_le_mul_of_nonneg_left (value_unitOfHalf_le half) hnonneg

/-- **A part is smaller than the width,** unless the width is very small. -/
theorem part_lt (hfinite : width.isFinite = true) (hlarge : 1 / 2 ^ 125 ≤ value width)
    (half : UInt32) : value (width * unitOfHalf half) < value width := by
  have hwidth : 0 < value width := lt_of_lt_of_le (by positivity) hlarge
  have hpart := (part_bounds hfinite hwidth.le half).1
  have hrounded := (roundsTo_mul hfinite (isFinite_unitOfHalf half)).isRounded hpart
  have hnonneg : 0 ≤ value width * value (unitOfHalf half) :=
    mul_nonneg hwidth.le (value_unitOfHalf_nonneg half)
  have hle : value width * value (unitOfHalf half) ≤ value width * (1 - 1 / 2 ^ 24) :=
    mul_le_mul_of_nonneg_left
      ((value_unitOfHalf_le half).trans_eq value_unitOfHalf_topHalf) hwidth.le
  -- below the numbers with all their bits, errors are not relative any more
  by_cases hnormal : 1 / 2 ^ 126 ≤ value width * value (unitOfHalf half)
  · -- the part was one step below the width, and rounding makes up for less than that
    have herror := hrounded.error_le_of_le (by rwa [abs_of_nonneg hnonneg])
    rw [abs_of_nonneg hnonneg] at herror
    have hhigh := (abs_le.mp herror).2
    calc value (width * unitOfHalf half)
        ≤ value width * value (unitOfHalf half) * (1 + 1 / 2 ^ 24) := by linarith
      _ ≤ value width * (1 - 1 / 2 ^ 24) * (1 + 1 / 2 ^ 24) :=
          mul_le_mul_of_nonneg_right hle (by norm_num)
      _ < value width := by
          have : value width * (1 - 1 / 2 ^ 24) * (1 + 1 / 2 ^ 24) =
              value width - value width * (1 / 2 ^ 48) := by ring
          rw [this]
          linarith [mul_pos hwidth (show (0 : ℚ) < 1 / 2 ^ 48 by norm_num)]
  · -- the part stays below the smallest number with all its bits
    calc value (width * unitOfHalf half) ≤ 1 / 2 ^ 126 :=
          hrounded.mono (.self (onGrid_one_div (by norm_num))) (not_le.mp hnormal).le
      _ < 1 / 2 ^ 125 := by norm_num
      _ ≤ value width := hlarge

end Parts

/-! ### Draws from a range with a width -/

section Stretch

variable {low high : Float32}

/-- **A range with a width:** finite ends, in order, that are not too far apart. -/
structure IsRange (low high : Float32) : Prop where
  /-- The lower end is finite. -/
  lower : low.isFinite = true
  /-- So is the upper end. -/
  upper : high.isFinite = true
  /-- They are in order. -/
  ordered : low ≤ high
  /-- Their difference is not too large for a number. -/
  width : (high - low).isFinite = true

namespace IsRange

theorem exact_nonneg (h : IsRange low high) : 0 ≤ value high - value low :=
  sub_nonneg.mpr ((le_iff_value_le h.lower h.upper).mp h.ordered)

theorem width_nonneg (h : IsRange low high) : 0 ≤ value (high - low) :=
  (roundsTo_sub h.upper h.lower).value_nonneg h.width h.exact_nonneg

/-- **A part is at most the exact width.** If it were more, the width would have been rounded to the
part at most. But the part is smaller than what the width was rounded to. -/
theorem part_le (h : IsRange low high) (half : UInt32) :
    value ((high - low) * unitOfHalf half) ≤ value high - value low := by
  have hrounds := roundsTo_sub h.upper h.lower
  obtain ⟨hpart, -, hle⟩ := part_bounds h.width h.width_nonneg half
  -- the bound on parts needs a width that is not too small
  by_cases hsmall : |value high - value low| ≤ 1 / 2 ^ 125
  · -- a very small width is exact
    rwa [hrounds.value_eq (onGrid_sub h.upper h.lower hsmall) h.width] at hle
  · rw [not_le, abs_of_nonneg h.exact_nonneg] at hsmall
    by_contra hgt
    have hge : value (high - low) ≤ value ((high - low) * unitOfHalf half) :=
      hrounds.value_le_value (roundsTo_value hpart) h.width hpart (not_le.mp hgt).le
    have hlarge : 1 / 2 ^ 125 ≤ value (high - low) :=
      (IsRounded.self (onGrid_one_div (by norm_num))).mono (hrounds.isRounded h.width) hsmall.le
    exact absurd hge (not_le.mpr (part_lt h.width hlarge half))

theorem le_stretch (h : IsRange low high) (half : UInt32) : low ≤ stretch low high half := by
  obtain ⟨hpart, hnonneg, -⟩ := part_bounds h.width h.width_nonneg half
  exact (roundsTo_add h.lower hpart).ge_of_value_le h.lower (le_add_of_nonneg_right hnonneg)

theorem stretch_le (h : IsRange low high) (half : UInt32) : stretch low high half ≤ high := by
  obtain ⟨hpart, -, -⟩ := part_bounds h.width h.width_nonneg half
  refine (roundsTo_add h.lower hpart).le_of_le_value h.upper ?_
  linarith [h.part_le half]

theorem stretch_le_stretch (h : IsRange low high) (half : UInt32) :
    stretch low high half ≤ stretch low high topHalf := by
  obtain ⟨hpart, -, -⟩ := part_bounds h.width h.width_nonneg half
  obtain ⟨htop, -, -⟩ := part_bounds h.width h.width_nonneg topHalf
  refine (roundsTo_add h.lower hpart).mono (roundsTo_add h.lower htop) ?_
  exact add_le_add le_rfl (part_le_part h.width h.width_nonneg half)

end IsRange

/-! ### Draws from a range without a width -/

theorem not_isFinite_stretch (hwidth : (high - low).isFinite = false) (half : UInt32) :
    (stretch low high half).isFinite = false := by
  by_contra hfinite
  rw [Bool.not_eq_false] at hfinite
  rw [(isFinite_of_mul (isFinite_of_add hfinite).2).1] at hwidth
  cases hwidth

theorem unpack_stretch_topHalf (hlow : low.isFinite = true) (hhigh : high.isFinite = true)
    (hle : low ≤ high) (hwidth : (high - low).isFinite = false) :
    (stretch low high topHalf).toModel.unpack = .infinity .positive := by
  have hdiff := sub_nonneg.mpr ((le_iff_value_le hlow hhigh).mp hle)
  obtain ⟨q, hq, hholds⟩ := roundsTo_sub hhigh hlow
  have hinfinite : (high - low).toModel.unpack = .infinity .positive := by
    -- the exact width is not negative, so it did not become the other infinity
    cases hholds with
    | finite hfinite => simp [hfinite] at hwidth
    | above hinfinite => exact hinfinite
    | below _ hbelow =>
      have hnonneg : 0 ≤ q := (IsRounded.self onGrid_zero).mono hq hdiff
      linarith [show (0 : ℚ) < 2 ^ 128 by positivity]
  -- an infinity stays one when it is multiplied by a number above zero
  have hpart : ((high - low) * unitOfHalf topHalf).toModel.unpack = .infinity .positive := by
    rw [unpack_mul, hinfinite]
    rfl
  unfold stretch
  rw [unpack_add, hpart]
  obtain ⟨s, hu⟩ | ⟨s, m, e, hm, hu⟩ := unpack_cases_of_isFinite hlow
  · rw [hu]
    exact unpack_pack_infinity
  · rw [hu]
    exact unpack_pack_infinity

end Stretch

/-- **Draws stay below the upper end** of a range if the largest one does, whatever they are drawn
from, and only then. -/
theorem forall_drawBetween_iff {low high : Float32} (hlow : low.isFinite = true)
    (hhigh : high.isFinite = true) (hlt : low < high) :
    (∀ (σ : Type) [WordSource σ] (s : σ),
      low ≤ (drawBetween low high s).1 ∧ (drawBetween low high s).1 < high) ↔
        stretch low high topHalf < high := by
  have hle : low ≤ high := single_le_of_lt hlt
  refine ⟨fun h => ?_, fun h σ _ s => ?_⟩
  · -- a source that begins with the largest word
    have htop := (h Replay (Replay.ofList [0xffffffff])).2
    rwa [drawBetween_eq hlt] at htop
  · rw [drawBetween_eq hlt]
    -- without a width the largest draw says nothing about others, but then it is not below
    cases hwidth : (high - low).isFinite with
    | true =>
      have hrange : IsRange low high := ⟨hlow, hhigh, hle, hwidth⟩
      exact ⟨hrange.le_stretch _, single_lt_of_le_of_lt (hrange.stretch_le_stretch _) h⟩
    | false =>
      -- the largest draw is infinite, and not below anything
      have hinfinite := unpack_stretch_topHalf hlow hhigh hle hwidth
      have hge : high ≤ stretch low high topHalf :=
        Holds.le_infinity (roundsTo_value hhigh).ne_notANumber hinfinite
      exact absurd h (not_lt_of_le hge)

end Skirmish.Random

/-! ## Draws of units and of directions

For a unit or a direction one word is drawn, and 24 bits of it count. The unit is the integer that
these bits spell, divided by `2 ^ 24`, and nothing is rounded on the way. The direction is the
unit's part of a full turn, rounded once.

* `drawnBits` — the bits that count;
* `toNat_shiftRight_toUInt32` — they are what is left of a word that is cut to its low half and
  shifted;
* `value_drawUnit` — the unit is exact;
* `drawUnit_le_drawUnit_iff` — so units are in the order of their bits;
* `drawAngle_bounds` — a direction is from zero up to a full turn, which is left out;
* `drawAngle_le_drawAngle` — directions are in the order of their bits too;
* `units_and_angles_of_bits` — all of this for any two sources of words.

A full turn could be drawn only if a product were rounded up to it. But the largest product is
13176794 of the 13176795 steps that a full turn consists of, and a part of one more that is below a
half. Directions of different bits are not always different: the steps of a number near a full turn
are longer than a full turn divided by `2 ^ 24`.
-/

namespace Skirmish.Random

open Numeric

/-! ### The bits of a word -/

/-- **The bits of a word that count** for a unit: bits 8 to 31, as an integer. -/
def drawnBits (word : UInt64) : ℕ :=
  (word.toBitVec.extractLsb' 8 24).toNat

theorem toNat_shiftRight_toUInt32 (word : UInt64) :
    (word.toUInt32 >>> 8).toNat = drawnBits word := by
  have hbits : drawnBits word = word.toNat / 2 ^ 8 % 2 ^ 24 := by
    rw [drawnBits, BitVec.extractLsb'_toNat, Nat.shiftRight_eq_div_pow, UInt64.toNat_toBitVec]
  have hshifted : (word.toUInt32 >>> 8).toNat = word.toNat % 2 ^ 32 / 2 ^ 8 := by
    rw [UInt32.toNat_shiftRight, Nat.shiftRight_eq_div_pow, UInt64.toNat_toUInt32]
    rfl
  -- the bits below bit 8 fall out of both, and those above bit 31 too
  rw [hbits, hshifted]
  omega

section Draws

variable {σ τ : Type} [WordSource σ] [WordSource τ]

/-! ### Units -/

theorem value_drawUnit (s : σ) :
    (drawUnit s).1.isFinite = true ∧ value (drawUnit s).1 = drawnBits (drawWord s).1 / 2 ^ 24 := by
  rw [← toNat_shiftRight_toUInt32]
  exact value_unitOfHalf (drawHalf s).1

theorem drawUnit_bounds (s : σ) : 0 ≤ (drawUnit s).1 ∧ (drawUnit s).1 < 1 := by
  have hfinite := (value_drawUnit s).1
  constructor
  · rw [le_iff_value_le rfl hfinite, value_zero]
    exact value_unitOfHalf_nonneg (drawHalf s).1
  · -- the largest unit is one less the last step
    rw [lt_iff_value_lt hfinite rfl, value_one]
    calc value (drawUnit s).1 ≤ value (unitOfHalf topHalf) := value_unitOfHalf_le (drawHalf s).1
      _ = 1 - 1 / 2 ^ 24 := value_unitOfHalf_topHalf
      _ < 1 := by norm_num

theorem drawUnit_le_drawUnit_iff (s : σ) (t : τ) :
    (drawUnit s).1 ≤ (drawUnit t).1 ↔ drawnBits (drawWord s).1 ≤ drawnBits (drawWord t).1 := by
  obtain ⟨hs, hsvalue⟩ := value_drawUnit s
  obtain ⟨ht, htvalue⟩ := value_drawUnit t
  rw [le_iff_value_le hs ht, hsvalue, htvalue, div_le_div_iff_of_pos_right (by norm_num),
    Nat.cast_le]

/-! ### Directions -/

theorem roundsTo_drawAngle (s : σ) :
    RoundsTo (drawnBits (drawWord s).1 / 2 ^ 24 * value tau) (drawAngle s).1 := by
  obtain ⟨hfinite, hvalue⟩ := value_drawUnit s
  rw [← hvalue]
  exact roundsTo_mul hfinite isFinite_tau

theorem drawAngle_bounds (s : σ) : 0 ≤ (drawAngle s).1 ∧ (drawAngle s).1 < tau := by
  -- a direction is a part of a width, as in draws from a range, and the width is a full turn
  have hpart : (drawAngle s).1 = tau * unitOfHalf (drawHalf s).1 := mul_comm_single _ _
  have hlarge : 1 / 2 ^ 125 ≤ value tau := by
    rw [value_tau]
    norm_num
  obtain ⟨hfinite, hnonneg, -⟩ :=
    part_bounds isFinite_tau (le_trans (by positivity) hlarge) (drawHalf s).1
  rw [hpart]
  constructor
  · rwa [le_iff_value_le rfl hfinite, value_zero]
  · rw [lt_iff_value_lt hfinite isFinite_tau]
    exact part_lt isFinite_tau hlarge (drawHalf s).1

theorem drawAngle_le_drawAngle {s : σ} {t : τ}
    (h : drawnBits (drawWord s).1 ≤ drawnBits (drawWord t).1) :
    (drawAngle s).1 ≤ (drawAngle t).1 := by
  have htau : 0 ≤ value tau := by linarith [value_tau_eq, value_pi_pos]
  have hcast : (drawnBits (drawWord s).1 : ℚ) ≤ drawnBits (drawWord t).1 := by exact_mod_cast h
  -- the exact products are in order, and rounding may merge them but does not exchange them
  refine (roundsTo_drawAngle s).mono (roundsTo_drawAngle t) ?_
  exact mul_le_mul_of_nonneg_right (div_le_div_of_nonneg_right hcast (by norm_num)) htau

/-! ### Both -/

/-- **Units and directions as functions of bits.** From whatever source, a unit is exactly the
integer of its bits divided by `2 ^ 24`, so it is from zero up to one, which is left out. A
direction is this part of a full turn, rounded once, and it is from zero up to a full turn, which is
left out as well. Either of them takes one word. Units of two sources are in the order of their
bits, and so are directions. -/
theorem units_and_angles_of_bits (s : σ) (t : τ) :
    ((drawUnit s).1.isFinite = true ∧ value (drawUnit s).1 = drawnBits (drawWord s).1 / 2 ^ 24 ∧
      0 ≤ (drawUnit s).1 ∧ (drawUnit s).1 < 1 ∧ (drawUnit s).2 = (drawWord s).2) ∧
    (RoundsTo (drawnBits (drawWord s).1 / 2 ^ 24 * value tau) (drawAngle s).1 ∧
      0 ≤ (drawAngle s).1 ∧ (drawAngle s).1 < tau ∧ (drawAngle s).2 = (drawWord s).2) ∧
    ((drawUnit s).1 ≤ (drawUnit t).1 ↔ drawnBits (drawWord s).1 ≤ drawnBits (drawWord t).1) ∧
    (drawnBits (drawWord s).1 ≤ drawnBits (drawWord t).1 → (drawAngle s).1 ≤ (drawAngle t).1) := by
  obtain ⟨hfinite, hvalue⟩ := value_drawUnit s
  obtain ⟨hnonneg, hone⟩ := drawUnit_bounds s
  obtain ⟨hforward, hturn⟩ := drawAngle_bounds s
  exact ⟨⟨hfinite, hvalue, hnonneg, hone, rfl⟩, ⟨roundsTo_drawAngle s, hforward, hturn, rfl⟩,
    drawUnit_le_drawUnit_iff s t, drawAngle_le_drawAngle⟩

end Draws

/-- The largest direction, drawn from a word that has other bits set too, is below a full turn. The
one before it is not above it. -/
theorem units_and_angles_of_bits_last :
    drawnBits 0x123456fffffeab ≤ drawnBits 0xabcdffffffff ∧
    (drawAngle (Replay.ofList [0x123456fffffeab])).1 ≤
      (drawAngle (Replay.ofList [0xabcdffffffff])).1 ∧
    (drawAngle (Replay.ofList [0xabcdffffffff])).1 < tau := by
  have hle : drawnBits 0x123456fffffeab ≤ drawnBits 0xabcdffffffff := by decide
  -- once for the two sources, and once for the larger one with itself
  obtain ⟨-, -, -, hangles⟩ :=
    units_and_angles_of_bits (Replay.ofList [0x123456fffffeab]) (Replay.ofList [0xabcdffffffff])
  obtain ⟨-, ⟨-, -, hturn, -⟩, -⟩ :=
    units_and_angles_of_bits (Replay.ofList [0xabcdffffffff]) (Replay.ofList [0xabcdffffffff])
  exact ⟨hle, hangles hle, hturn⟩

/-- Different bits may give one direction. -/
example : (drawAngle (Replay.ofList [0xfffffd00])).1 =
    (drawAngle (Replay.ofList [0xfffffe00])).1 := by
  decide +kernel

end Skirmish.Random
