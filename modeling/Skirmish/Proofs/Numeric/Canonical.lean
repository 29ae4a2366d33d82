import Mathlib
import Skirmish.Numeric.Binary

/-!
# Signs, mantissas and exponents

A number is unpacked into a sign, a mantissa and an exponent, and packed again. Some facts about
operations need the sign alone; the rest need the one form in which mantissas and exponents are
kept:

* `neg_mul_le_mul_iff` — when a product is the limit of a range around zero;
* `unpack_pack_of_fits` — what is in that form comes back;
* `single_le_trans` — comparisons are transitive, whatever is compared.
-/

/-! ## Signs

A number is unpacked into an infinity, a zero or a finite number with a size, each with a sign, or
into a NaN, which has none. Operations work on unpacked numbers and pack the result again. That may
change its size, for a large one becomes infinite and a small one zero, but never its sign.

* `HasSign` — unpacked numbers with a given sign;
* `hasSign_unpack_pack` — packing keeps the sign;
* `mul_cases` — the sign of a product, and when there is none;
* `greater_zero` — nothing below zero, and no NaN, gets past a comparison with zero;
* `neg_mul_le_mul_iff` — when a product is the limit of a range around zero.

Whether a number is at least its own opposite is a matter of signs alone (`neg_le_self`), so nothing
here has to know how large a product is.
-/

namespace Skirmish.Numeric

open Float.Model
open Float.Model.UnpackedFloat

/-! ### Unpacked numbers -/

/-- **Unpacked numbers with a sign.** A zero has one, and a NaN has not. -/
def HasSign (s : Sign) : UnpackedFloat → Prop
  | .notANumber => False
  | .infinity t => t = s
  | .zero t => t = s
  | .finite t .. => t = s

section Unpacked

variable {spec : Format} {s t : Sign} {u v : UnpackedFloat}

/-- Packed parts keep their sign, unless they are those of a NaN. -/
theorem hasSign_unpack_packComponents {e : BitVec spec.exponentBits}
    {m : BitVec spec.mantissaBitsWithoutImplicit} (h : e = -1#_ → m = 0#_) :
    HasSign s (unpack spec (packComponents spec s e m)) := by
  unfold UnpackedFloat.unpack
  simp only [unpackMantissa_packComponents, unpackExponent_packComponents,
    unpackSign_packComponents, Sign.ofBitVec_toBitVec]
  by_cases he : e = -1#_
  · -- an infinity
    rw [if_pos he, if_pos (h he)]
    rfl
  · rw [if_neg he]
    split
    · split <;> rfl
    · rfl

theorem hasSign_unpack_pack (h : HasSign s u) : HasSign s (unpack spec (u.pack spec)) := by
  -- by kind; only for a finite number does packing decide anything
  cases u with
  | notANumber => exact h.elim
  | infinity t =>
    obtain rfl : t = s := h
    exact hasSign_unpack_packComponents fun _ => rfl
  | zero t =>
    obtain rfl : t = s := h
    exact hasSign_unpack_packComponents fun _ => rfl
  | finite t m e hm =>
    obtain rfl : t = s := h
    -- the exponent is in range, or the number is packed as an infinity
    have hones : ∀ x, ¬ 2 ^ spec.exponentBits ≤ x + 1 →
        BitVec.ofNat spec.exponentBits x ≠ -1#_ := by
      intro x hx heq
      have htoNat := congrArg BitVec.toNat heq
      rw [BitVec.neg_one_eq_allOnes, BitVec.toNat_allOnes, BitVec.toNat_ofNat,
        Nat.mod_eq_of_lt (by omega)] at htoNat
      omega
    have hbits : 1 < 2 ^ spec.exponentBits := Nat.one_lt_two_pow (Nat.ne_of_gt spec.he)
    unfold UnpackedFloat.pack
    simp only
    split
    · exact hasSign_unpack_packComponents fun _ => rfl
    · next hsmall =>
      split
      · exact hasSign_unpack_packComponents fun he => absurd he (hones _ hsmall)
      · exact hasSign_unpack_packComponents fun he => absurd he (hones 0 (by omega))

theorem hasSign_roundWithAccuracy (m : Nat) (e : Int) (accuracy : Accuracy) :
    HasSign s (roundWithAccuracy spec s m e accuracy) := by
  unfold roundWithAccuracy
  simp only
  split <;> rfl

theorem hasSign_neg (h : HasSign s u) : HasSign (-s) u.neg := by
  cases u with
  | notANumber => exact h.elim
  | infinity t | zero t | finite t =>
    obtain rfl : t = s := h
    rfl

/-- **A minus is never above a plus.** -/
theorem le_of_hasSign (hu : HasSign .negative u) (hv : HasSign .positive v) : u.le v = true := by
  -- the comparison reads the two signs before anything else
  cases u with
  | notANumber => exact hu.elim
  | infinity t | zero t | finite t =>
    obtain rfl : t = .negative := hu
    cases v with
    | notANumber => exact hv.elim
    | infinity t' | zero t' | finite t' =>
      obtain rfl : t' = .positive := hv
      rfl

/-- **Signs of products.** A product has the sign of the product of signs; there is none of an
infinity and a zero. -/
theorem mul_cases (spec : Format) (hu : HasSign s u) (hv : HasSign t v) :
    (u.mul spec v = .notANumber ∧
      (u = .infinity s ∧ v = .zero t ∨ u = .zero s ∧ v = .infinity t)) ∨
    HasSign (s * t) (u.mul spec v) := by
  cases u with
  | notANumber => exact hu.elim
  | infinity s' | zero s' | finite s' =>
    obtain rfl : s' = s := hu
    cases v with
    | notANumber => exact hv.elim
    | infinity t' | zero t' | finite t' =>
      obtain rfl : t' = t := hv
      -- the sign is given by definition, or of two sizes that are rounded, or there is none
      first
      | exact .inr rfl
      | exact .inr (hasSign_roundWithAccuracy _ _ _)
      | simp [UnpackedFloat.mul]

end Unpacked

/-! ### Single precision -/

variable {x y : Float32}

/-- **Numbers that unpack alike** are the same, NaNs included. -/
theorem eq_of_unpack_eq (h : x.toModel.unpack = y.toModel.unpack) : x = y := by
  have hbits : x.toBits.toBitVec = y.toBits.toBitVec :=
    (unpack_inj_of_valid x.toModel.valid y.toModel.valid).mp h
  exact Float32.toBits_inj.mp (UInt32.toBitVec_inj.mp hbits)

theorem lt_iff : x < y ↔ x.toModel.unpack.lt y.toModel.unpack = true :=
  decide_eq_true_iff

theorem le_iff : x ≤ y ↔ x.toModel.unpack.le y.toModel.unpack = true :=
  decide_eq_true_iff

/-- Numbers above zero carry a plus. -/
theorem hasSign_of_pos (h : 0 < x) : HasSign .positive x.toModel.unpack := by
  have hlt : UnpackedFloat.lt (.zero .positive) x.toModel.unpack = true := lt_iff.mp h
  cases hx : x.toModel.unpack with
  | notANumber | zero s =>
    rw [hx] at hlt
    cases hlt
  | infinity s | finite s =>
    rw [hx] at hlt
    cases s with
    | positive => rfl
    | negative => cases hlt

theorem greater_zero (x : Float32) : greater x 0 = if 0 < x then x else 0 := by
  have hzero : (0 : Float32).isNaN = false := rfl
  unfold greater
  rw [hzero]
  by_cases hx : x.isNaN = true
  · -- a NaN is not above zero
    have hnot : ¬ 0 < x := by
      intro hpos
      have hsign := hasSign_of_pos hpos
      have hnan : x.toModel.unpack = .notANumber := isNaN_iff.mp hx
      rw [hnan] at hsign
      exact hsign
    rw [if_pos hx, if_neg hnot]
  · rw [if_neg hx]
    rfl

theorem hasSign_greater_zero (x : Float32) : HasSign .positive (greater x 0).toModel.unpack := by
  rw [greater_zero]
  split
  · next h => exact hasSign_of_pos h
  · rfl

/-- **A number and its opposite.** With a plus, a number is not below its opposite. -/
theorem neg_le_self (h : HasSign .positive x.toModel.unpack) : -x ≤ x :=
  le_iff.mpr (le_of_hasSign (hasSign_unpack_pack (hasSign_neg h)) h)

theorem not_neg_le_self (h : x.toModel.unpack = .notANumber) : ¬ -x ≤ x := by
  intro hle
  rw [le_iff, h] at hle
  cases hu : (-x).toModel.unpack <;>
  · rw [hu] at hle
    cases hle

/-- **A product that is a limit.** Of two numbers with a plus, the second one finite, the product
has a range around zero, unless they are infinity and zero. -/
theorem neg_mul_le_mul_iff (hx : HasSign .positive x.toModel.unpack)
    (hy : HasSign .positive y.toModel.unpack) (hfinite : y.isFinite = true) :
    -(x * y) ≤ x * y ↔ ¬ (x = infinity ∧ y = 0) := by
  refine ⟨?_, ?_⟩
  · rintro hle ⟨rfl, rfl⟩
    exact not_neg_le_self rfl hle
  · intro hne
    -- the product has a sign, a plus, or its factors are an infinity and a zero
    obtain ⟨-, ⟨hinf, hzero⟩ | ⟨-, hinf⟩⟩ | hsign := mul_cases .binary32 hx hy
    · have hx : x = infinity := eq_of_unpack_eq hinf
      have hy : y = 0 := eq_of_unpack_eq hzero
      exact absurd ⟨hx, hy⟩ hne
    · -- the second factor is finite
      change y.toModel.unpack.isFinite = true at hfinite
      rw [hinf] at hfinite
      cases hfinite
    · exact neg_le_self (hasSign_unpack_pack hsign)

end Skirmish.Numeric

/-! ## Mantissas and exponents in range

A finite number is a mantissa times a power of two. Of the many ways to write it so, one is kept:
the mantissa has as many bits as the format allows, or the exponent is the smallest one.

* `Fits` — a mantissa and an exponent of this form;
* `fits_of_unpack` — what is unpacked has it;
* `Fits.le_of_size_le` — of two such forms, the larger number has the larger exponent;
* `pattern` — the number of such a form, counted in the order of values;
* `pack_of_fits` and `unpack_pack_of_fits` — it is packed as its pattern, and unpacked again;
* `unpack_pack_of_overflow` — what is too large becomes an infinity;
* `single_le_trans` — comparisons are transitive, whatever is compared.

So a comparison of forms, exponents first, is one of sizes. Numbers of all kinds are ranked in the
same way by three integers, the first of which tells infinities, zeros and the rest apart.
-/

namespace Skirmish.Numeric

open Float.Model
open Float.Model.UnpackedFloat

/-- The value of a mantissa and an exponent. -/
def size (m : ℕ) (e : ℤ) : ℚ :=
  m * 2 ^ e

/-- **A mantissa and an exponent as they are kept,** for so many bits after the first one and a
smallest exponent. -/
structure Fits (bits : ℕ) (floor : ℤ) (m : ℕ) (e : ℤ) : Prop where
  /-- The mantissa has not too many bits. -/
  short : m < 2 ^ (bits + 1)
  /-- The exponent is not too small. -/
  floor_le : floor ≤ e
  /-- The mantissa has not too few bits, unless the exponent is the smallest one. -/
  full : e = floor ∨ 2 ^ bits ≤ m

section Sizes

variable {bits : ℕ} {floor : ℤ} {m n : ℕ} {e t : ℤ}

theorem size_nonneg (m : ℕ) (e : ℤ) : 0 ≤ size m e := by
  unfold size
  positivity

/-- A larger exponent counts in larger units. -/
theorem size_eq_of_le (m : ℕ) (h : t ≤ e) : size m e = size (m * 2 ^ (e - t).toNat) t := by
  have hsplit : (2 : ℚ) ^ e = 2 ^ (e - t).toNat * 2 ^ t := by
    rw [← zpow_natCast, ← zpow_add₀ (by norm_num), Int.toNat_of_nonneg (by omega),
      Int.sub_add_cancel]
  rw [size, size, hsplit]
  push_cast
  ring

theorem size_pos (hm : 0 < m) (e : ℤ) : 0 < size m e := by
  unfold size
  positivity

theorem two_pow_log2_le_size (hm : 0 < m) (e : ℤ) : 2 ^ (m.log2 + e : ℤ) ≤ size m e := by
  have hlog : ((2 ^ m.log2 : ℕ) : ℚ) ≤ m := by exact_mod_cast Nat.log2_self_le hm.ne'
  rw [zpow_add₀ (by norm_num), size]
  exact mul_le_mul_of_nonneg_right (by exact_mod_cast hlog) (by positivity)

theorem Fits.size_lt (h : Fits bits floor m e) : size m e < 2 ^ (bits + 1 + e : ℤ) := by
  have hm : (m : ℚ) < 2 ^ (bits + 1) := by exact_mod_cast h.short
  rw [zpow_add₀ (by norm_num), size]
  exact mul_lt_mul_of_pos_right (by exact_mod_cast hm) (by positivity)

theorem Fits.le_size (h : Fits bits floor m e) (he : e ≠ floor) :
    2 ^ (bits + e : ℤ) ≤ size m e := by
  have hm : (2 : ℚ) ^ bits ≤ m := by exact_mod_cast h.full.resolve_left he
  rw [zpow_add₀ (by norm_num), size]
  exact mul_le_mul_of_nonneg_right (by exact_mod_cast hm) (by positivity)

theorem Fits.le_of_size_le (hm : Fits bits floor m e) (hn : Fits bits floor n t)
    (h : size m e ≤ size n t) : e < t ∨ e = t ∧ m ≤ n := by
  -- by exponents; equal ones leave the mantissas to decide
  obtain hlt | rfl | hgt := lt_trichotomy e t
  · exact .inl hlt
  · refine .inr ⟨rfl, ?_⟩
    have hle : (m : ℚ) ≤ n := le_of_mul_le_mul_right h (by positivity)
    exact_mod_cast hle
  · -- a larger exponent means that there are all bits, which is too large
    have hfloor : e ≠ floor := by
      have := hn.floor_le
      omega
    have hpow : (2 : ℚ) ^ (bits + 1 + t : ℤ) ≤ 2 ^ (bits + e : ℤ) :=
      zpow_le_zpow_right₀ (by norm_num) (by omega)
    have := hm.le_size hfloor
    have := hn.size_lt
    linarith

theorem Fits.eq_of_size_eq (hm : Fits bits floor m e) (hn : Fits bits floor n t)
    (h : size m e = size n t) : m = n ∧ e = t := by
  have := hm.le_of_size_le hn h.le
  have := hn.le_of_size_le hm h.ge
  omega

end Sizes

/-! ### Patterns -/

/-- **The pattern of a mantissa and an exponent.** -/
def pattern (bits : ℕ) (floor : ℤ) (m : ℕ) (e : ℤ) : ℕ :=
  (e - floor).toNat * 2 ^ bits + m

theorem Fits.pattern_div_mod {bits : ℕ} {floor : ℤ} {m : ℕ} {e : ℤ} (h : Fits bits floor m e) :
    (m < 2 ^ bits ∧ e = floor ∧ pattern bits floor m e / 2 ^ bits = 0 ∧
      pattern bits floor m e % 2 ^ bits = m) ∨
    (2 ^ bits ≤ m ∧ pattern bits floor m e / 2 ^ bits = (e - floor).toNat + 1 ∧
      pattern bits floor m e % 2 ^ bits = m - 2 ^ bits) := by
  have hpow := Nat.two_pow_pos bits
  -- with bits missing the field is zero, otherwise the leading bit goes into it
  by_cases hm : m < 2 ^ bits
  · obtain rfl : e = floor := h.full.resolve_right (by omega)
    have hpattern : pattern bits e m e = m := by simp [pattern]
    rw [hpattern]
    exact .inl ⟨hm, rfl, Nat.div_eq_of_lt hm, Nat.mod_eq_of_lt hm⟩
  · have hshort := h.short
    rw [Nat.pow_succ] at hshort
    have hpattern : pattern bits floor m e = ((e - floor).toNat + 1) * 2 ^ bits +
        (m - 2 ^ bits) := by
      rw [pattern, Nat.add_mul]
      omega
    rw [hpattern]
    refine .inr ⟨by omega, ?_, ?_⟩
    · rw [Nat.add_comm, Nat.add_mul_div_right _ _ hpow, Nat.div_eq_of_lt (by omega), Nat.zero_add]
    · rw [Nat.add_comm, Nat.add_mul_mod_self_right, Nat.mod_eq_of_lt (by omega)]

/-! ### Packing -/

section Packing

variable {spec : Format} {s : Sign} {m : ℕ} {e : ℤ}

/-- The largest exponent that a finite number has. -/
def maxExponent (spec : Format) : ℤ :=
  2 ^ spec.exponentBits - 2 - (spec.exponentBias + spec.mantissaBitsWithoutImplicit)

theorem minExponent_eq (spec : Format) :
    spec.minExponent = 1 - (spec.exponentBias + spec.mantissaBitsWithoutImplicit) := by
  have hpow : (2 ^ (spec.exponentBits - 1) : ℕ) = spec.exponentBias + 1 := by
    have := Nat.two_pow_pos (spec.exponentBits - 1)
    unfold Format.exponentBias
    omega
  have hcast : (2 : ℤ) ^ (spec.exponentBits - 1) = spec.exponentBias + 1 := by exact_mod_cast hpow
  rw [Format.minExponent, hcast, Format.mantissaBits]
  push_cast
  ring

/-- A mantissa and an exponent as a format keeps them. -/
abbrev FitsIn (spec : Format) (m : ℕ) (e : ℤ) : Prop :=
  Fits spec.mantissaBitsWithoutImplicit spec.minExponent m e

theorem toNat_one_append {w : ℕ} (v : BitVec w) : (1#1 ++ v).toNat = 2 ^ w + v.toNat := by
  have hor := Nat.two_pow_add_eq_or_of_lt v.isLt 1
  rw [Nat.mul_one] at hor
  rw [BitVec.toNat_append, BitVec.toNat_ofNat, Nat.pow_one, Nat.one_mod, Nat.one_shiftLeft, hor]

theorem fits_of_unpack (hbits : 1 < spec.exponentBits) {b : BitVec spec.numBits} {hm : 0 < m}
    (h : unpack spec b = .finite s m e hm) : FitsIn spec m e ∧ e ≤ maxExponent spec := by
  have hfour : (2 : ℤ) ^ 2 ≤ 2 ^ spec.exponentBits := pow_le_pow_right₀ (by decide) hbits
  have hfraction := (unpackMantissa b).isLt
  have hfield := (unpackExponent b).isLt
  have hfloor := minExponent_eq spec
  -- the cases are those of the exponent field: all ones, all zeros, or anything between
  unfold UnpackedFloat.unpack at h
  simp only at h
  split at h
  · split at h <;> cases h
  · next hones =>
    have hbelow : (unpackExponent b).toNat + 1 < 2 ^ spec.exponentBits := by
      have hne : (unpackExponent b).toNat ≠ 2 ^ spec.exponentBits - 1 := by
        intro heq
        refine hones (BitVec.eq_of_toNat_eq ?_)
        rw [heq, BitVec.neg_one_eq_allOnes, BitVec.toNat_allOnes]
      omega
    have hcast : ((unpackExponent b).toNat : ℤ) + 1 < 2 ^ spec.exponentBits := by
      exact_mod_cast hbelow
    split at h
    · next hzero =>
      -- the leading bit is missing, and the exponent is the smallest one
      split at h
      · cases h
      · injection h with hs hmantissa hexponent
        rw [hzero, BitVec.toNat_ofNat, Nat.zero_mod] at hexponent hcast
        push_cast at hexponent hcast
        have he : e = spec.minExponent := by omega
        refine ⟨⟨?_, he.ge, .inl he⟩, ?_⟩
        · rw [← hmantissa, Nat.pow_succ]
          omega
        · unfold maxExponent
          omega
    · next hzero =>
      injection h with hs hmantissa hexponent
      have hpos : (unpackExponent b).toNat ≠ 0 :=
        fun h0 => hzero (BitVec.eq_of_toNat_eq (by rw [h0, BitVec.toNat_ofNat, Nat.zero_mod]))
      rw [toNat_one_append] at hmantissa
      refine ⟨⟨?_, by omega, .inr (by omega)⟩, ?_⟩
      · rw [Nat.pow_succ]
        omega
      · unfold maxExponent
        omega

theorem unpack_packComponents {x : BitVec spec.exponentBits}
    {f : BitVec spec.mantissaBitsWithoutImplicit} (hx : x ≠ -1#_) :
    unpack spec (packComponents spec s x f) =
      if x = 0#_ then
        if h : f = 0#_ then .zero s
        else .finite s f.toNat spec.minExponent
          (Nat.pos_of_ne_zero fun h0 => h (BitVec.eq_of_toNat_eq (by simpa using h0)))
      else .finite s (2 ^ spec.mantissaBitsWithoutImplicit + f.toNat) (x.toNat - 1 +
        spec.minExponent)
        (by have := Nat.two_pow_pos spec.mantissaBitsWithoutImplicit; omega) := by
  have hfloor := minExponent_eq spec
  unfold UnpackedFloat.unpack
  simp only [unpackMantissa_packComponents, unpackExponent_packComponents,
    unpackSign_packComponents, Sign.ofBitVec_toBitVec, if_neg hx]
  -- the field tells whether the leading bit is there
  split
  · next hzero =>
    rw [hzero]
    simp only [BitVec.toNat_ofNat, Nat.zero_mod]
    split
    · rfl
    · congr 1
      push_cast
      omega
  · congr 1
    · exact toNat_one_append f
    · omega

theorem pattern_div_lt (h : FitsIn spec m e) (he : e ≤ maxExponent spec) :
    pattern spec.mantissaBitsWithoutImplicit spec.minExponent m e /
      2 ^ spec.mantissaBitsWithoutImplicit + 1 < 2 ^ spec.exponentBits := by
  have hfloor := minExponent_eq spec
  have hfloor_le := h.floor_le
  have hbits : 1 < 2 ^ spec.exponentBits := Nat.one_lt_two_pow (Nat.ne_of_gt spec.he)
  -- `maxExponent` is the exponent of the last field that is not all ones
  obtain ⟨-, -, hdiv, -⟩ | ⟨-, hdiv, -⟩ := h.pattern_div_mod
  · omega
  · rw [hdiv]
    unfold maxExponent at he
    have hcast : ((e - spec.minExponent).toNat : ℤ) + 1 + 1 < 2 ^ spec.exponentBits := by omega
    exact_mod_cast hcast

theorem ofNat_ne_neg_one {w x : ℕ} (hx : x + 1 < 2 ^ w) : BitVec.ofNat w x ≠ -1#_ := by
  intro heq
  have htoNat := congrArg BitVec.toNat heq
  rw [BitVec.neg_one_eq_allOnes, BitVec.toNat_allOnes, BitVec.toNat_ofNat,
    Nat.mod_eq_of_lt (by omega)] at htoNat
  omega

theorem ofNat_ne_zero {w x : ℕ} (hx : x < 2 ^ w) (hpos : 0 < x) : BitVec.ofNat w x ≠ 0#_ := by
  intro heq
  have htoNat := congrArg BitVec.toNat heq
  rw [BitVec.toNat_ofNat, Nat.mod_eq_of_lt hx, BitVec.toNat_ofNat, Nat.zero_mod] at htoNat
  omega

theorem pack_of_fits {hm : 0 < m} (h : FitsIn spec m e) (he : e ≤ maxExponent spec) :
    (UnpackedFloat.finite s m e hm).pack spec = packComponents spec s
      (BitVec.ofNat _ (pattern spec.mantissaBitsWithoutImplicit spec.minExponent m e /
        2 ^ spec.mantissaBitsWithoutImplicit))
      (BitVec.ofNat _ (pattern spec.mantissaBitsWithoutImplicit spec.minExponent m e %
        2 ^ spec.mantissaBitsWithoutImplicit)) := by
  have hfloor := minExponent_eq spec
  have hfloor_le := h.floor_le
  have hshort := h.short
  have hfinite := pattern_div_lt h he
  -- the exponent field is one for the smallest exponent
  obtain ⟨field, hfield⟩ : ∃ k : ℕ, e + spec.exponentBias + spec.mantissaBitsWithoutImplicit = k :=
    Int.eq_ofNat_of_zero_le (by omega)
  have hbelow : field + 1 < 2 ^ spec.exponentBits := by
    unfold maxExponent at he
    have hcast : (field : ℤ) + 1 < 2 ^ spec.exponentBits := by omega
    exact_mod_cast hcast
  unfold UnpackedFloat.pack
  simp only [hfield, Int.toNat_natCast]
  rw [if_neg (by omega)]
  obtain ⟨hmissing, -, hdiv, hmod⟩ | ⟨hfull, hdiv, hmod⟩ := h.pattern_div_mod
  · -- bits are missing
    have hlog : m.log2 + 1 ≠ spec.mantissaBits := by
      have : m.log2 < spec.mantissaBitsWithoutImplicit := (Nat.log2_lt hm.ne').mpr hmissing
      rw [Format.mantissaBits]
      omega
    rw [if_neg hlog, hdiv, hmod]
  · -- all bits are there, and the leading one is left out
    have hlog : m.log2 = spec.mantissaBitsWithoutImplicit :=
      (Nat.log2_eq_iff hm.ne').mpr ⟨hfull, hshort⟩
    have hleading : BitVec.ofNat spec.mantissaBitsWithoutImplicit m =
        BitVec.ofNat _ (m - 2 ^ spec.mantissaBitsWithoutImplicit) := by
      refine BitVec.eq_of_toNat_eq ?_
      rw [BitVec.toNat_ofNat, BitVec.toNat_ofNat, Nat.mod_eq_sub_mod hfull]
    rw [if_pos (by rw [hlog, Format.mantissaBits, Nat.add_comm]), hdiv, hmod, hleading]
    congr 2
    omega

theorem unpack_pack_of_fits {hm : 0 < m} (h : FitsIn spec m e) (he : e ≤ maxExponent spec) :
    unpack spec ((UnpackedFloat.finite s m e hm).pack spec) = .finite s m e hm := by
  have hfloor_le := h.floor_le
  have hshort := h.short
  have hfinite := pattern_div_lt h he
  rw [pack_of_fits h he, unpack_packComponents (ofNat_ne_neg_one hfinite)]
  -- as in packing, with the leading bit or without it
  obtain ⟨hmissing, hexponent, hdiv, hmod⟩ | ⟨hfull, hdiv, hmod⟩ := h.pattern_div_mod
  · rw [hdiv, hmod, if_pos rfl, dif_neg (ofNat_ne_zero hmissing hm)]
    simp only [BitVec.toNat_ofNat, Nat.mod_eq_of_lt hmissing, hexponent]
  · rw [Nat.pow_succ] at hshort
    rw [hdiv] at hfinite
    rw [hdiv, hmod, if_neg (ofNat_ne_zero (by omega) (by omega))]
    congr 1
    · rw [BitVec.toNat_ofNat, Nat.mod_eq_of_lt (by omega)]
      omega
    · rw [BitVec.toNat_ofNat, Nat.mod_eq_of_lt (by omega)]
      omega

theorem unpack_pack_notANumber :
    unpack .binary32 (UnpackedFloat.notANumber.pack .binary32) = .notANumber := by
  rfl

theorem unpack_pack_infinity :
    unpack spec ((UnpackedFloat.infinity s).pack spec) = .infinity s := by
  change unpack spec (packComponents spec s (-1#_) 0#_) = _
  unfold UnpackedFloat.unpack
  simp only [unpackMantissa_packComponents, unpackExponent_packComponents,
    unpackSign_packComponents, Sign.ofBitVec_toBitVec, if_true]

theorem unpack_pack_of_overflow {hm : 0 < m} (he : maxExponent spec < e) :
    unpack spec ((UnpackedFloat.finite s m e hm).pack spec) = .infinity s := by
  have hover : 2 ^ spec.exponentBits ≤
      (e + spec.exponentBias + spec.mantissaBitsWithoutImplicit).toNat + 1 := by
    unfold maxExponent at he
    have : (2 : ℤ) ^ spec.exponentBits ≤
        (e + spec.exponentBias + spec.mantissaBitsWithoutImplicit).toNat + 1 := by omega
    exact_mod_cast this
  have hpack : (UnpackedFloat.finite s m e hm).pack spec =
      (UnpackedFloat.infinity s).pack spec := by
    unfold UnpackedFloat.pack
    simp only
    rw [if_pos hover]
  rw [hpack, unpack_pack_infinity]

theorem unpack_pack_zero : unpack spec ((UnpackedFloat.zero s).pack spec) = .zero s := by
  have hbits : 1 < 2 ^ spec.exponentBits := Nat.one_lt_two_pow (Nat.ne_of_gt spec.he)
  change unpack spec (packComponents spec s 0#_ 0#_) = _
  rw [unpack_packComponents (ofNat_ne_neg_one (by omega)), if_pos rfl, dif_pos rfl]

end Packing

/-! ### Comparing -/

section Ranks

theorem isLE_then (e t : ℤ) (m n : ℕ) :
    ((compare e t).then (compare m n)).isLE = true ↔ e < t ∨ e = t ∧ m ≤ n := by
  obtain hlt | rfl | hgt := lt_trichotomy e t
  · simp [compare_lt_iff_lt.mpr hlt, hlt]
  · simp [Nat.isLE_compare]
  · simp [compare_gt_iff_gt.mpr hgt, hgt.le, hgt.ne']

theorem isLE_swap_then (e t : ℤ) (m n : ℕ) :
    ((compare e t).then (compare m n)).swap.isLE = true ↔ t < e ∨ e = t ∧ n ≤ m := by
  rw [eq_comm (a := e), ← isLE_then, Ordering.swap_then, Int.compare_swap, Nat.compare_swap]

def rank : UnpackedFloat → ℤ ×ₗ ℤ ×ₗ ℤ
  | .infinity .negative => toLex (-2, toLex (0, 0))
  | .finite .negative m e _ => toLex (-1, toLex (-e, -m))
  | .finite .positive m e _ => toLex (1, toLex (e, m))
  | .infinity .positive => toLex (2, toLex (0, 0))
  | _ => toLex (0, toLex (0, 0))

/-- **A comparison is one of ranks,** and there is none with a NaN. -/
theorem unpacked_le_iff {u v : UnpackedFloat} :
    u.le v = true ↔ u ≠ .notANumber ∧ v ≠ .notANumber ∧ rank u ≤ rank v := by
  unfold UnpackedFloat.le UnpackedFloat.compare
  cases u with
  | notANumber => simp
  | infinity s | zero s | finite s =>
    cases v with
    | notANumber => cases s <;> simp
    | infinity t | zero t | finite t =>
      -- signs and kinds decide, except between finite numbers of one sign
      cases s <;> cases t <;> first
      | simp [rank, Prod.Lex.toLex_le_toLex, isLE_then]; done
      | simp [rank, Prod.Lex.toLex_le_toLex, isLE_swap_then, -Ordering.isLE_swap]; done
      | simp [rank]; decide

theorem isLT_then (e t : ℤ) (m n : ℕ) :
    (compare e t).then (compare m n) = .lt ↔ e < t ∨ e = t ∧ m < n := by
  obtain hlt | rfl | hgt := lt_trichotomy e t
  · simp [compare_lt_iff_lt.mpr hlt, hlt]
  · simp [compare_lt_iff_lt]
  · simp [compare_gt_iff_gt.mpr hgt, hgt.le, hgt.ne']

theorem isLT_swap_then (e t : ℤ) (m n : ℕ) :
    ((compare e t).then (compare m n)).swap = .lt ↔ t < e ∨ e = t ∧ n < m := by
  rw [eq_comm (a := e), ← isLT_then, Ordering.swap_then, Int.compare_swap, Nat.compare_swap]

theorem unpacked_lt_iff {u v : UnpackedFloat} :
    u.lt v = true ↔ u ≠ .notANumber ∧ v ≠ .notANumber ∧ rank u < rank v := by
  unfold UnpackedFloat.lt UnpackedFloat.compare
  cases u with
  | notANumber => simp
  | infinity s | zero s | finite s =>
    cases v with
    | notANumber => cases s <;> simp
    | infinity t | zero t | finite t =>
      -- as for `≤`: signs and kinds decide, except between finite numbers of one sign
      cases s <;> cases t <;> first
      | simp [rank, Prod.Lex.toLex_lt_toLex, isLT_then]; done
      | simp [rank, Prod.Lex.toLex_lt_toLex, isLT_swap_then, -Ordering.swap_eq_lt]; done
      | simp [rank]; decide

theorem single_le_trans {x y z : Float32} (hxy : x ≤ y) (hyz : y ≤ z) : x ≤ z := by
  rw [le_iff, unpacked_le_iff] at hxy hyz ⊢
  exact ⟨hxy.1, hyz.2.1, hxy.2.2.trans hyz.2.2⟩

theorem single_lt_trans {x y z : Float32} (hxy : x < y) (hyz : y < z) : x < z := by
  rw [lt_iff, unpacked_lt_iff] at hxy hyz ⊢
  exact ⟨hxy.1, hyz.2.1, hxy.2.2.trans hyz.2.2⟩

theorem single_lt_of_le_of_lt {x y z : Float32} (hxy : x ≤ y) (hyz : y < z) : x < z := by
  rw [le_iff, unpacked_le_iff] at hxy
  rw [lt_iff, unpacked_lt_iff] at hyz ⊢
  exact ⟨hxy.1, hyz.2.1, hxy.2.2.trans_lt hyz.2.2⟩

theorem single_le_of_lt {x y : Float32} (h : x < y) : x ≤ y := by
  rw [lt_iff, unpacked_lt_iff] at h
  rw [le_iff, unpacked_le_iff]
  exact ⟨h.1, h.2.1, h.2.2.le⟩

theorem ne_notANumber_of_le {x y : Float32} (h : x ≤ y) : y.toModel.unpack ≠ .notANumber :=
  (unpacked_le_iff.mp (le_iff.mp h)).2.1

/-- What is above something is no NaN, so it is at most itself. -/
theorem single_le_refl_of_le {x y : Float32} (h : x ≤ y) : y ≤ y :=
  le_iff.mpr (unpacked_le_iff.mpr ⟨ne_notANumber_of_le h, ne_notANumber_of_le h, le_rfl⟩)

theorem not_lt_of_le {x y : Float32} (h : x ≤ y) : ¬ y < x := by
  rw [le_iff, unpacked_le_iff] at h
  rw [lt_iff, unpacked_lt_iff]
  exact fun hlt => absurd h.2.2 (not_le.mpr hlt.2.2)

theorem not_lt_of_lt {x y : Float32} (h : x < y) : ¬ y < x := by
  rw [lt_iff, unpacked_lt_iff] at h ⊢
  exact fun hlt => absurd h.2.2 (not_lt.mpr hlt.2.2.le)

end Ranks

end Skirmish.Numeric
