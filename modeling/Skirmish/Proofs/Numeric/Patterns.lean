import Skirmish.Proofs.Numeric.Counting

/-!
# Patterns and layouts

Numbers are stored as bit patterns, which are numbered in the order of their values:

* `Counts.pattern_eq` — a count has the pattern of the number that it stands for;
* `unpack_toSingle` — so an exact value is rounded to the number that it is counted as.
-/

/-! ## Bit patterns

Mantissas and exponents that are kept in a format are numbered in the order of their values, and the
number is the bit pattern. A count that has one bit too many has the right pattern all the same.

* `pattern` — the number of a mantissa and an exponent;
* `toNat_pack` — a number is packed as its pattern, with the sign in front;
* `Counts.pattern_eq` — a count has the pattern of the number that it stands for;
* `exactSingle_eq` and `exactDouble_eq` — a pattern's parts are the mantissa and the exponent again;
* `signed_eq`, `unpack_abs` and `unpack_neg` — a finite number's sign, and the number without it.
-/

namespace Skirmish.Numeric

open Float.Model
open Float.Model.UnpackedFloat

section Patterns

variable {bits : ℕ} {floor : ℤ} {v : ℚ} {m n : ℕ} {e t : ℤ}

theorem Counts.pattern_eq (h : Counts bits floor v n t) (hfits : Fits bits floor m e)
    (heq : size n t = size m e) : pattern bits floor n t = pattern bits floor m e := by
  have hfloor := h.floor_le
  obtain hlt | rfl := h.count_le.lt_or_eq
  · obtain ⟨rfl, rfl⟩ := (h.fits hlt).eq_of_size_eq hfits heq
    rfl
  · -- a one in the next place has the same pattern
    obtain ⟨rfl, rfl⟩ := h.fits_carry.eq_of_size_eq hfits ((size_carry bits t).trans heq)
    have hunit : (t + 1 - floor).toNat = (t - floor).toNat + 1 := by omega
    rw [pattern, pattern, hunit]
    ring

/-- **A layout takes a pattern apart** into the mantissa and the exponent. -/
theorem exact_pattern (l : Layout) (negative : Bool) (h : Fits l.fractionBits l.floorExponent m e) :
    l.exact negative (pattern l.fractionBits l.floorExponent m e / 2 ^ l.fractionBits)
      (pattern l.fractionBits l.floorExponent m e % 2 ^ l.fractionBits) = ⟨negative, m, e⟩ := by
  have hfloor := h.floor_le
  unfold Layout.exact
  -- a field of zero stands for the smallest exponent, without the leading bit
  obtain ⟨hm, rfl, hdiv, hmod⟩ | ⟨hm, hdiv, hmod⟩ := h.pattern_div_mod
  · rw [hdiv, hmod, if_pos rfl]
  · rw [hdiv, hmod, if_neg (by omega), Nat.one_shiftLeft]
    congr 1 <;> omega

end Patterns

/-! ### Packing -/

section Packing

variable {spec : Format} {s : Sign} {m : ℕ} {e : ℤ}

theorem toNat_packComponents (s : Sign) (x : BitVec spec.exponentBits)
    (f : BitVec spec.mantissaBitsWithoutImplicit) :
    (packComponents spec s x f).toNat =
      (s.toBitVec.toNat * 2 ^ spec.exponentBits + x.toNat) * 2 ^ spec.mantissaBitsWithoutImplicit +
        f.toNat := by
  unfold packComponents
  rw [BitVec.toNat_append, BitVec.toNat_append, ← Nat.shiftLeft_add_eq_or_of_lt f.isLt,
    ← Nat.shiftLeft_add_eq_or_of_lt x.isLt, Nat.shiftLeft_eq, Nat.shiftLeft_eq]

theorem toNat_pack {hm : 0 < m} (h : FitsIn spec m e) (he : e ≤ maxExponent spec) :
    ((UnpackedFloat.finite s m e hm).pack spec).toNat =
      s.toBitVec.toNat * 2 ^ (spec.exponentBits + spec.mantissaBitsWithoutImplicit) +
        pattern spec.mantissaBitsWithoutImplicit spec.minExponent m e := by
  have hfinite := pattern_div_lt h he
  have hpow := Nat.two_pow_pos spec.mantissaBitsWithoutImplicit
  rw [pack_of_fits h he, toNat_packComponents, BitVec.toNat_ofNat, BitVec.toNat_ofNat,
    Nat.mod_eq_of_lt (by omega), Nat.mod_mod, Nat.add_mul, Nat.mul_assoc, ← Nat.pow_add,
    Nat.add_assoc, Nat.div_add_mod']

theorem unpack_of_toNat_eq {hm : 0 < m} (h : FitsIn spec m e) (he : e ≤ maxExponent spec)
    {b : BitVec spec.numBits}
    (hb : b.toNat = s.toBitVec.toNat * 2 ^ (spec.exponentBits + spec.mantissaBitsWithoutImplicit) +
      pattern spec.mantissaBitsWithoutImplicit spec.minExponent m e) :
    unpack spec b = .finite s m e hm := by
  obtain rfl : b = (UnpackedFloat.finite s m e hm).pack spec :=
    BitVec.eq_of_toNat_eq (hb.trans (toNat_pack h he).symm)
  exact unpack_pack_of_fits h he

theorem pattern_lt (h : FitsIn spec m e) (he : e ≤ maxExponent spec) :
    pattern spec.mantissaBitsWithoutImplicit spec.minExponent m e <
      (2 ^ spec.exponentBits - 1) * 2 ^ spec.mantissaBitsWithoutImplicit := by
  have hfinite := pattern_div_lt h he
  exact (Nat.div_lt_iff_lt_mul (Nat.two_pow_pos _)).mp (by omega)

end Packing

/-! ### Exact values -/

section Exact

variable {s : Sign} {m : ℕ} {e : ℤ} {hm : 0 < m}

def isNegative : Sign → Bool
  | .negative => true
  | .positive => false

theorem toNat_toBitVec (s : Sign) : s.toBitVec.toNat = if isNegative s then 1 else 0 := by
  cases s <;> rfl

theorem fitsIn_single {x : Float32} (h : x.toModel.unpack = .finite s m e hm) :
    FitsIn .binary32 m e ∧ e ≤ maxExponent .binary32 :=
  fits_of_unpack (by decide) h

theorem fitsIn_double {y : Float} (h : y.toModel.unpack = .finite s m e hm) :
    FitsIn .binary64 m e ∧ e ≤ maxExponent .binary64 :=
  fits_of_unpack (by decide) h

theorem fields_eq {b p x y : ℕ} {negative : Bool} (hp : p < 2 ^ x * 2 ^ y)
    (hb : b = (if negative then 1 else 0) * 2 ^ (x + y) + p) :
    b >>> (x + y) = (if negative then 1 else 0) ∧ b >>> y &&& (2 ^ x - 1) = p / 2 ^ y ∧
      b &&& (2 ^ y - 1) = p % 2 ^ y := by
  have hpow : 2 ^ (x + y) = 2 ^ x * 2 ^ y := Nat.pow_add 2 x y
  have hy := Nat.two_pow_pos y
  have hfield : p / 2 ^ y < 2 ^ x := (Nat.div_lt_iff_lt_mul hy).mpr hp
  -- masks are remainders, and shifts are quotients
  rw [Nat.and_two_pow_sub_one_eq_mod, Nat.and_two_pow_sub_one_eq_mod, Nat.shiftRight_eq_div_pow,
    Nat.shiftRight_eq_div_pow, hb]
  refine ⟨?_, ?_, ?_⟩
  · rw [hpow, Nat.add_comm, Nat.add_mul_div_right _ _ (by positivity),
      Nat.div_eq_of_lt hp, Nat.zero_add]
  · rw [hpow, ← Nat.mul_assoc, Nat.add_comm, Nat.add_mul_div_right _ _ hy,
      Nat.add_mul_mod_self_right, Nat.mod_eq_of_lt hfield]
  · rw [hpow, ← Nat.mul_assoc, Nat.add_comm, Nat.add_mul_mod_self_right]

theorem exactSingle_eq {x : Float32} (h : x.toModel.unpack = .finite s m e hm) :
    exactSingle x = ⟨isNegative s, m, e⟩ := by
  obtain ⟨hfits, he⟩ := fitsIn_single h
  have hlt : pattern 23 (-149) m e < (2 ^ 8 - 1) * 2 ^ 23 := pattern_lt hfits he
  have hbits : x.toBits.toNat = (if isNegative s then 1 else 0) * 2 ^ (8 + 23) +
      pattern 23 (-149) m e := by
    -- the stored bits are those that the unpacked number is packed to
    have hpack : x.toModel.unpack.pack .binary32 = x.toBits.toBitVec :=
      pack_unpack_of_valid x.toModel.valid
    rw [h] at hpack
    rw [← UInt32.toNat_toBitVec, ← hpack, ← toNat_toBitVec]
    exact toNat_pack hfits he
  obtain ⟨hshift, hfield, hfraction⟩ := fields_eq (by omega) hbits
  have hsign : (x.toBits >>> 31 == 1) = isNegative s := by
    have hshift' : (x.toBits >>> 31).toNat = if isNegative s then 1 else 0 := hshift
    rw [Bool.eq_iff_iff, beq_iff_eq, ← UInt32.toNat_inj, hshift']
    cases isNegative s <;> simp
  have hfield' : ((x.toBits >>> 23) &&& 0xff).toNat = pattern 23 (-149) m e / 2 ^ 23 := by
    rw [UInt32.toNat_and]
    exact hfield
  have hfraction' : (x.toBits &&& 0x7fffff).toNat = pattern 23 (-149) m e % 2 ^ 23 := by
    rw [UInt32.toNat_and]
    exact hfraction
  unfold exactSingle
  simp only [hsign, hfield', hfraction']
  exact exact_pattern .single _ hfits

theorem exactDouble_eq {y : Float} (h : y.toModel.unpack = .finite s m e hm) :
    exactDouble y = ⟨isNegative s, m, e⟩ := by
  obtain ⟨hfits, he⟩ := fitsIn_double h
  have hlt : pattern 52 (-1074) m e < (2 ^ 11 - 1) * 2 ^ 52 := pattern_lt hfits he
  have hbits : y.toBits.toNat =
      (if isNegative s then 1 else 0) * 2 ^ (11 + 52) + pattern 52 (-1074) m e := by
    -- as in single precision, with other widths
    have hpack : y.toModel.unpack.pack .binary64 = y.toBits.toBitVec :=
      pack_unpack_of_valid y.toModel.valid
    rw [h] at hpack
    rw [← UInt64.toNat_toBitVec, ← hpack, ← toNat_toBitVec]
    exact toNat_pack hfits he
  obtain ⟨hshift, hfield, hfraction⟩ := fields_eq (by omega) hbits
  have hsign : (y.toBits >>> 63 == 1) = isNegative s := by
    have hshift' : (y.toBits >>> 63).toNat = if isNegative s then 1 else 0 := hshift
    rw [Bool.eq_iff_iff, beq_iff_eq, ← UInt64.toNat_inj, hshift']
    cases isNegative s <;> simp
  have hfield' : ((y.toBits >>> 52) &&& 0x7ff).toNat = pattern 52 (-1074) m e / 2 ^ 52 := by
    rw [UInt64.toNat_and]
    exact hfield
  have hfraction' : (y.toBits &&& 0xfffffffffffff).toNat = pattern 52 (-1074) m e % 2 ^ 52 := by
    rw [UInt64.toNat_and]
    exact hfraction
  unfold exactDouble
  simp only [hsign, hfield', hfraction']
  exact exact_pattern .double _ hfits

/-! ### Signs of finite numbers -/

theorem signed_eq {x : Float32} (h : x.toModel.unpack = .finite s m e hm) :
    signed x = isNegative s := by
  have hnegative : (exactSingle x).negative = signed x := by
    unfold exactSingle Layout.exact
    simp only
    split <;> rfl
  rw [← hnegative, exactSingle_eq h]

theorem unpack_abs {x : Float32} (h : x.toModel.unpack = .finite s m e hm) :
    x.abs.toModel.unpack = .finite .positive m e hm := by
  obtain ⟨hfits, he⟩ := fitsIn_single h
  change unpack .binary32 (x.toModel.unpack.abs.pack .binary32) = _
  rw [h]
  exact unpack_pack_of_fits hfits he

theorem unpack_neg {y : Float} (h : y.toModel.unpack = .finite s m e hm) :
    (-y).toModel.unpack = .finite (-s) m e hm := by
  obtain ⟨hfits, he⟩ := fitsIn_double h
  change unpack .binary64 (y.toModel.unpack.neg.pack .binary64) = _
  rw [h]
  exact unpack_pack_of_fits hfits he

theorem unpack_neg_single {x : Float32} (h : x.toModel.unpack = .finite s m e hm) :
    (-x).toModel.unpack = .finite (-s) m e hm := by
  obtain ⟨hfits, he⟩ := fitsIn_single h
  change unpack .binary32 (x.toModel.unpack.neg.pack .binary32) = _
  rw [h]
  exact unpack_pack_of_fits hfits he

theorem beq_zero_eq_false {x : Float32} (h : x.toModel.unpack = .finite s m e hm) :
    (x == 0) = false := by
  change x.toModel.unpack.beq (.zero .positive) = false
  rw [h]
  cases s <;> rfl

end Exact

end Skirmish.Numeric

/-! ## Rounding to a layout

An exact value is rounded to the pattern of its count. So a number that is kept comes out of all
values that are nearer to it than to its neighbours.

* `exists_counts_magnitudeBits` — an exact value is counted, and the count's pattern is the result;
* `Near` — the values that are nearer to a number than to its neighbours, or just as near if it is
  even;
* `Counts.size_eq_of_near` — such a value is counted as the number;
* `unpack_toSingle` — what is counted as a number is rounded to it, with either sign;
* `narrow_eq` — also when it comes from double precision.

Below the first number of a size the neighbour is in smaller units, and only half as far away. A
value on that side is counted in the smaller units, and the count has one bit too many.
-/

namespace Skirmish.Numeric

open Float.Model
open Float.Model.UnpackedFloat

variable {bits : ℕ} {floor : ℤ} {v : ℚ} {m n : ℕ} {e t : ℤ}

theorem nearest_self (n : ℕ) : Nearest n (n : ℚ) :=
  ⟨by norm_num, fun h => by norm_num at h⟩

theorem exists_counts_magnitudeBits (l : Layout) (hm : m ≠ 0) (e : ℤ) :
    ∃ n t, Counts l.fractionBits l.floorExponent (size m e) n t ∧
      l.magnitudeBits m e = min (pattern l.fractionBits l.floorExponent n t) l.infinityBits := by
  obtain ⟨unit, hunit⟩ : ∃ unit, unit =
    max (e + m.log2 - l.fractionBits) l.floorExponent := ⟨_, rfl⟩
  have hupper : size m e < size (m + 1) e :=
    mul_lt_mul_of_pos_right (by push_cast; linarith) (by positivity)
  have hcounts : ∀ k, Nearest k (size m e / 2 ^ unit) →
      Counts l.fractionBits l.floorExponent (size m e) k unit :=
    fun k hk => counts_of_nearest hm le_rfl hupper (by omega) hk
  refine ⟨if unit ≤ e then m <<< (e - unit).toNat
    else nearestShift m (unit - e).toNat, unit, ?_, ?_⟩
  · refine hcounts _ ?_
    -- shifted to the left the value is counted exactly, and to the right to the nearest
    split
    · next hle =>
      rw [Counts.size_div m hle, Nat.shiftLeft_eq]
      exact nearest_self _
    · next hgt =>
      have hdiv : size m e / 2 ^ unit = m / 2 ^ (unit - e).toNat := by
        have hsplit : (2 : ℚ) ^ unit = 2 ^ (unit - e).toNat * 2 ^ e := by
          rw [← zpow_natCast, ← zpow_add₀ (by norm_num), Int.toNat_of_nonneg (by omega),
            Int.sub_add_cancel]
        rw [size, hsplit]
        field_simp
      rw [hdiv]
      exact nearest_nearestShift _ _
  · unfold Layout.magnitudeBits
    rw [if_neg hm, pattern, hunit, ← Nat.shiftLeft_eq]

/-- **The values around a number** that are nearer to it than to its neighbours, or as near if it is
even. -/
structure Near (bits : ℕ) (floor : ℤ) (m : ℕ) (e : ℤ) (v : ℚ) : Prop where
  /-- They end halfway to the next number. -/
  above : v ≤ (m + 1 / 2) * 2 ^ e
  /-- They begin halfway to the number before. -/
  below : (m - 1 / 2) * 2 ^ e ≤ v
  /-- That one may be nearer. -/
  first : m = 2 ^ bits → e ≠ floor → (m - 1 / 4) * 2 ^ e ≤ v
  /-- Only an even number has the ends. -/
  tie : v = (m + 1 / 2) * 2 ^ e ∨ v = (m - 1 / 2) * 2 ^ e → m % 2 = 0

/-- The unit of a number is the one in which it has just as many bits as fit. -/
theorem Counts.unit_eq (h : Counts bits floor v n t) (hfloor : floor ≤ e)
    (hshort : v < 2 ^ (bits + 1 + e : ℤ)) (hfull : e = floor ∨ 2 ^ (bits + e : ℤ) ≤ v) : t = e := by
  have hpow : ∀ {i j : ℤ}, (2 : ℚ) ^ i < 2 ^ j → i < j :=
    fun h => (zpow_lt_zpow_iff_right₀ (by norm_num)).mp h
  have ht := h.floor_le
  have hle : t ≤ e := by
    obtain rfl | hle := h.full
    · exact hfloor
    · have := hpow (hle.trans_lt hshort)
      omega
  -- in any other unit there would be too many bits, or too few
  have hge : e ≤ t := by
    obtain rfl | hle := hfull
    · exact ht
    · have := hpow (hle.trans_lt h.short)
      omega
  omega

/-- **A value is counted in one way only.** -/
theorem Counts.unique {k : ℕ} {j : ℤ} (h : Counts bits floor v n t) (h' : Counts bits floor v k j) :
    n = k ∧ t = j := by
  obtain rfl := h.unit_eq h'.floor_le h'.short h'.full
  exact ⟨h.nearest.unique h'.nearest, rfl⟩

theorem two_pow_add (k : ℕ) (e : ℤ) : (2 : ℚ) ^ (k + e : ℤ) = (2 ^ k : ℕ) * 2 ^ e := by
  rw [zpow_add₀ (by norm_num)]
  push_cast
  rfl

/-- In the units of a number, a value near it is counted as the number. -/
theorem Near.nearest (h : Near bits floor m e v) : Nearest m (v / 2 ^ e) := by
  have hpos : (0 : ℚ) < 2 ^ e := by positivity
  have habove : v / 2 ^ e ≤ m + 1 / 2 := (div_le_iff₀ hpos).mpr h.above
  have hbelow : m - 1 / 2 ≤ v / 2 ^ e := (le_div_iff₀ hpos).mpr h.below
  refine ⟨abs_le.mpr ⟨by linarith, by linarith⟩, fun htie => h.tie ?_⟩
  -- only the two ends of the range are half a unit away
  obtain htie | htie := (abs_eq (by norm_num)).mp htie
  · exact .inr ((div_eq_iff hpos.ne').mp (by linarith))
  · exact .inl ((div_eq_iff hpos.ne').mp (by linarith))

theorem Near.first_of_lt (h : Near bits floor m e v) (hfits : Fits bits floor m e)
    (hfloor : e ≠ floor) (hlow : v < 2 ^ (bits + e : ℤ)) : m = 2 ^ bits := by
  have hpos : (0 : ℚ) < 2 ^ e := by positivity
  refine le_antisymm ?_ (hfits.full.resolve_left hfloor)
  -- from the second number on, half a unit below is not below the first one
  by_contra hgt
  have hcast : ((2 ^ bits : ℕ) : ℚ) + 1 ≤ m := by exact_mod_cast not_le.mp hgt
  have hle : ((2 ^ bits : ℕ) : ℚ) * 2 ^ e ≤ (m - 1 / 2) * 2 ^ e :=
    mul_le_mul_of_nonneg_right (by linarith) hpos.le
  rw [two_pow_add] at hlow
  exact absurd hlow (not_lt.mpr (hle.trans h.below))

/-- **A value just below the first number of a size** is counted in smaller units, with one bit too
many. -/
theorem Counts.size_eq_of_below (h : Counts bits floor v n t) (hfloor : floor < e)
    (hlow : v < 2 ^ (bits + e : ℤ)) (hquarter : ((2 ^ bits : ℕ) - 1 / 4) * 2 ^ e ≤ v) :
    size n t = size (2 ^ bits) e := by
  have hpos : (0 : ℚ) < 2 ^ (e - 1) := by positivity
  have hhalf : (2 : ℚ) ^ e = 2 * 2 ^ (e - 1) := by
    rw [zpow_sub_one₀ (by norm_num)]
    ring
  have hone : (1 : ℚ) ≤ (2 ^ bits : ℕ) := by exact_mod_cast Nat.two_pow_pos bits
  have hall : (2 : ℚ) ^ (bits + (e - 1) : ℤ) ≤ v := by
    refine le_trans ?_ hquarter
    rw [two_pow_add, hhalf, ← mul_assoc]
    exact mul_le_mul_of_nonneg_right (by linarith) hpos.le
  -- the value has all its bits in the next smaller unit
  obtain rfl : t = e - 1 := by
    refine h.unit_eq (by omega) ?_ (.inr hall)
    rwa [show (bits + 1 + (e - 1) : ℤ) = bits + e by ring]
  have hbelow : ((2 ^ (bits + 1) : ℕ) : ℚ) - 1 / 2 ≤ v / 2 ^ (e - 1) := by
    rw [le_div_iff₀ hpos, pow_succ]
    refine le_trans (le_of_eq ?_) hquarter
    rw [hhalf]
    push_cast
    ring
  have habove : v / 2 ^ (e - 1) ≤ (2 ^ (bits + 1) : ℕ) := by
    rw [div_le_iff₀ hpos, pow_succ]
    refine hlow.le.trans (le_of_eq ?_)
    rw [two_pow_add, hhalf]
    push_cast
    ring
  -- there it is a quarter of a large unit away, or half a small one, from an even count
  have hnearest : Nearest (2 ^ (bits + 1)) (v / 2 ^ (e - 1)) := by
    refine ⟨abs_le.mpr ⟨by linarith, by linarith⟩, fun _ => ?_⟩
    rw [pow_succ, Nat.mul_mod_left]
  rw [h.nearest.unique hnearest, ← Counts.size_carry, sub_add_cancel]

theorem Counts.size_eq_of_near (h : Counts bits floor v n t) (hfits : Fits bits floor m e)
    (hnear : Near bits floor m e v) : size n t = size m e := by
  have hfloor_le := hfits.floor_le
  by_cases hfull : e = floor ∨ 2 ^ (bits + e : ℤ) ≤ v
  · -- the units are those of the number, and it is the nearest one
    have hshort : v < 2 ^ (bits + 1 + e : ℤ) := by
      have hm : (m : ℚ) + 1 ≤ (2 ^ (bits + 1) : ℕ) := by exact_mod_cast hfits.short
      have hpow := two_pow_add (bits + 1) e
      push_cast at hpow hm
      rw [hpow]
      exact hnear.above.trans_lt (mul_lt_mul_of_pos_right (by linarith) (by positivity))
    obtain rfl := h.unit_eq hfloor_le hshort hfull
    rw [h.nearest.unique hnear.nearest]
  · obtain ⟨hfloor, hlow⟩ := not_or.mp hfull
    obtain rfl := hnear.first_of_lt hfits hfloor (not_le.mp hlow)
    exact h.size_eq_of_below (by omega) (not_le.mp hlow) (hnear.first rfl hfloor)

theorem unpack_toSingle {s : Sign} {hm : 0 < m} (hfits : FitsIn .binary32 m e)
    (he : e ≤ maxExponent .binary32) {m' : ℕ} {e' : ℤ} (hm' : m' ≠ 0)
    (hcount : ∀ n t, Counts 23 (-149) (size m' e') n t → size n t = size m e) :
    (toSingle ⟨isNegative s, m', e'⟩).toModel.unpack = .finite s m e hm := by
  obtain ⟨n, t, hcounts, hbits⟩ := exists_counts_magnitudeBits .single hm' e'
  have hpattern : pattern 23 (-149) n t = pattern 23 (-149) m e :=
    hcounts.pattern_eq hfits (hcount n t hcounts)
  have hlt : pattern 23 (-149) m e < (2 ^ 8 - 1) * 2 ^ 23 := pattern_lt hfits he
  have hsize : Layout.single.magnitudeBits m' e' = pattern 23 (-149) m e := by
    rw [hbits]
    change min (pattern 23 (-149) n t) 0x7f800000 = _
    rw [hpattern]
    omega
  -- the sign bit is set on top of the pattern
  obtain ⟨w, hw⟩ : ∃ w, toSingle ⟨isNegative s, m', e'⟩ = Float32.ofBits w ∧
      w.toNat = s.toBitVec.toNat * 2 ^ 31 + pattern 23 (-149) m e := by
    refine ⟨_, rfl, ?_⟩
    simp only [hsize]
    generalize pattern 23 (-149) m e = p at hlt
    have hofNat : (UInt32.ofNat p).toNat = p :=
      UInt32.toNat_ofNat_of_lt (by change p < 4294967296; omega)
    cases s with
    | positive =>
      change (UInt32.ofNat p).toNat = 0 * 2 ^ 31 + p
      rw [hofNat, Nat.zero_mul, Nat.zero_add]
    | negative =>
      change (UInt32.ofNat p ||| 0x80000000).toNat = 1 * 2 ^ 31 + p
      have hor := Nat.two_pow_add_eq_or_of_lt (show p < 2 ^ 31 by omega) 1
      rw [UInt32.toNat_or, hofNat, Nat.or_comm]
      exact hor.symm
  have hunpack : unpack .binary32 w.toBitVec = .finite s m e hm :=
    unpack_of_toNat_eq hfits he hw.2
  rw [hw.1]
  change unpack .binary32 ((unpack .binary32 w.toBitVec).pack .binary32) = _
  rw [hunpack, unpack_pack_of_fits hfits he]

/-- **A number in double precision that is counted as one in single precision** becomes that number.
-/
theorem narrow_eq_of_counts {x : Float32} {y : Float} {s : Sign} {hm : 0 < m} {m' : ℕ} {e' : ℤ}
    {hm' : 0 < m'} (hx : x.toModel.unpack = .finite s m e hm)
    (hy : y.toModel.unpack = .finite s m' e' hm')
    (hcount : ∀ n t, Counts 23 (-149) (size m' e') n t → size n t = size m e) : narrow y = x := by
  obtain ⟨hfits, he⟩ := fitsIn_single hx
  have hfinite : y.isFinite = true := by
    change y.toModel.unpack.isFinite = true
    rw [hy]
    rfl
  unfold narrow
  rw [if_pos hfinite, exactDouble_eq hy]
  exact eq_of_unpack_eq ((unpack_toSingle hfits he hm'.ne' hcount).trans hx.symm)

theorem narrow_eq {x : Float32} {y : Float} {s : Sign} {hm : 0 < m} {m' : ℕ} {e' : ℤ} {hm' : 0 < m'}
    (hx : x.toModel.unpack = .finite s m e hm) (hy : y.toModel.unpack = .finite s m' e' hm')
    (hnear : Near 23 (-149) m e (size m' e')) : narrow y = x :=
  narrow_eq_of_counts hx hy fun _ _ h => h.size_eq_of_near (fitsIn_single hx).1 hnear

end Skirmish.Numeric
