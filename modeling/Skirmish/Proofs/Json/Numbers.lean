import Skirmish.Json
import Skirmish.Proofs.Decimal.Literals
import Skirmish.Proofs.Decimal.Reading
import Skirmish.Proofs.Decimal.Spans
import Skirmish.Proofs.Json.Texts
import Skirmish.Proofs.Numeric.Products

/-!
# Numbers as JSON

A number in single precision is read from its literal bit for bit:

* `Numeral.exists_shows` — its decimal is written as a literal with the same value;
* `Value.single?_single` — the number is read from that literal.
-/

/-! ## Decimals as literals

The text of a decimal is the literal of a numeral, in positional notation and in scientific
notation. Either way the digits around the point make one integer, and the power of ten that it
counts is the decimal's own exponent. Only if zeros fill the places up to the point they are digits
of the integer too, with one more behind the point.

* `positionalNumeral` and `scientificNumeral` — the parts of the two texts;
* `significand_eq` — the digits around the point as one integer;
* `ReadAs` and `Shows` — a numeral with the value of a decimal, by an integer and a power of ten;
* `shows_positional`, `shows_scientific` and `exists_shows` — what is written has the value.
-/

namespace Skirmish.Json

open Decimal (digitText accumulate positionalText scientificText)

namespace Numeral

/-- The parts of positional notation. -/
def positionalNumeral (negative : Bool) (digits : List Char) (point : ℤ) : Numeral :=
  if point ≤ 0 then ⟨negative, ['0'], some (List.replicate (-point).toNat '0' ++ digits), none⟩
  else if digits.length ≤ point.toNat then
    ⟨negative, digits ++ List.replicate (point.toNat - digits.length) '0', some ['0'], none⟩
  else ⟨negative, digits.take point.toNat, some (digits.drop point.toNat), none⟩

/-- The parts of scientific notation. -/
def scientificNumeral (negative : Bool) (digits : List Char) (point : ℤ) : Numeral where
  negative := negative
  whole := digits.take 1
  fraction := if (digits.drop 1).isEmpty then none else some (digits.drop 1)
  exponent := some ⟨decide (point - 1 < 0), digitText (point - 1).natAbs⟩

variable {n : Numeral} {d : Decimal} {negative : Bool} {k : ℕ}

/-! ### Parts and literals -/

theorem Digits.append {cs ds : List Char} (hcs : Digits cs)
    (hds : ∀ c ∈ ds, Decimal.isDigit c = true) :
    Digits (cs ++ ds) :=
  ⟨by simp [hcs.ne_nil], fun c hc => (List.mem_append.mp hc).elim (hcs.isDigit c) (hds c)⟩

theorem digits_zero : Digits ['0'] := by
  refine ⟨List.cons_ne_nil _ _, fun c hc => ?_⟩
  obtain rfl := List.mem_singleton.mp hc
  rfl

theorem isDigit_of_mem_replicate {c : Char} (h : c ∈ List.replicate k '0') :
    Decimal.isDigit c = true := by
  rw [List.eq_of_mem_replicate h]
  rfl

theorem head?_digitText_append_ne {m : ℕ} (hm : m ≠ 0) (cs : List Char) :
    (digitText m ++ cs).head? ≠ some '0' := by
  rw [List.head?_append_of_ne_nil _ Decimal.digitText_ne_nil]
  exact Decimal.head?_digitText_ne hm

theorem head?_take_digitText_ne {m : ℕ} (hm : m ≠ 0) (hk : 0 < k) :
    ((digitText m).take k).head? ≠ some '0' := by
  rw [List.head?_take, if_neg hk.ne']
  exact Decimal.head?_digitText_ne hm

theorem proper_positionalNumeral (negative : Bool) {m : ℕ} (hm : m ≠ 0) (point : ℤ) :
    (positionalNumeral negative (digitText m) point).Proper := by
  have hdigits := digits_digitText m
  unfold positionalNumeral
  -- the point stands before the digits, behind them or between them
  split
  · refine ⟨digits_zero, fun _ => rfl, ?_, by simp⟩
    rintro ds ⟨⟩
    exact ⟨by simp [hdigits.ne_nil],
      fun c hc => (List.mem_append.mp hc).elim isDigit_of_mem_replicate (hdigits.isDigit c)⟩
  · split
    · refine ⟨hdigits.append fun c hc => isDigit_of_mem_replicate hc,
        fun hzero => absurd hzero (head?_digitText_append_ne hm _), ?_, by simp⟩
      rintro ds ⟨⟩
      exact digits_zero
    · next hpoint hlong =>
      -- neither side of the point is empty
      have hne : (digitText m).take point.toNat ≠ [] := by
        rw [Ne, List.take_eq_nil_iff]
        rintro (hzero | hnil)
        · omega
        · exact hdigits.ne_nil hnil
      refine ⟨⟨hne, fun c hc => hdigits.isDigit c (List.mem_of_mem_take hc)⟩,
        fun hzero => absurd hzero (head?_take_digitText_ne hm (by omega)), ?_, by simp⟩
      rintro ds ⟨⟩
      refine ⟨?_, fun c hc => hdigits.isDigit c (List.mem_of_mem_drop hc)⟩
      rw [Ne, List.drop_eq_nil_iff]
      omega

theorem literal_positionalNumeral (digits : List Char) (point : ℤ) :
    (positionalNumeral negative digits point).literal =
      (if negative then ['-'] else []) ++ positionalText true digits point := by
  -- numeral and text are split at the same places
  unfold positionalNumeral positionalText
  split
  · simp [literal, fractionLiteral, exponentLiteral]
  · split
    · simp [literal, fractionLiteral, exponentLiteral]
    · simp [literal, fractionLiteral, exponentLiteral]

theorem proper_scientificNumeral (negative : Bool) {m : ℕ} (hm : m ≠ 0) (point : ℤ) :
    (scientificNumeral negative (digitText m) point).Proper := by
  have hdigits := digits_digitText m
  refine ⟨⟨?_, fun c hc => hdigits.isDigit c (List.mem_of_mem_take hc)⟩,
    fun hzero => absurd hzero (head?_take_digitText_ne hm (by decide)), ?_, ?_⟩
  · change (digitText m).take 1 ≠ []
    rw [Ne, List.take_eq_nil_iff]
    rintro (hzero | hnil)
    · cases hzero
    · exact hdigits.ne_nil hnil
  · -- there is a fraction only if a second digit is left for it
    intro ds hds
    unfold scientificNumeral at hds
    simp only at hds
    split at hds
    · cases hds
    · next hne =>
      obtain rfl := Option.some.inj hds
      exact ⟨by simpa using hne, fun c hc => hdigits.isDigit c (List.mem_of_mem_drop hc)⟩
  · rintro e ⟨⟩
    exact digits_digitText _

theorem literal_scientificNumeral (digits : List Char) (point : ℤ) :
    (scientificNumeral negative digits point).literal =
      (if negative then ['-'] else []) ++ scientificText digits point := by
  -- the sign of the exponent is a part of the numeral, and a character of the text
  have hexponent : exponentLiteral (scientificNumeral negative digits point).exponent =
      'e' :: Decimal.integerText (point - 1) := by
    unfold scientificNumeral exponentLiteral Decimal.integerText
    simp
  have hfraction : fractionLiteral (scientificNumeral negative digits point).fraction =
      if (digits.drop 1).isEmpty then [] else '.' :: digits.drop 1 := by
    unfold scientificNumeral
    simp only
    split <;> rfl
  unfold literal scientificText
  rw [hexponent, hfraction]
  simp [scientificNumeral]

/-! ### Values -/

theorem significand_eq (h : accumulate 0 (n.whole ++ n.fraction.getD []) < UInt64.size) :
    n.significand = (accumulate 0 (n.whole ++ n.fraction.getD []),
        -((n.fraction.getD []).length : ℤ)) := by
  rw [Decimal.accumulate_append] at h ⊢
  -- the digits before the point make no more than all of them, so neither overflows
  have hle := Decimal.le_accumulate (accumulate 0 n.whole) (n.fraction.getD [])
  unfold significand
  rw [absorb_eq (hle.trans_lt h)]
  simp only
  rw [absorb_eq h]
  simp

/-- **What a decimal is read as:** an integer of 53 bits times a power of ten, which is the
decimal's own or a tenth. -/
def ReadAs (n : Numeral) (d : Decimal) : Prop :=
  ∃ s e, n.magnitude? = scale? (UInt64.ofNat s).toFloat e ∧ (s : ℚ) * 10 ^ e = d.value ∧
    0 < s ∧ s < 2 ^ 53 ∧ (e = d.exponent ∨ e = -1)

/-- **A numeral that shows a decimal.** -/
structure Shows (n : Numeral) (d : Decimal) : Prop where
  /-- The parts make a number. -/
  proper : n.Proper
  /-- It is not read as an integer. -/
  integer : n.integer? = none
  /-- It has the decimal's value. -/
  magnitude : n.ReadAs d

theorem integer?_eq_none (h : n.fraction.isSome ∨ n.exponent.isSome) : n.integer? = none := by
  unfold integer?
  obtain h | h := h
  · obtain ⟨ds, hds⟩ := Option.isSome_iff_exists.mp h
    rw [hds]
  · obtain ⟨e, he⟩ := Option.isSome_iff_exists.mp h
    rw [he]
    cases n.fraction <;> rfl

/-- Without an exponent only the digits behind the point count. -/
theorem magnitude?_eq {s : ℕ} (hexponent : n.exponent = none)
    (hs : accumulate 0 (n.whole ++ n.fraction.getD []) = s) (hbound : s < 2 ^ 53) :
    n.magnitude? = scale? (UInt64.ofNat s).toFloat (-((n.fraction.getD []).length : ℤ)) := by
  have hsize : UInt64.size = 2 ^ 64 := rfl
  unfold magnitude?
  rw [significand_eq (by omega), hs, hexponent]

theorem magnitude?_eq_add {s : ℕ} {e : ℤ} (he : e.natAbs ≤ 2000)
    (hexponent : n.exponent = some ⟨decide (e < 0), digitText e.natAbs⟩)
    (hs : accumulate 0 (n.whole ++ n.fraction.getD []) = s) (hbound : s < 2 ^ 53)
    (hlength : (n.fraction.getD []).length ≤ 2000) :
    n.magnitude? = scale? (UInt64.ofNat s).toFloat (e - (n.fraction.getD []).length) := by
  have hsize : UInt64.size = 2 ^ 64 := rfl
  unfold magnitude?
  rw [significand_eq (by omega), hs, hexponent]
  simp only [Decimal.accumulate_digitText]
  -- both lengths are far from the bounds at which the reader saturates
  rw [if_neg (by omega)]
  congr 1
  unfold saturated
  split
  · next hnegative =>
    have := of_decide_eq_true hnegative
    omega
  · next hnegative =>
    have := of_decide_eq_false (Bool.not_eq_true _ ▸ hnegative)
    omega

theorem readAs_of_zeros_front (hpos : 0 < d.digits) (hdigits : d.digits < 2 ^ 28)
    (hk : (k + (digitText d.digits).length : ℤ) = -d.exponent) :
    ReadAs ⟨negative, ['0'], some (List.replicate k '0' ++ digitText d.digits), none⟩ d := by
  -- zeros in front leave the integer as it is
  have hall : accumulate 0 (['0'] ++ (List.replicate k '0' ++ digitText d.digits)) = d.digits := by
    rw [← List.append_assoc, Decimal.accumulate_append, Decimal.accumulate_append,
      Decimal.accumulate_replicate, show accumulate 0 ['0'] = 0 from rfl, Nat.zero_mul,
      Decimal.accumulate_digitText]
  have hlength : ((List.replicate k '0' ++ digitText d.digits).length : ℤ) = -d.exponent := by
    rw [List.length_append, List.length_replicate]
    exact_mod_cast hk
  refine ⟨d.digits, d.exponent, ?_, rfl, hpos, by omega, .inl rfl⟩
  refine (magnitude?_eq rfl hall (by omega)).trans ?_
  rw [Option.getD_some, hlength, neg_neg]

/-- Zeros behind are digits of the integer, and so is the one behind the point. -/
theorem readAs_of_zeros_behind (hpos : 0 < d.digits) (hk : d.exponent = k)
    (hlong : (digitText d.digits).length + k ≤ 13) :
    ReadAs ⟨negative, digitText d.digits ++ List.replicate k '0', some ['0'], none⟩ d := by
  have hall : accumulate 0 (digitText d.digits ++ List.replicate k '0' ++ ['0']) =
      d.digits * 10 ^ (k + 1) := by
    rw [Decimal.accumulate_append, Decimal.accumulate_append, Decimal.accumulate_digitText,
      Decimal.accumulate_replicate, show ['0'] = List.replicate 1 '0' from rfl,
      Decimal.accumulate_replicate, Nat.mul_assoc, ← Nat.pow_add]
  -- at most fourteen digits are less than `2^53`
  have hdigits : d.digits < 10 ^ (digitText d.digits).length :=
    (Decimal.length_digitText_le Decimal.length_digitText_pos).mp le_rfl
  have hbound : d.digits * 10 ^ (k + 1) < 2 ^ 53 :=
    calc d.digits * 10 ^ (k + 1) < 10 ^ (digitText d.digits).length * 10 ^ (k + 1) :=
          Nat.mul_lt_mul_of_pos_right hdigits (by positivity)
      _ = 10 ^ ((digitText d.digits).length + (k + 1)) := (Nat.pow_add _ _ _).symm
      _ ≤ 10 ^ 14 := Nat.pow_le_pow_right (by decide) (by omega)
      _ < 2 ^ 53 := by decide
  refine ⟨_, -1, magnitude?_eq rfl hall hbound, ?_, by positivity, hbound, .inr rfl⟩
  -- the zero behind the point makes the integer ten times as large, and the power a tenth
  rw [Decimal.value, hk, zpow_natCast, pow_succ, zpow_neg_one]
  push_cast
  field_simp

theorem readAs_of_point_between (hpos : 0 < d.digits) (hdigits : d.digits < 2 ^ 28)
    (hk : (k : ℤ) = (digitText d.digits).length + d.exponent)
    (hshort : k ≤ (digitText d.digits).length) :
    ReadAs ⟨negative, (digitText d.digits).take k, some ((digitText d.digits).drop k), none⟩ d := by
  have hall : accumulate 0 ((digitText d.digits).take k ++ (digitText d.digits).drop k) =
      d.digits := by
    rw [List.take_append_drop, Decimal.accumulate_digitText]
  have hlength : (((digitText d.digits).drop k).length : ℤ) = -d.exponent := by
    rw [List.length_drop]
    omega
  refine ⟨d.digits, d.exponent, ?_, rfl, hpos, by omega, .inl rfl⟩
  refine (magnitude?_eq rfl hall (by omega)).trans ?_
  rw [Option.getD_some, hlength, neg_neg]

theorem isSome_fraction_positionalNumeral (digits : List Char) (point : ℤ) :
    (positionalNumeral negative digits point).fraction.isSome := by
  unfold positionalNumeral
  split
  · rfl
  · split <;> rfl

theorem shows_positional (hpos : 0 < d.digits) (hdigits : d.digits < 2 ^ 28)
    (hpoint : (digitText d.digits).length + d.exponent ≤ 13) :
    (positionalNumeral negative (digitText d.digits)
        ((digitText d.digits).length + d.exponent)).Shows d := by
  refine ⟨proper_positionalNumeral negative hpos.ne' _,
    integer?_eq_none (.inl (isSome_fraction_positionalNumeral _ _)), ?_⟩
  -- the three cases in which the numeral was built
  unfold positionalNumeral
  split
  · exact readAs_of_zeros_front hpos hdigits (by omega)
  · split
    · exact readAs_of_zeros_behind hpos (by omega) (by omega)
    · exact readAs_of_point_between hpos hdigits (by omega) (by omega)

theorem shows_scientific (hpos : 0 < d.digits) (hdigits : d.digits < 2 ^ 28)
    (hlow : -1000 ≤ d.exponent) (hhigh : d.exponent ≤ 1000) :
    (scientificNumeral negative (digitText d.digits)
        ((digitText d.digits).length + d.exponent)).Shows d := by
  -- the number of digits gets a name, or `omega` would meet the digits
  obtain ⟨l, hl⟩ : ∃ l, l = (digitText d.digits).length := ⟨_, rfl⟩
  have hproper := proper_scientificNumeral negative hpos.ne' (l + d.exponent)
  rw [← hl]
  refine ⟨hproper, integer?_eq_none (.inr rfl), d.digits, d.exponent, ?_, rfl,
    hpos, by omega, .inl rfl⟩
  have hfraction :
      (scientificNumeral negative (digitText d.digits) (l + d.exponent)).fraction.getD [] =
        (digitText d.digits).drop 1 := by
    unfold scientificNumeral
    simp only
    split
    · next hnil => rw [Option.getD_none, List.isEmpty_iff.mp hnil]
    · rfl
  have hall :
      accumulate 0 ((scientificNumeral negative (digitText d.digits) (l + d.exponent)).whole ++
        (scientificNumeral negative (digitText d.digits) (l + d.exponent)).fraction.getD []) =
      d.digits := by
    rw [hfraction]
    change accumulate 0 ((digitText d.digits).take 1 ++ (digitText d.digits).drop 1) = _
    rw [List.take_append_drop, Decimal.accumulate_digitText]
  -- below `2^28` there are nine digits at most
  have hlong : l ≤ 9 :=
    hl ▸ (Decimal.length_digitText_le (by decide)).mpr (hdigits.trans (by decide))
  have hfirst : 0 < l := hl ▸ Decimal.length_digitText_pos
  have hlength : ((digitText d.digits).drop 1).length = l - 1 := by rw [List.length_drop, ← hl]
  refine (magnitude?_eq_add (e := l + d.exponent - 1) (by omega) rfl hall (by omega)
    (by rw [hfraction]; omega)).trans ?_
  rw [hfraction, hlength]
  congr 1
  omega

theorem exists_shows {x : Float32} (hx : (x == 0) = false) (hd : Decimal.shortest .toEven x.abs = d)
    (hpos : 0 < d.digits) (hdigits : d.digits < 2 ^ 28) (hlow : -1000 ≤ d.exponent)
    (hhigh : d.exponent ≤ 1000) :
    ∃ n : Numeral, n.literal = Value.numberStyle.finite x ∧ n.negative = Numeric.signed x ∧
        n.Shows d := by
  have hfinite : Value.numberStyle.finite x = (if Numeric.signed x then ['-'] else []) ++
      if Value.numberStyle.positional ((digitText d.digits).length + d.exponent) then
        positionalText true (digitText d.digits) ((digitText d.digits).length + d.exponent)
      else scientificText (digitText d.digits) ((digitText d.digits).length + d.exponent) := by
    rw [← hd]
    unfold Decimal.Style.finite
    rw [hx]
    cases Numeric.signed x <;> rfl
  -- the notation is chosen by where the point is
  rw [hfinite]
  by_cases hpositional :
      Value.numberStyle.positional ((digitText d.digits).length + d.exponent) = true
  · have hpoint := of_decide_eq_true hpositional
    rw [if_pos hpositional]
    refine ⟨_, literal_positionalNumeral _ _, ?_, shows_positional hpos hdigits hpoint.2⟩
    unfold positionalNumeral
    split
    · rfl
    · split <;> rfl
  · rw [if_neg hpositional]
    exact ⟨_, literal_scientificNumeral _ _, rfl, shows_scientific hpos hdigits hlow hhigh⟩

end Numeral

end Skirmish.Json

/-! ## Numbers in single precision as JSON

A number is written as its shortest decimal and is read with two small errors, one of a power of ten
and one of the product or the quotient. That leads to no other number, since the decimal is clear of
the ends of the span.

* `stands_scale` — an integer times a power of ten, with the error that it is read with;
* `exists_near` — the value that a number's decimal is read as, which is near the number;
* `Value.standard_single` and `Value.single?_single` — a finite number has a text and is read from
  it again.

For the one decimal that is too near to an end, the value is computed.
-/

namespace Skirmish.Json

open Float.Model
open Numeric

/-- **An integer times a power of ten** is read with a small error, and with none but that of the
result if the power is small. -/
theorem Numeral.stands_scale {s : ℕ} {e : ℤ} (hpos : 0 < s) (hs : s < 2 ^ 53) (hlow : -46 ≤ e)
    (hhigh : e ≤ 46) :
    ∃ y w, scale? (UInt64.ofNat s).toFloat e = some y ∧ Stands y w ∧
      |w - s * 10 ^ e| ≤ s * 10 ^ e / 2 ^ 51 ∧ (-22 ≤ e → e ≤ 22 → Rounded w (s * 10 ^ e)) := by
  have hvalue := stands_ofNat hpos hs
  have hone : (1 : ℚ) ≤ s := by exact_mod_cast hpos
  obtain ⟨p, hp, hrounded, hexact⟩ := stands_power (k := e.natAbs) (by omega)
  rw [scale?, dif_pos (by omega)]
  simp only
  -- the reader multiplies by a power of ten, or divides by one
  obtain he | he := le_or_gt 0 e
  · have hten : (10 : ℚ) ^ e = 10 ^ e.natAbs := by
      rw [← zpow_natCast, Int.natAbs_of_nonneg he]
    obtain ⟨w, hw, hround⟩ := stands_mul hvalue hp hone (moderate_mul hpos hs (by omega) hrounded)
    rw [if_pos he, isInf_of_stands hw, hten]
    refine ⟨_, w, rfl, hw, mul_error hrounded hround, fun _ hsmall => ?_⟩
    rwa [hexact (by omega)] at hround
  · have hten : (s : ℚ) * 10 ^ e = s / 10 ^ e.natAbs := by
      have hexponent : e = -(e.natAbs : ℤ) := by omega
      rw [hexponent, zpow_neg, zpow_natCast, ← div_eq_mul_inv, Int.natAbs_neg, Int.natAbs_natCast]
    obtain ⟨w, hw, hround⟩ := stands_div hvalue hp (moderate_div hpos hs (by omega) hrounded)
    rw [if_neg (by omega), hten]
    refine ⟨_, w, rfl, hw, div_error hrounded hround, fun hsmall _ => ?_⟩
    rwa [hexact (by omega)] at hround

/-! ### Numbers and their decimals -/

section Numbers

variable {x : Float32} {sign : UnpackedFloat.Sign} {m : ℕ} {e : ℤ} {hm : 0 < m}
  {d : Decimal} {n : Numeral}

/-- The quotient that the decimal too near to an end is read as. It is the last one below the end.
-/
theorem unpack_exception :
    ((UInt64.ofNat 7038531).toFloat / Decimal.nearestDouble ⟨1, 32⟩).toModel.unpack =
      .finite .positive 6131425250115583 (-136) (by decide) := by
  have hbits : ((UInt64.ofNat 7038531).toFloat / Decimal.nearestDouble ⟨1, 32⟩).toBits.toNat =
      0 * 2 ^ 63 + pattern 52 (-1074) 6131425250115583 (-136) := by
    decide +kernel
  have hfits : FitsIn .binary64 6131425250115583 (-136) := by
    constructor <;> decide
  exact unpack_of_toNat_eq hfits (by decide) hbits

theorem search_exception :
    (Decimal.Span.around 11420669 (-107)).search .toEven 39 200 = ⟨7038531, -32⟩ := by
  decide +kernel

theorem exists_near (hm : 0 < m) (hfits : m < 2 ^ 24) (hlow : -149 ≤ e) (hhigh : e ≤ 104)
    (hd : (Decimal.Span.around m e).search .toEven 39 200 = d) (hn : n.Shows d) :
    ∃ y m' e' hm', n.magnitude? = some y ∧ y.toModel.unpack = .finite .positive m' e' hm' ∧
      Near 23 (-149) m e (size m' e') := by
  have hshortest := Decimal.shortest_around .toEven hm hfits hlow hhigh
  rw [hd] at hshortest
  have hmin := hshortest.exponent_ge hlow
  have hmax := Decimal.exponent_lt_of_inside hshortest.inside hm hfits hlow hhigh
  obtain ⟨s, g, hmagnitude, hvalue, hpos, hs, hg⟩ := hn.magnitude
  -- one decimal stands too near to an end for the bound on the error, and is computed
  by_cases hexception : e = -107 ∧ m = 11420669
  · obtain ⟨rfl, rfl⟩ := hexception
    obtain rfl := search_exception.symm.trans hd
    -- there is no other integer with the value
    obtain rfl : g = -32 := by
      refine hg.resolve_right ?_
      rintro rfl
      have hone : (1 : ℚ) ≤ s := by exact_mod_cast hpos
      simp only [Decimal.value] at hvalue
      norm_num at hvalue
      linarith
    obtain rfl : s = 7038531 := by
      have hcancel := mul_right_cancel₀ (by positivity) hvalue
      exact_mod_cast hcancel
    refine ⟨_, 6131425250115583, -136, by decide, hmagnitude.trans ?_, unpack_exception, ?_⟩
    · rw [Numeral.scale?, dif_pos (by decide)]
      rfl
    · constructor <;> norm_num [size]
  · obtain ⟨y, w, hscale, ⟨m', e', hm', hunpack, rfl⟩, herror, hrounded⟩ :=
      Numeral.stands_scale hpos hs (show -46 ≤ g by omega) (by omega)
    rw [hvalue] at herror hrounded
    refine ⟨y, m', e', hm', hmagnitude.trans hscale, hunpack, ?_⟩
    -- everywhere else the error is smaller than the distance to the nearer end
    refine Decimal.near_of_error hm hfits hlow hhigh hexception hd herror fun hge hle u j
      hfew hj heq => ?_
    exact (hrounded (by omega) (by omega)).exact u j (hfew.le.trans (by decide)) (by omega) heq

/-- **A finite number other than zero** is read from its literal. -/
theorem exists_numeral (hx : x.toModel.unpack = .finite sign m e hm) :
    ∃ n : Numeral, n.Proper ∧ n.literal = Value.numberStyle.finite x ∧ n.single? = some x := by
  obtain ⟨hfits, hhigh⟩ := fitsIn_single hx
  have hshort : m < 2 ^ 24 := hfits.short
  have hlow : -149 ≤ e := hfits.floor_le
  have hmax : e ≤ 104 := hhigh
  have hd : Decimal.shortest .toEven x.abs = (Decimal.Span.around m e).search .toEven 39 200 := by
    rw [Decimal.shortest, Decimal.Span.ofSingle_eq (unpack_abs hx)]
  have hshortest := Decimal.shortest_around .toEven hm hshort hlow hmax
  have hpos := Decimal.digits_pos_of_inside hshortest.inside hm hlow
  have hmin := hshortest.exponent_ge hlow
  have hexponent := Decimal.exponent_lt_of_inside hshortest.inside hm hshort hlow hmax
  obtain ⟨n, hliteral, hnegative, hshows⟩ :=
    Numeral.exists_shows (beq_zero_eq_false hx) hd hpos (hshortest.digits_lt hshort)
      (by omega) (by omega)
  obtain ⟨y, m', e', hm', hmagnitude, hy, hnear⟩ := exists_near hm hshort hlow hmax rfl hshows
  have hinteger : n.signedInteger? = none := by rw [Numeral.signedInteger?, hshows.integer]; rfl
  refine ⟨n, hshows.proper, hliteral, ?_⟩
  rw [Numeral.single?, hinteger, Numeral.double?, hmagnitude, hnegative, signed_eq hx]
  -- the sign is put back after the magnitude was read
  cases sign with
  | positive => exact congrArg some (narrow_eq hx hy hnear)
  | negative => exact congrArg some (narrow_eq hx (unpack_neg hy) hnear)

theorem proper_zero (negative : Bool) : (⟨negative, ['0'], some ['0'], none⟩ : Numeral).Proper := by
  refine ⟨Numeral.digits_zero, fun _ => rfl, ?_, by simp⟩
  rintro ds ⟨⟩
  exact Numeral.digits_zero

/-- **A finite number** is read from its literal. -/
theorem exists_numeral_of_isFinite (h : x.isFinite = true) :
    ∃ n : Numeral, n.Proper ∧ n.literal = Value.numberStyle.finite x ∧ n.single? = some x := by
  -- the two that are not finite are excluded, the rest is a zero or a fraction
  cases hx : x.toModel.unpack with
  | notANumber | infinity s =>
    change x.toModel.unpack.isFinite = true at h
    rw [hx] at h
    cases h
  | zero s =>
    -- there are two zeros, with two literals
    cases s with
    | positive =>
      obtain rfl : x = 0 := eq_of_unpack_eq hx
      exact ⟨_, proper_zero false, by decide +kernel, by decide +kernel⟩
    | negative =>
      obtain rfl : x = -0 := eq_of_unpack_eq hx
      exact ⟨_, proper_zero true, by decide +kernel, by decide +kernel⟩
  | finite s m e hm => exact exists_numeral hx

end Numbers

namespace Value

theorem standard_single {x : Float32} (h : x.isFinite = true) : (single x).Standard := by
  obtain ⟨n, hproper, hliteral, -⟩ := exists_numeral_of_isFinite h
  rw [single, if_pos h, ← hliteral]
  exact .number hproper

theorem single?_single {x : Float32} (h : x.isFinite = true) : (single x).single? = some x := by
  obtain ⟨n, hproper, hliteral, hsingle⟩ := exists_numeral_of_isFinite h
  rw [single, if_pos h, ← hliteral, single?, Numeral.ofLiteral?_literal hproper,
    Option.bind_some, hsingle]

end Value

end Skirmish.Json
