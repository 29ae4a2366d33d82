import Skirmish.Proofs.Decimal.Literals
import Skirmish.Proofs.Numeric.Products
import Skirmish.Yaml.Source

/-!
# Scalars with and without a type

A scalar that is met where a number is expected is read as a decimal, whatever it looks like.
Without a type it is first taken for what it looks like, and that may be something else: a
hexadecimal number, an integer that is too large to be kept by double precision, or a text because
of a zero in front.

* `Scalar.IsOrdinary` — the scalars that look like the decimals that they are, if they are numbers
  at all;
* `real?_of_digits` — digits as a decimal, with any sign;
* `Scalar.IsOrdinary.single?_ofScalar?` — an ordinary scalar is the same number either way;
* `isAtom_ofScalar?` — a scalar is no collection, and if it is a text, it is its own.
-/

namespace Skirmish.Yaml

open Decimal (isDigit accumulate nearestDouble)

variable {n : ℕ} {text cs : List Char} {content : Content}

def namesBase : List Char → Bool
  | '0' :: 'x' :: _ => true
  | '0' :: 'o' :: _ => true
  | '0' :: 'b' :: _ => true
  | _ => false

/-- **An ordinary scalar** has no tag, and if it is an integer, it is written in decimal and has at
most 53 bits. There is no needless zero in front of its digits, and no minus sign in front of a
zero. -/
structure Scalar.IsOrdinary (s : Scalar) : Prop where
  /-- It has no tag. -/
  untagged : s.tag = none
  /-- No needless zero stands in front. -/
  unpadded : isZeroPadded s.text.toList = false
  /-- It names no base. -/
  decimal : namesBase (withoutSign s.text.toList) = false
  /-- It is not too large. -/
  natural_le : ∀ n, unsigned? s.text.toList = some n → n ≤ 2 ^ 53
  /-- It is not too small either. -/
  negative_le : ∀ n, negative? s.text.toList = some n → 0 < n ∧ n ≤ 2 ^ 53

/-! ### Digits as decimals -/

theorem based?_of_namesBase (h : namesBase cs = false) : based? cs = Decimal.digits? 10 cs := by
  unfold based?
  split
  · cases h
  · cases h
  · cases h
  · rfl

theorem head_of_digits (hne : cs ≠ []) (hcs : ∀ c ∈ cs, isDigit c = true) {d : Char}
    (hd : isDigit d = false) : cs.head? ≠ some d := by
  cases cs with
  | nil => exact absurd rfl hne
  | cons c cs =>
    rw [List.head?_cons]
    intro h
    obtain rfl := Option.some.inj h
    rw [hcs c (List.mem_cons_self ..)] at hd
    cases hd

theorem withoutPlus_of_head (h : cs.head? ≠ some '+') : withoutPlus cs = cs := by
  unfold withoutPlus
  split
  · exact absurd rfl h
  · rfl

theorem withoutSign_of_head (hplus : cs.head? ≠ some '+') (hminus : cs.head? ≠ some '-') :
    withoutSign cs = cs := by
  unfold withoutSign
  split
  · exact absurd rfl hplus
  · exact absurd rfl hminus
  · rfl

theorem isSigned_of_head (hplus : cs.head? ≠ some '+') (hminus : cs.head? ≠ some '-') :
    isSigned cs = false := by
  unfold isSigned
  split
  · exact absurd rfl hplus
  · exact absurd rfl hminus
  · rfl

theorem signedDecimal?_of_head (hminus : cs.head? ≠ some '-') :
    signedDecimal? cs = (Decimal.fractional? cs).map nearestDouble := by
  unfold signedDecimal?
  split
  · exact absurd rfl hminus
  · rfl

/-- What starts with neither a second sign nor a point is a decimal or nothing. -/
theorem real?_eq_signedDecimal?
    (hplus : ¬ (text.head? = some '+' ∧ isSigned (withoutPlus text) = true))
    (hpoint : (withoutSign (withoutPlus text)).head? ≠ some '.') :
    real? text = (signedDecimal? (withoutPlus text)).filter Float.isFinite := by
  -- infinities and NaN are written with a point after the sign
  have hname : ∀ name : String, (withoutSign name.toList).head? = some '.' →
      String.ofList (withoutPlus text) ≠ name := by
    rintro name h rfl
    rw [String.toList_ofList] at h
    exact hpoint h
  unfold real?
  simp only
  rw [if_neg hplus, if_neg, if_neg, if_neg]
  · rintro ⟨-, h | h | h⟩ <;> exact hname _ (by decide) h
  · rintro (h | h | h) <;> exact hname _ (by decide) h
  · rintro (h | h | h) <;> exact hname _ (by decide) h

section Digits

variable (hne : cs ≠ []) (hcs : ∀ c ∈ cs, isDigit c = true) (hn : accumulate 0 cs ≤ 2 ^ 53)
include hne hcs hn

theorem real?_of_digits : real? cs = some (nearestDouble ⟨accumulate 0 cs, 0⟩) := by
  -- digits begin with none of the characters that another reader looks for
  have hplus := head_of_digits hne hcs (show isDigit '+' = false by decide)
  have hminus := head_of_digits hne hcs (show isDigit '-' = false by decide)
  have hpoint := head_of_digits hne hcs (show isDigit '.' = false by decide)
  have hbare := withoutPlus_of_head hplus
  rw [real?_eq_signedDecimal? (fun h => hplus h.1), hbare, signedDecimal?_of_head hminus,
    Decimal.fractional?_of_digits hne hcs]
  · exact Option.filter_some_pos (Numeric.isFinite_nearestDouble hn).1
  · rwa [hbare, withoutSign_of_head hplus hminus]

theorem real?_of_plus : real? ('+' :: cs) = some (nearestDouble ⟨accumulate 0 cs, 0⟩) := by
  have hplus := head_of_digits hne hcs (show isDigit '+' = false by decide)
  have hminus := head_of_digits hne hcs (show isDigit '-' = false by decide)
  have hpoint := head_of_digits hne hcs (show isDigit '.' = false by decide)
  have hbare : withoutPlus ('+' :: cs) = cs := rfl
  rw [real?_eq_signedDecimal?, hbare, signedDecimal?_of_head hminus,
    Decimal.fractional?_of_digits hne hcs]
  · exact Option.filter_some_pos (Numeric.isFinite_nearestDouble hn).1
  · -- the sign is taken off once, and there is no second one behind it
    rw [hbare, isSigned_of_head hplus hminus]
    simp
  · rwa [hbare, withoutSign_of_head hplus hminus]

theorem real?_of_minus : real? ('-' :: cs) = some (-nearestDouble ⟨accumulate 0 cs, 0⟩) := by
  have hpoint := head_of_digits hne hcs (show isDigit '.' = false by decide)
  have hdecimal : signedDecimal? ('-' :: cs) = some (-nearestDouble ⟨accumulate 0 cs, 0⟩) := by
    change (Decimal.fractional? cs).map _ = _
    rw [Decimal.fractional?_of_digits hne hcs, Option.map_some]
  have hbare : withoutPlus ('-' :: cs) = '-' :: cs := rfl
  rw [real?_eq_signedDecimal? (by simp) (by rwa [hbare]), hbare, hdecimal]
  exact Option.filter_some_pos (Numeric.isFinite_nearestDouble hn).2

end Digits

/-! ### Ordinary scalars -/

theorem digits_of_unsigned? (h : unsigned? text = some n)
    (hbase : namesBase (withoutSign text) = false) :
    ∃ cs, Decimal.digits? 10 cs = some n ∧ (text = cs ∨ text = '+' :: cs) := by
  unfold unsigned? withoutPlus at h
  -- a sign is taken off, and another one after it is refused
  split at h
  · cases h
  · split at h
    · next rest _ =>
      -- behind a plus sign
      change namesBase rest = false at hbase
      rw [based?_of_namesBase hbase] at h
      exact ⟨rest, h, .inr rfl⟩
    · next hplus =>
      refine ⟨text, ?_, .inl rfl⟩
      unfold withoutSign at hbase
      split at hbase
      · exact absurd rfl (hplus _)
      · -- no integer without a sign has a minus sign
        rwa [based?_of_namesBase rfl] at h
      · rwa [based?_of_namesBase hbase] at h

theorem digits_of_negative? (h : negative? text = some n)
    (hbase : namesBase (withoutSign text) = false) :
    ∃ cs, Decimal.digits? 10 cs = some n ∧ text = '-' :: cs := by
  unfold negative? at h
  split at h
  · next rest =>
    split at h
    · cases h
    · change namesBase rest = false at hbase
      rw [based?_of_namesBase hbase] at h
      exact ⟨rest, h, rfl⟩
  · cases h

theorem real?_of_unsigned? (h : unsigned? text = some n)
    (hbase : namesBase (withoutSign text) = false) (hn : n ≤ 2 ^ 53) :
    real? text = some (nearestDouble ⟨n, 0⟩) := by
  obtain ⟨cs, hdigits, htext⟩ := digits_of_unsigned? h hbase
  obtain ⟨hne, hcs, rfl⟩ := Decimal.digits?_eq_some hdigits
  obtain rfl | rfl := htext
  · exact real?_of_digits hne hcs hn
  · exact real?_of_plus hne hcs hn

theorem real?_of_negative? (h : negative? text = some n)
    (hbase : namesBase (withoutSign text) = false) (hn : n ≤ 2 ^ 53) :
    real? text = some (-nearestDouble ⟨n, 0⟩) := by
  obtain ⟨cs, hdigits, rfl⟩ := digits_of_negative? h hbase
  obtain ⟨hne, hcs, rfl⟩ := Decimal.digits?_eq_some hdigits
  exact real?_of_minus hne hcs hn

open Content (null? bool? integer ofPlain? ofScalar?)

theorem real?_of_null? {s : String} {c : Content} (h : null? s = some c) :
    real? s.toList = none ∧ c.single? = none := by
  unfold null? at h
  split at h
  · next hword =>
    obtain rfl := Option.some.inj h
    -- words, none of which is a decimal
    obtain rfl | rfl | rfl | rfl := hword <;> exact ⟨by decide, rfl⟩
  · cases h

theorem real?_of_bool? {s : String} {c : Content} (h : bool? s = some c) :
    real? s.toList = none ∧ c.single? = none := by
  unfold bool? at h
  split at h
  · next hword =>
    obtain rfl := Option.some.inj h
    obtain rfl | rfl | rfl := hword <;> exact ⟨by decide, rfl⟩
  · split at h
    · next hword =>
      obtain rfl := Option.some.inj h
      obtain rfl | rfl | rfl := hword <;> exact ⟨by decide, rfl⟩
    · cases h

/-- **An integer of at most 53 bits** is the same number as a decimal. -/
theorem Scalar.IsOrdinary.single?_integer {s : Scalar} (h : s.IsOrdinary) {c : Content}
    (hc : integer s.text.toList = .fits c) :
    c.single? = (real? s.text.toList).map Numeric.narrow := by
  unfold integer at hc
  split at hc
  · -- a natural number, which 64 bits have room for
    next n hnatural =>
    have hn := h.natural_le n hnatural
    have hfits : n < UInt64.size := by
      change n < 18446744073709551616
      omega
    rw [if_pos hfits] at hc
    obtain rfl := Content.Integer.fits.inj hc
    rw [real?_of_unsigned? hnatural h.decimal hn, Option.map_some, Numeric.narrow_nearestDouble hn]
    rfl
  · -- a number below zero, whose size is kept in 64 bits
    next n _ hnegative =>
    obtain ⟨hpos, hn⟩ := h.negative_le n hnegative
    have hfits : n ≤ Nat.pow 2 63 := by
      change n ≤ 9223372036854775808
      omega
    rw [if_pos hfits] at hc
    obtain rfl := Content.Integer.fits.inj hc
    rw [real?_of_negative? hnegative h.decimal hn, Option.map_some,
      Numeric.narrow_neg_nearestDouble hpos hn]
    -- the content keeps a negative number by its size, and minus zero would be zero
    have hne : UInt64.ofNat n ≠ 0 := by
      intro hzero
      have hnat : (UInt64.ofNat n).toNat = n :=
        UInt64.toNat_ofNat_of_lt (by change n < 18446744073709551616; omega)
      rw [hzero] at hnat
      exact hpos.ne hnat
    change some (if UInt64.ofNat n = 0 then 0 else -(UInt64.ofNat n).toFloat32) = _
    rw [if_neg hne]
  · cases hc

/-- **An ordinary plain scalar** is the same number with a type and without. -/
theorem Scalar.IsOrdinary.single?_ofPlain? {s : Scalar} (h : s.IsOrdinary) {c : Content}
    (hc : ofPlain? s.text = some c) : c.single? = (real? s.text.toList).map Numeric.narrow := by
  -- in the order in which it is taken for things: nothing, a word, an integer, a decimal
  unfold ofPlain? at hc
  split at hc
  · next hempty =>
    -- nothing is written
    obtain rfl := Option.some.inj hc
    rw [String.isEmpty_iff.mp hempty]
    decide
  · split at hc
    · next hnull =>
      obtain rfl := Option.some.inj hc
      obtain ⟨hreal, hsingle⟩ := real?_of_null? hnull
      rw [hreal, hsingle, Option.map_none]
    · next hbool =>
      obtain rfl := Option.some.inj hc
      obtain ⟨hreal, hsingle⟩ := real?_of_bool? hbool
      rw [hreal, hsingle, Option.map_none]
    · simp only at hc
      split at hc
      · next value hinteger =>
        obtain rfl := Option.some.inj hc
        exact h.single?_integer hinteger
      · cases hc
      · -- what is no integer is a decimal or a text
        rw [if_neg (by rw [h.unpadded]; decide)] at hc
        split at hc
        · next x hreal =>
          obtain rfl := Option.some.inj hc
          rw [hreal]
          rfl
        · next hreal =>
          obtain rfl := Option.some.inj hc
          rw [hreal]
          rfl

theorem Scalar.IsOrdinary.single?_ofScalar? {s : Scalar} (h : s.IsOrdinary) {c : Content}
    (hc : ofScalar? s = some c) :
    c.single? =
      if Node.mayBe "float" s then (real? s.text.toList).map Numeric.narrow else none := by
  unfold ofScalar? at hc
  simp only [h.untagged] at hc
  unfold Node.mayBe
  rw [h.untagged]
  -- without a tag the style tells what it may be
  split at hc
  · next hplain =>
    rw [h.single?_ofPlain? hc]
    simp [hplain]
  · next hquoted =>
    -- a scalar in quotes or on lines of its own is a text
    obtain rfl := Option.some.inj hc
    simp [hquoted, Content.single?]

/-! ### Contents of scalars -/

/-- Contents that are no collection, and whose text is the given one if they are a text. -/
def Content.IsAtom (written : String) : Content → Prop
  | .text t => t = written
  | .sequence _ | .mapping _ => False
  | _ => True

theorem isAtom_null? {s : String} (h : Content.null? s = some content) : content.IsAtom s := by
  unfold Content.null? at h
  split at h <;> cases h
  trivial

theorem isAtom_bool? {s : String} (h : Content.bool? s = some content) : content.IsAtom s := by
  unfold Content.bool? at h
  split at h
  · cases h
    trivial
  · split at h <;> cases h
    trivial

theorem isAtom_integer {text : List Char} {s : String} (h : Content.integer text = .fits content) :
    content.IsAtom s := by
  unfold Content.integer at h
  -- an integer that fits is a number, whether it is below zero or not
  split at h
  · split at h
    · cases h
      trivial
    · split at h <;> cases h
  · split at h
    · cases h
      trivial
    · split at h <;> cases h
  · cases h

theorem isAtom_ofPlain? {s : String} (h : Content.ofPlain? s = some content) :
    content.IsAtom s := by
  unfold Content.ofPlain? at h
  -- the same order again; only what is nothing else is a text
  split at h
  · cases h
    trivial
  · split at h
    · next hnull => exact isAtom_null? (hnull.trans h)
    · next hbool => exact isAtom_bool? (hbool.trans h)
    · simp only at h
      split at h
      · next hinteger =>
        cases h
        exact isAtom_integer hinteger
      · cases h
      · split at h
        · cases h
          rfl
        · split at h
          · cases h
            trivial
          · cases h
            rfl

theorem isAtom_ofTagged? {tag : Tag} {s : String} (h : Content.ofTagged? tag s = some content) :
    content.IsAtom s := by
  unfold Content.ofTagged? at h
  -- by the tag, each with a reader of its own
  split at h
  · exact isAtom_bool? h
  · split at h
    · split at h
      · next hinteger =>
        cases h
        exact isAtom_integer hinteger
      · cases h
    · split at h
      · obtain ⟨x, -, rfl⟩ := Option.map_eq_some_iff.mp h
        trivial
      · split at h
        · exact isAtom_null? h
        · cases h
          rfl

theorem isAtom_ofScalar? {s : Scalar} (h : Content.ofScalar? s = some content) :
    content.IsAtom s.text := by
  have huntagged :
      (if s.style = .plain then Content.ofPlain? s.text else some (.text s.text)) = some content →
        content.IsAtom s.text := by
    intro h
    split at h
    · exact isAtom_ofPlain? h
    · cases h
      rfl
  unfold Content.ofScalar? at h
  simp only at h
  split at h
  · exact huntagged h
  · split at h
    · exact isAtom_ofTagged? h
    · split at h
      · cases h
      · exact huntagged h

end Skirmish.Yaml
