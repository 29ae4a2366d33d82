import Mathlib
import Skirmish.Decimal
import Skirmish.Json

/-!
# Digits and literals

The decimal digits of a number are those that it is read from again, alone or as a part of a
numeral:

* `accumulate_digitText` — digits and the number that they are read as;
* `Numeral.ofLiteral?_literal` — the parts of a numeral are read from their text.
-/

/-! ## Digits

The decimal digits of a number are those that it is read from again, and the first one is no zero
unless the number is.

* `isDigit_of_mem_digitText` and `head?_digitText_ne` — what the digits of a number look like;
* `accumulate_digitText` — the number that they are read as;
* `accumulate_replicate` and `accumulate_append` — zeros behind them, and digits in general;
* `digits?_eq_some` and `fractional?_of_digits` — texts of digits, as whole numbers and as decimals.
-/

namespace Skirmish.Decimal

variable {n a : ℕ} {c : Char} {cs ds : List Char}

theorem isDigit_eq (c : Char) : isDigit c = c.isDigit := by
  unfold isDigit Char.isDigit
  rw [Bool.and_comm, Bool.and_comm (decide (c.val ≥ _))]
  rfl

theorem ne_of_isDigit (h : isDigit c = true) {d : Char} (hd : isDigit d = false) : c ≠ d := by
  rintro rfl
  rw [h] at hd
  cases hd

/-! ### The digits of a number -/

theorem isDigit_of_mem_digitText (h : c ∈ digitText n) : isDigit c = true := by
  rw [isDigit_eq]
  exact Nat.isDigit_of_mem_toDigits (by decide) (by decide) h

theorem digitText_ne_nil : digitText n ≠ [] :=
  Nat.toDigits_ne_nil

theorem length_digitText_pos : 0 < (digitText n).length :=
  Nat.length_toDigits_pos

theorem head?_digitText_ne (hn : n ≠ 0) : (digitText n).head? ≠ some '0' := by
  -- on the number; its digits are those of a tenth and one more
  induction n using Nat.strongRecOn with
  | ind n ih =>
    rw [digitText, Nat.toDigits_eq_if (by decide)]
    split
    · next hsmall =>
      rw [List.head?_cons]
      interval_cases n <;> first
      | exact absurd rfl hn
      | decide
    · -- the first digit is that of a tenth
      have hfirst := ih (n / 10) (by omega) (by omega)
      rw [List.head?_append_of_ne_nil _ Nat.toDigits_ne_nil]
      exact hfirst

/-- Numbers below a power of ten have so many digits at most. -/
theorem length_digitText_le {k : ℕ} (hk : 0 < k) : (digitText n).length ≤ k ↔ n < 10 ^ k :=
  Nat.length_toDigits_le_iff (by decide) hk

/-! ### The number that digits are read as -/

theorem accumulate_append (start : ℕ) (cs ds : List Char) :
    accumulate start (cs ++ ds) = accumulate (accumulate start cs) ds :=
  List.foldl_append

theorem accumulate_eq_ofDigitChars (start : ℕ) (cs : List Char) :
    accumulate start cs = Nat.ofDigitChars 10 cs start :=
  Nat.ofDigitChars_eq_foldl.symm

theorem accumulate_digitText (n : ℕ) : accumulate 0 (digitText n) = n := by
  rw [accumulate_eq_ofDigitChars]
  exact Nat.ofDigitChars_ten_toDigits

theorem accumulate_replicate (start k : ℕ) :
    accumulate start (List.replicate k '0') = start * 10 ^ k := by
  rw [accumulate_eq_ofDigitChars, Nat.ofDigitChars_replicate_zero, Nat.mul_comm]

theorem le_accumulate (start : ℕ) (cs : List Char) : start ≤ accumulate start cs := by
  -- on the digits; each one makes the number at least ten times as large
  induction cs generalizing start with
  | nil => exact le_rfl
  | cons c cs ih =>
    have hstep : start ≤ 10 * start + (c.toNat - 48) := by omega
    exact hstep.trans (ih _)

theorem span_digits (hds : ∀ c ∈ ds, isDigit c = true) (hcs : ∀ c ∈ cs.head?, isDigit c = false) :
    (ds ++ cs).takeWhile isDigit = ds ∧ (ds ++ cs).dropWhile isDigit = cs := by
  rw [List.takeWhile_append_of_pos hds, List.dropWhile_append_of_pos hds]
  cases cs with
  | nil => simp
  | cons c cs =>
    have hc : isDigit c = false := hcs c rfl
    simp [hc]

/-! ### Texts of digits -/

theorem digitValue?_eq_some {d : ℕ} (h : digitValue? c = some d) (hd : d < 10) :
    isDigit c = true ∧ d = c.toNat - 48 := by
  unfold digitValue? at h
  split at h
  · next hc =>
    obtain rfl := Option.some.inj h
    exact ⟨by simpa [isDigit] using hc, rfl⟩
  · -- letters are worth ten and more
    split at h
    · next hc =>
      have hlow : 97 ≤ c.toNat := hc.1
      obtain rfl := Option.some.inj h
      omega
    · split at h
      · next hc =>
        have hlow : 65 ≤ c.toNat := hc.1
        obtain rfl := Option.some.inj h
        omega
      · cases h

theorem accumulate_of_foldlM {start : ℕ}
    (h : cs.foldlM (fun n c => (digitValue? c).bind fun d =>
      if d < 10 then some (10 * n + d) else none) start = some n) :
    (∀ c ∈ cs, isDigit c = true) ∧ accumulate start cs = n := by
  -- on the signs; each of them that is taken is a digit
  induction cs generalizing start with
  | nil => exact ⟨by simp, Option.some.inj h⟩
  | cons c cs ih =>
    rw [List.foldlM_cons, Option.bind_eq_bind, Option.bind_eq_some_iff] at h
    obtain ⟨next, hnext, hrest⟩ := h
    obtain ⟨d, hd, hnext⟩ := Option.bind_eq_some_iff.mp hnext
    split at hnext
    · next hten =>
      obtain rfl := Option.some.inj hnext
      obtain ⟨hc, rfl⟩ := digitValue?_eq_some hd hten
      obtain ⟨hcs, hvalue⟩ := ih hrest
      exact ⟨List.forall_mem_cons.mpr ⟨hc, hcs⟩, hvalue⟩
    · cases hnext

theorem digits?_eq_some (h : digits? 10 cs = some n) :
    cs ≠ [] ∧ (∀ c ∈ cs, isDigit c = true) ∧ accumulate 0 cs = n := by
  unfold digits? at h
  split at h
  · cases h
  · next hne => exact ⟨by simpa using hne, accumulate_of_foldlM h⟩

theorem fractional?_of_digits (hne : cs ≠ []) (hcs : ∀ c ∈ cs, isDigit c = true) :
    fractional? cs = some ⟨accumulate 0 cs, 0⟩ := by
  have hspan := span_digits hcs (show ∀ c ∈ ([] : List Char).head?, isDigit c = false by simp)
  rw [List.append_nil] at hspan
  unfold fractional?
  rw [hspan.1, hspan.2]
  simp [hne, exponent?, accumulate]

end Skirmish.Decimal

/-! ## The literals of numbers

A numeral's parts are read from its literal if they are those of a number: digits where digits have
to be, and no zero in front of others.

* `Numeral.literal` — the text of the parts;
* `Numeral.Proper` — parts that make a number;
* `ofLiteral?_literal` — they are read from their text;
* `isNumberChar_of_mem_literal` and `literal_ne_nil` — what the text looks like;
* `absorb_eq` and `natural?_ofNat` — 64-bit integers are read from their digits.

Each part ends where a sign stands that cannot belong to it, so the parts are found one after the
other.
-/

namespace Skirmish.Json

open Decimal (isDigit digitText accumulate)

namespace Numeral

/-- A row of digits, not empty. -/
structure Digits (ds : List Char) : Prop where
  /-- There is one. -/
  ne_nil : ds ≠ []
  /-- There are only digits. -/
  isDigit : ∀ c ∈ ds, isDigit c = true

def exponentLiteral : Option Exponent → List Char
  | none => []
  | some e => 'e' :: (if e.negative then '-' :: e.digits else e.digits)

def fractionLiteral : Option (List Char) → List Char
  | none => []
  | some ds => '.' :: ds

/-- **The text of a number's parts.** -/
def literal (n : Numeral) : List Char :=
  (if n.negative then ['-'] else []) ++
    (n.whole ++ (fractionLiteral n.fraction ++ exponentLiteral n.exponent))

/-- **Parts that make a number.** -/
structure Proper (n : Numeral) : Prop where
  /-- There are digits in front. -/
  whole : Digits n.whole
  /-- A zero stands alone. -/
  zero : n.whole.head? = some '0' → n.whole.length = 1
  /-- There are digits behind the point. -/
  fraction : ∀ ds ∈ n.fraction, Digits ds
  /-- There are digits in the exponent. -/
  exponent : ∀ e ∈ n.exponent, Digits e.digits

/-! ### Reading the parts -/

variable {ds cs : List Char} {n : Numeral}

theorem Digits.exists_eq_cons (h : Digits ds) :
    ∃ c cs, ds = c :: cs ∧ Decimal.isDigit c = true := by
  cases ds with
  | nil => exact absurd rfl h.ne_nil
  | cons c cs => exact ⟨c, cs, rfl, h.isDigit c List.mem_cons_self⟩

theorem digits?_append (h : Digits ds) (hcs : ∀ c ∈ cs.head?, Decimal.isDigit c = false) :
    digits? (ds ++ cs) = some (ds, cs) := by
  obtain ⟨htake, hdrop⟩ := Decimal.span_digits h.isDigit hcs
  unfold digits?
  rw [htake, hdrop, if_neg (by simpa using h.ne_nil)]

theorem head?_exponentLiteral (e : Option Exponent) :
    ∀ c ∈ (exponentLiteral e).head?, Decimal.isDigit c = false := by
  cases e with
  | none => simp [exponentLiteral]
  | some e =>
    rintro _ ⟨⟩
    rfl

theorem head?_fractionLiteral (f : Option (List Char)) (e : Option Exponent) :
    ∀ c ∈ (fractionLiteral f ++ exponentLiteral e).head?, Decimal.isDigit c = false := by
  cases f with
  | none => exact head?_exponentLiteral e
  | some ds =>
    rintro _ ⟨⟩
    rfl

theorem whole?_append (h : n.Proper) (hcs : ∀ c ∈ cs.head?, Decimal.isDigit c = false) :
    whole? (n.whole ++ cs) = some (n.whole, cs) := by
  have hzero : ¬ (n.whole.head? = some '0' ∧ n.whole.length ≠ 1) := fun hz => hz.2 (h.zero hz.1)
  simp [whole?, digits?_append h.whole hcs, hzero]

theorem fraction?_literal {f : Option (List Char)} (h : ∀ ds ∈ f, Digits ds) (e : Option Exponent) :
    fraction? (fractionLiteral f ++ exponentLiteral e) = some (f, exponentLiteral e) := by
  cases f with
  | none => cases e <;> rfl
  | some ds =>
    have hdigits := digits?_append (h ds rfl) (head?_exponentLiteral e)
    simp [fractionLiteral, fraction?, hdigits]

theorem exponent?_literal {e : Option Exponent} (h : ∀ e' ∈ e, Digits e'.digits) :
    exponent? (exponentLiteral e) = some (e, []) := by
  cases e with
  | none => rfl
  | some e =>
    have hdigits : digits? (e.digits ++ []) = some (e.digits, []) :=
      digits?_append (h e rfl) (by simp)
    rw [List.append_nil] at hdigits
    obtain ⟨c, cs, hcons, hc⟩ := (h e rfl).exists_eq_cons
    obtain ⟨negative, digits⟩ := e
    -- a minus is written, but a plus is not
    cases negative with
    | true => simp [exponentLiteral, exponent?, exponentSign, hdigits]
    | false =>
      -- the first digit is no sign
      have hsign : exponentSign digits = (false, digits) := by
        have hminus := Decimal.ne_of_isDigit hc (d := '-') rfl
        have hplus := Decimal.ne_of_isDigit hc (d := '+') rfl
        simp only at hcons
        rw [hcons]
        unfold exponentSign
        split <;> simp_all
      simp [exponentLiteral, exponent?, hsign, hdigits]

theorem ofLiteral?_literal (h : n.Proper) : ofLiteral? n.literal = some n := by
  have hparts : unsigned? n.negative
      (n.whole ++ (fractionLiteral n.fraction ++ exponentLiteral n.exponent)) = some n := by
    simp [unsigned?, whole?_append h (head?_fractionLiteral _ _), fraction?_literal h.fraction,
      exponent?_literal h.exponent]
  unfold literal
  -- without a minus the reader has to see that the first digit is none
  cases hnegative : n.negative with
  | true =>
    rw [hnegative] at hparts
    exact hparts
  | false =>
    rw [hnegative] at hparts
    obtain ⟨c, cs, hcons, hc⟩ := h.whole.exists_eq_cons
    have hminus := Decimal.ne_of_isDigit hc (d := '-') rfl
    rw [hcons] at hparts ⊢
    unfold ofLiteral?
    split
    · simp_all
    · exact hparts

/-! ### What a literal looks like -/

theorem isNumberChar_of_isDigit {c : Char} (h : Decimal.isDigit c = true) :
    isNumberChar c = true := by
  simp [isNumberChar, h]

theorem isNumberChar_of_mem_literal (h : n.Proper) : ∀ c ∈ n.literal, isNumberChar c = true := by
  -- part by part: digits, the point, the sign of the exponent
  have hwhole : ∀ c ∈ n.whole, isNumberChar c = true :=
    fun c hc => isNumberChar_of_isDigit (h.whole.isDigit c hc)
  have hfraction : ∀ c ∈ fractionLiteral n.fraction, isNumberChar c = true := by
    cases hf : n.fraction with
    | none => simp [fractionLiteral]
    | some ds =>
      intro c hc
      obtain rfl | hc := List.mem_cons.mp hc
      · rfl
      · exact isNumberChar_of_isDigit ((h.fraction ds hf).isDigit c hc)
  have hexponent : ∀ c ∈ exponentLiteral n.exponent, isNumberChar c = true := by
    cases he : n.exponent with
    | none => simp [exponentLiteral]
    | some e =>
      have hdigits : ∀ c ∈ e.digits, isNumberChar c = true :=
        fun c hc => isNumberChar_of_isDigit ((h.exponent e he).isDigit c hc)
      intro c hc
      obtain rfl | hc := List.mem_cons.mp hc
      · rfl
      · split at hc
        · obtain rfl | hc := List.mem_cons.mp hc
          · rfl
          · exact hdigits c hc
        · exact hdigits c hc
  intro c hc
  unfold literal at hc
  simp only [List.mem_append] at hc
  obtain hc | hc | hc | hc := hc
  · split at hc
    · obtain rfl := List.mem_singleton.mp hc
      rfl
    · exact absurd hc List.not_mem_nil
  · exact hwhole c hc
  · exact hfraction c hc
  · exact hexponent c hc

theorem literal_ne_nil (h : n.Proper) : n.literal ≠ [] := by
  have hwhole := h.whole.ne_nil
  unfold literal
  simp [hwhole]

/-! ### Integers -/

theorem absorb_eq {start : ℕ} (h : accumulate start ds < UInt64.size) :
    absorb start ds = (accumulate start ds, 0) := by
  -- on the digits; what fits in the end fits at each of them
  induction ds generalizing start with
  | nil => rfl
  | cons c cs ih =>
    change accumulate (10 * start + (c.toNat - 48)) cs < UInt64.size at h
    have hnext := Decimal.le_accumulate (10 * start + (c.toNat - 48)) cs
    rw [absorb, if_pos (by omega), ih h]
    rfl

/-- The numeral of a natural number. -/
def ofNat (n : ℕ) : Numeral :=
  ⟨false, digitText n, none, none⟩

theorem digits_digitText (n : ℕ) : Digits (digitText n) :=
  ⟨Decimal.digitText_ne_nil, fun _ hc => Decimal.isDigit_of_mem_digitText hc⟩

theorem length_digitText_of_head? {n : ℕ} (h : (digitText n).head? = some '0') :
    (digitText n).length = 1 := by
  obtain rfl : n = 0 := by
    by_contra hn
    exact Decimal.head?_digitText_ne hn h
  rfl

theorem proper_ofNat (n : ℕ) : (ofNat n).Proper where
  whole := digits_digitText n
  zero := length_digitText_of_head?
  fraction := by simp [ofNat]
  exponent := by simp [ofNat]

theorem literal_ofNat (n : ℕ) : (ofNat n).literal = digitText n := by
  simp [literal, ofNat, fractionLiteral, exponentLiteral]

theorem natural?_ofNat (n : UInt64) : (ofNat n.toNat).natural? = some n := by
  have hn : accumulate 0 (digitText n.toNat) < UInt64.size := by
    rw [Decimal.accumulate_digitText]
    exact n.toNat_lt
  have hinteger : (ofNat n.toNat).integer? = some n.toNat := by
    unfold integer? ofNat
    rw [absorb_eq hn, Decimal.accumulate_digitText]
    rfl
  rw [natural?, hinteger]
  simp [ofNat]

end Numeral

end Skirmish.Json
