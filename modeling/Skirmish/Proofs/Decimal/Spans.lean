import Mathlib
import Skirmish.Decimal
import Skirmish.Proofs.Numeric.Patterns

/-!
# The spans of numbers

The pick on a grid is one of the two grid points around the number, and there is one as soon as a
step is no longer than the span. So the search ends, with a decimal inside the span whose next
coarser grid has steps as long as the span.

* `exists_scales` — a grid step and a unit in a common measure;
* `Span.Inside` — the reals of a span;
* `Span.pick?_cases` — everything that a pick can be;
* `Span.search_spec` — the search ends with the first pick;
* `Span.around` — the span of a mantissa and an exponent;
* `digits_pos_of_inside`, `value_le_of_inside` and `exponent_lt_of_inside` — the decimals inside it;
* `Shortest` and `shortest_around` — the one that is found.
-/

namespace Skirmish.Decimal

open Numeric

/-- The number that a decimal stands for. -/
def value (d : Decimal) : ℚ :=
  d.digits * 10 ^ d.exponent

theorem zpow_eq_div {a : ℚ} (ha : a ≠ 0) (k : ℤ) : a ^ k = a ^ k.toNat / a ^ (-k).toNat := by
  rw [← zpow_natCast, ← zpow_natCast, ← zpow_sub₀ ha]
  congr 1
  omega

theorem ten_zpow (k : ℤ) : (10 : ℚ) ^ k = 5 ^ k * 2 ^ k := by
  rw [← mul_zpow]
  norm_num

theorem exists_scales (g unit : ℤ) :
    ∃ c : ℚ, 0 < c ∧ (10 : ℚ) ^ g = c * (scales g unit).1 ∧
      (2 : ℚ) ^ unit = c * (scales g unit).2 := by
  -- negative powers of either base go into the measure
  refine ⟨1 / (10 ^ (-g).toNat * 2 ^ (-unit).toNat), by positivity, ?_, ?_⟩
  · rw [zpow_eq_div (by norm_num) g]
    change _ = _ * ((10 ^ g.toNat * 2 ^ (-unit).toNat : ℕ) : ℚ)
    push_cast
    field_simp
  · rw [zpow_eq_div (by norm_num) unit]
    change _ = _ * ((10 ^ (-g).toNat * 2 ^ unit.toNat : ℕ) : ℚ)
    push_cast
    field_simp

namespace Span

/-- **The reals of a span.** -/
def Inside (s : Span) (v : ℚ) : Prop :=
  if s.closed then size s.lower s.unit ≤ v ∧ v ≤ size s.upper s.unit
  else size s.lower s.unit < v ∧ v < size s.upper s.unit

variable {s : Span} {tie : Tie} {g : ℤ} {n : ℕ} {v : ℚ}

theorem Inside.ge (h : s.Inside v) : size s.lower s.unit ≤ v := by
  unfold Inside at h
  split at h
  · exact h.1
  · exact h.1.le

theorem Inside.le (h : s.Inside v) : v ≤ size s.upper s.unit := by
  unfold Inside at h
  split at h
  · exact h.2
  · exact h.2.le

theorem inside_of_lt (hlower : size s.lower s.unit < v) (hupper : v < size s.upper s.unit) :
    s.Inside v := by
  unfold Inside
  split
  · exact ⟨hlower.le, hupper.le⟩
  · exact ⟨hlower, hupper⟩

/-- An end is inside only if both are. -/
theorem Inside.closed_of_eq (h : s.Inside v)
    (hend : v = size s.lower s.unit ∨ v = size s.upper s.unit) : s.closed = true := by
  unfold Inside at h
  split at h
  · assumption
  · obtain rfl | rfl := hend
    · exact absurd h.1 (lt_irrefl _)
    · exact absurd h.2 (lt_irrefl _)

theorem contains_iff : s.contains g n = true ↔ s.Inside (n * 10 ^ g) := by
  obtain ⟨c, hc, hstep, hone⟩ := exists_scales g s.unit
  unfold contains Inside
  obtain ⟨step, one, hscales⟩ : ∃ step one, scales g s.unit = (step, one) := ⟨_, _, rfl⟩
  rw [hscales] at hstep hone ⊢
  -- in the common measure comparisons are between integers
  have hle : ∀ k : ℕ, size k s.unit ≤ n * 10 ^ g ↔ k * one ≤ n * step := by
    intro k
    rw [size, hstep, hone, mul_left_comm, mul_left_comm (n : ℚ), mul_le_mul_iff_right₀ hc]
    exact_mod_cast Iff.rfl
  have hge : ∀ k : ℕ, n * 10 ^ g ≤ size k s.unit ↔ n * step ≤ k * one := by
    intro k
    rw [size, hstep, hone, mul_left_comm, mul_left_comm (k : ℚ), mul_le_mul_iff_right₀ hc]
    exact_mod_cast Iff.rfl
  cases s.closed with
  | true => simp only [if_true, Bool.and_eq_true, decide_eq_true_eq, hle, hge]
  | false =>
    simp only [Bool.false_eq_true, if_false, Bool.and_eq_true, decide_eq_true_eq,
      ← not_le, hle, hge]

/-! ### Picks -/

theorem pick?_eq_cases (tie : Tie) {step one k : ℕ} (hscales : scales g s.unit = (step, one))
    (hk : k = s.value * one / step) :
    s.pick? tie g = none ∧ s.contains g k = false ∧ s.contains g (k + 1) = false ∨
      s.pick? tie g = some k ∧ s.contains g k = true ∧
        (s.contains g (k + 1) = true → 2 * (s.value * one - k * step) ≤ step) ∨
      s.pick? tie g = some (k + 1) ∧ s.contains g (k + 1) = true ∧
        (s.contains g k = true → step ≤ 2 * (s.value * one - k * step)) := by
  unfold pick?
  rw [hscales]
  simp only [← hk]
  -- whether the point below is inside, and then the point above
  cases s.contains g k with
  | false => cases s.contains g (k + 1) <;> simp
  | true =>
    cases s.contains g (k + 1) with
    | false => simp
    | true =>
      cases hcompare : compare (2 * (s.value * one - k * step)) step with
      | lt => exact .inr (.inl ⟨rfl, rfl, fun _ => (compare_lt_iff_lt.mp hcompare).le⟩)
      | gt => exact .inr (.inr ⟨rfl, rfl, fun _ => (compare_gt_iff_gt.mp hcompare).le⟩)
      | eq =>
        -- both are equally near, so it does not matter which one it is
        have htie := compare_eq_iff_eq.mp hcompare
        cases tie with
        | away => exact .inr (.inr ⟨rfl, rfl, fun _ => htie.ge⟩)
        | toEven =>
          obtain heven | hodd := Nat.mod_two_eq_zero_or_one k
          · exact .inr (.inl ⟨by simp [heven], rfl, fun _ => htie.le⟩)
          · exact .inr (.inr ⟨by simp [hodd], rfl, fun _ => htie.ge⟩)

/-- **The picks on one grid:** none if neither of the points around the number is inside, else one
that is inside, and that is no farther away than the other one inside. -/
theorem pick?_cases (s : Span) (tie : Tie) (g : ℤ) :
    ∃ k : ℕ, k * 10 ^ g ≤ size s.value s.unit ∧ size s.value s.unit < (k + 1 : ℕ) * 10 ^ g ∧
      (s.pick? tie g = none ∧ ¬ s.Inside (k * 10 ^ g) ∧ ¬ s.Inside ((k + 1 : ℕ) * 10 ^ g) ∨
        s.pick? tie g = some k ∧ s.Inside (k * 10 ^ g) ∧
          (s.Inside ((k + 1 : ℕ) * 10 ^ g) → 2 * (size s.value s.unit - k * 10 ^ g) ≤ 10 ^ g) ∨
        s.pick? tie g = some (k + 1) ∧ s.Inside ((k + 1 : ℕ) * 10 ^ g) ∧
          (s.Inside (k * 10 ^ g) → 10 ^ g ≤ 2 * (size s.value s.unit - k * 10 ^ g))) := by
  obtain ⟨c, hc, hstep, hone⟩ := exists_scales g s.unit
  obtain ⟨step, one, hscales⟩ : ∃ step one, scales g s.unit = (step, one) := ⟨_, _, rfl⟩
  rw [hscales] at hstep hone
  simp only at hstep hone
  have hpos : 0 < step := by
    have hten : (0 : ℚ) < c * step := hstep ▸ by positivity
    exact_mod_cast pos_of_mul_pos_right hten hc.le
  obtain ⟨k, hk⟩ : ∃ k, k = s.value * one / step := ⟨_, rfl⟩
  have hbelow : k * step ≤ s.value * one := hk ▸ Nat.div_mul_le_self _ _
  have habove : s.value * one < (k + 1) * step := by
    rw [hk, ← Nat.div_lt_iff_lt_mul hpos]
    exact Nat.lt_succ_self _
  -- everything is measured in parts of length `c`
  have hvalue : size s.value s.unit = c * (s.value * one : ℕ) := by
    rw [size, hone]
    push_cast
    ring
  have hpoint : ∀ j : ℕ, (j : ℚ) * 10 ^ g = c * (j * step : ℕ) := by
    intro j
    rw [hstep]
    push_cast
    ring
  -- the distance from the point below, which is what the pick compares with a step
  have hdistance : 2 * (size s.value s.unit - k * 10 ^ g) =
      c * (2 * (s.value * one - k * step) : ℕ) := by
    rw [hvalue, hpoint]
    push_cast [Nat.cast_sub hbelow]
    ring
  have hle : ∀ i j : ℕ, c * (i : ℚ) ≤ c * j ↔ i ≤ j := by
    intro i j
    rw [mul_le_mul_iff_right₀ hc]
    exact_mod_cast Iff.rfl
  have hcases := pick?_eq_cases tie hscales hk
  simp only [← Bool.not_eq_true, contains_iff] at hcases
  refine ⟨k, ?_, ?_, ?_⟩
  · rw [hvalue, hpoint]
    exact mul_le_mul_of_nonneg_left (by exact_mod_cast hbelow) hc.le
  · rw [hvalue, hpoint]
    exact mul_lt_mul_of_pos_left (by exact_mod_cast habove) hc
  · rw [hdistance, hstep, hle, hle, ← hstep]
    exact hcases

/-- A span around its number. -/
structure Proper (s : Span) : Prop where
  /-- The lower end is below. -/
  lower_lt : size s.lower s.unit < size s.value s.unit
  /-- The upper end is above. -/
  lt_upper : size s.value s.unit < size s.upper s.unit

theorem Proper.inside (h : s.Proper) : s.Inside (size s.value s.unit) :=
  inside_of_lt h.lower_lt h.lt_upper

theorem Proper.le_lower (h : s.Proper) (hv : v ≤ size s.value s.unit) (hout : ¬ s.Inside v) :
    v ≤ size s.lower s.unit := by
  by_contra hlt
  exact hout (inside_of_lt (not_le.mp hlt) (hv.trans_lt h.lt_upper))

theorem Proper.upper_le (h : s.Proper) (hv : size s.value s.unit ≤ v) (hout : ¬ s.Inside v) :
    size s.upper s.unit ≤ v := by
  by_contra hlt
  exact hout (inside_of_lt (h.lower_lt.trans_le hv) (not_le.mp hlt))

theorem inside_of_pick? (h : s.pick? tie g = some n) : s.Inside (n * 10 ^ g) := by
  obtain ⟨k, -, -, ⟨hpick, -⟩ | ⟨hpick, hinside, -⟩ | ⟨hpick, hinside, -⟩⟩ := pick?_cases s tie g
  · cases hpick.symm.trans h
  · obtain rfl := Option.some.inj (hpick.symm.trans h)
    exact hinside
  · obtain rfl := Option.some.inj (hpick.symm.trans h)
    exact hinside

/-- **Without a pick** a step is as long as the span. -/
theorem length_le_of_pick?_eq_none (hs : s.Proper) (h : s.pick? tie g = none) :
    size s.upper s.unit - size s.lower s.unit ≤ 10 ^ g := by
  obtain ⟨k, hbelow, habove, ⟨-, hlow, hhigh⟩ | ⟨hpick, -⟩ | ⟨hpick, -⟩⟩ := pick?_cases s tie g
  · -- both points are outside, so the span is between them
    have hlower := hs.le_lower hbelow hlow
    have hupper := hs.upper_le habove.le hhigh
    push_cast at hupper
    linarith
  · cases h.symm.trans hpick
  · cases h.symm.trans hpick

/-- **In a symmetric span** the pick is at most half a step away. -/
theorem two_mul_abs_le_of_pick? (hs : s.Proper)
    (hsymmetric : size s.upper s.unit - size s.value s.unit =
      size s.value s.unit - size s.lower s.unit)
    (h : s.pick? tie g = some n) : 2 * |n * 10 ^ g - size s.value s.unit| ≤ 10 ^ g := by
  obtain ⟨k, hbelow, habove, ⟨hpick, -⟩ | ⟨hpick, hinside, hnear⟩ | ⟨hpick, hinside, hnear⟩⟩ :=
    pick?_cases s tie g
  · cases hpick.symm.trans h
  · obtain rfl := Option.some.inj (hpick.symm.trans h)
    rw [abs_of_nonpos (by linarith)]
    by_cases hother : s.Inside ((k + 1 : ℕ) * 10 ^ g)
    · have := hnear hother
      linarith
    · -- the other point is beyond the upper end, so the lower end is near
      have hupper := hs.upper_le habove.le hother
      have := hinside.ge
      push_cast at hupper
      linarith
  · obtain rfl := Option.some.inj (hpick.symm.trans h)
    push_cast at habove hinside ⊢
    rw [abs_of_nonneg (by linarith)]
    by_cases hother : s.Inside (k * 10 ^ g)
    · have := hnear hother
      linarith
    · -- the other point is beyond the lower end, so the upper end is near
      have hlower := hs.le_lower hbelow hother
      have := hinside.le
      linarith

theorem pick?_ne_none_of_eq (hs : s.Proper) (h : size s.value s.unit = n * 10 ^ g) :
    s.pick? tie g ≠ none := by
  obtain ⟨k, hbelow, habove, ⟨-, hlow, -⟩ | ⟨hpick, -⟩ | ⟨hpick, -⟩⟩ := pick?_cases s tie g
  · -- the point below the number is the number
    have hten : (0 : ℚ) < 10 ^ g := by positivity
    rw [h] at hbelow habove
    have hle : k ≤ n := by exact_mod_cast le_of_mul_le_mul_right hbelow hten
    have hlt : n < k + 1 := by exact_mod_cast lt_of_mul_lt_mul_right habove hten.le
    obtain rfl : k = n := by omega
    exact absurd (h ▸ hs.inside) hlow
  · simp [hpick]
  · simp [hpick]

theorem search_spec {grids : ℕ} (h : ∃ i < grids, s.pick? tie (g - i) ≠ none) :
    s.pick? tie (s.search tie g grids).exponent = some (s.search tie g grids).digits ∧
      ((s.search tie g grids).exponent = g ∨
        s.pick? tie ((s.search tie g grids).exponent + 1) = none) := by
  -- on the grids that are left, for all coarsest grids at once
  induction grids generalizing g with
  | zero =>
    obtain ⟨i, hi, -⟩ := h
    exact absurd hi (Nat.not_lt_zero i)
  | succ grids ih =>
    unfold search
    cases hpick : s.pick? tie g with
    | some n => exact ⟨hpick, .inl rfl⟩
    | none =>
      obtain ⟨i, hi, hsome⟩ := h
      -- this grid has no pick, so the one with a pick is among the others
      have hpos : i ≠ 0 := by
        rintro rfl
        rw [Nat.cast_zero, sub_zero] at hsome
        exact hsome hpick
      have hnext : g - 1 - (i - 1 : ℕ) = g - i := by omega
      obtain ⟨hfound, hfirst⟩ := ih ⟨i - 1, by omega, hnext ▸ hsome⟩
      refine ⟨hfound, .inr ?_⟩
      obtain heq | hnone := hfirst
      · simp only
        rw [heq, sub_add_cancel, hpick]
      · exact hnone

/-! ### The span of a number -/

/-- **The span of a mantissa and an exponent.** -/
def around (m : ℕ) (e : ℤ) : Span where
  lower := 4 * m - (if m == 0x800000 && Layout.single.floorExponent < e then 1 else 2)
  value := 4 * m
  upper := 4 * m + 2
  unit := e - 2
  closed := m % 2 == 0

theorem ofSingle_eq {x : Float32} {sign : Float.Model.UnpackedFloat.Sign} {m : ℕ} {e : ℤ}
    {hm : 0 < m} (h : x.toModel.unpack = .finite sign m e hm) : ofSingle x = around m e := by
  unfold ofSingle
  rw [exactSingle_eq h]
  rfl

variable {m : ℕ} {e : ℤ}

theorem quarter (k : ℕ) (e : ℤ) : size k (e - 2) = k / 4 * 2 ^ e := by
  rw [size, zpow_sub₀ (by norm_num)]
  ring

theorem value_around (m : ℕ) (e : ℤ) : size (around m e).value (around m e).unit = size m e := by
  change size (4 * m) (e - 2) = _
  rw [quarter, size]
  push_cast
  ring

theorem upper_around (m : ℕ) (e : ℤ) :
    size (around m e).upper (around m e).unit = (m + 1 / 2) * 2 ^ e := by
  change size (4 * m + 2) (e - 2) = _
  rw [quarter]
  push_cast
  ring

/-- Below the first number of a size the end is half as far away. -/
theorem lower_around_first (he : -149 < e) :
    size (around (2 ^ 23) e).lower (around (2 ^ 23) e).unit = ((2 ^ 23 : ℕ) - 1 / 4) * 2 ^ e := by
  have hlower : (around (2 ^ 23) e).lower = 4 * 2 ^ 23 - 1 := by
    unfold around
    simp only
    rw [decide_eq_true (show Layout.single.floorExponent < e from he)]
    rfl
  rw [hlower]
  change size (4 * 2 ^ 23 - 1) (e - 2) = _
  rw [quarter]
  norm_num

theorem lower_eq (h : m ≠ 2 ^ 23 ∨ e = -149) : (around m e).lower = 4 * m - 2 := by
  have hnot : (m == 0x800000 && decide (Layout.single.floorExponent < e)) = false := by
    obtain h | rfl := h
    · rw [beq_false_of_ne (show m ≠ 0x800000 from h), Bool.false_and]
    · rw [decide_eq_false (show ¬ Layout.single.floorExponent < -149 by decide), Bool.and_false]
  unfold around
  simp only
  rw [hnot]
  rfl

theorem lower_around (hm : 0 < m) (h : m ≠ 2 ^ 23 ∨ e = -149) :
    size (around m e).lower (around m e).unit = (m - 1 / 2) * 2 ^ e := by
  rw [lower_eq h]
  change size (4 * m - 2) (e - 2) = _
  rw [quarter, Nat.cast_sub (by omega)]
  push_cast
  ring

theorem size_upper (m : ℕ) (e : ℤ) :
    size (around m e).upper (e - 2) = size (2 * m + 1) (e - 1) := by
  rw [size_eq_of_le (2 * m + 1) (show e - 2 ≤ e - 1 by omega),
    show (e - 1 - (e - 2)).toNat = 1 by omega]
  congr 1
  change 4 * m + 2 = _
  ring

theorem size_lower (h : m ≠ 2 ^ 23 ∨ e = -149) :
    size (around m e).lower (e - 2) = size (2 * m - 1) (e - 1) := by
  rw [size_eq_of_le (2 * m - 1) (show e - 2 ≤ e - 1 by omega),
    show (e - 1 - (e - 2)).toNat = 1 by omega, lower_eq h]
  congr 1
  omega

/-- The lower end is at least a quarter of a unit below the number, and at most half of one. -/
theorem lower_around_mem (hm : 0 < m) (he : -149 ≤ e) :
    (m - 1 / 2) * 2 ^ e ≤ size (around m e).lower (around m e).unit ∧
      size (around m e).lower (around m e).unit ≤ (m - 1 / 4) * 2 ^ e := by
  have hunit : (0 : ℚ) < 2 ^ e := by positivity
  -- half a unit below in a symmetric span, a quarter below at a power of two
  by_cases h : m ≠ 2 ^ 23 ∨ e = -149
  · rw [lower_around hm h]
    exact ⟨le_rfl, mul_le_mul_of_nonneg_right (by linarith) hunit.le⟩
  · obtain ⟨hfirst, hfloor⟩ := not_or.mp h
    obtain rfl := not_not.mp hfirst
    rw [lower_around_first (by omega)]
    exact ⟨mul_le_mul_of_nonneg_right (by linarith) hunit.le, le_rfl⟩

theorem proper_around (hm : 0 < m) (he : -149 ≤ e) : (around m e).Proper := by
  have hunit : (0 : ℚ) < 2 ^ e := by positivity
  refine ⟨?_, ?_⟩
  · rw [value_around, size]
    refine (lower_around_mem hm he).2.trans_lt (mul_lt_mul_of_pos_right ?_ hunit)
    linarith
  · rw [value_around, upper_around, size]
    exact mul_lt_mul_of_pos_right (by linarith) hunit

end Span

/-! ### Decimals inside a span -/

section Decimals

variable {m : ℕ} {e : ℤ} {d : Decimal}

theorem digits_pos_of_inside (h : (Span.around m e).Inside d.value) (hm : 0 < m) (hlow : -149 ≤ e) :
    0 < d.digits := by
  refine Nat.pos_of_ne_zero fun hzero => ?_
  have hunit : (0 : ℚ) < 2 ^ e := by positivity
  have hone : (1 : ℚ) ≤ m := by exact_mod_cast hm
  have hpos : 0 < (m - 1 / 2 : ℚ) * 2 ^ e := mul_pos (by linarith) hunit
  -- the lower end of the span is positive
  have hge := (Span.lower_around_mem hm hlow).1.trans h.ge
  rw [value, hzero, Nat.cast_zero, zero_mul] at hge
  linarith

theorem value_le_of_inside (h : (Span.around m e).Inside d.value) (hm' : m < 2 ^ 24) :
    d.value ≤ 2 ^ 24 * 2 ^ e := by
  have hunit : (0 : ℚ) < 2 ^ e := by positivity
  have hfits : (m : ℚ) + 1 ≤ 2 ^ 24 := by exact_mod_cast hm'
  calc d.value ≤ (m + 1 / 2) * 2 ^ e := Span.upper_around m e ▸ h.le
    _ ≤ 2 ^ 24 * 2 ^ e := mul_le_mul_of_nonneg_right (by linarith) hunit.le

theorem exponent_lt_of_inside (h : (Span.around m e).Inside d.value) (hm : 0 < m) (hm' : m < 2 ^ 24)
    (hlow : -149 ≤ e) (hhigh : e ≤ 104) : d.exponent < 39 := by
  have hdigits : (1 : ℚ) ≤ d.digits := by exact_mod_cast digits_pos_of_inside h hm hlow
  have hpow : (2 : ℚ) ^ e ≤ 2 ^ (104 : ℤ) := zpow_le_zpow_right₀ (by norm_num) hhigh
  have hlarge : (10 : ℚ) ^ d.exponent < 10 ^ (39 : ℤ) :=
    calc (10 : ℚ) ^ d.exponent ≤ d.value := le_mul_of_one_le_left (by positivity) hdigits
      _ ≤ 2 ^ 24 * 2 ^ e := value_le_of_inside h hm'
      _ ≤ 2 ^ 24 * 2 ^ (104 : ℤ) := mul_le_mul_of_nonneg_left hpow (by norm_num)
      _ < 10 ^ (39 : ℤ) := by norm_num
  exact (zpow_lt_zpow_iff_right₀ (by norm_num)).mp hlarge

theorem exists_pick (tie : Tie) (hm : 0 < m) (hlow : -149 ≤ e) :
    ∃ i < (200 : ℕ), (Span.around m e).pick? tie (39 - i) ≠ none := by
  have hproper := Span.proper_around hm hlow
  by_cases he : 0 ≤ e
  · -- an integer
    refine ⟨39, by decide, Span.pick?_ne_none_of_eq hproper (n := m * 2 ^ e.toNat) ?_⟩
    have hpow : (2 : ℚ) ^ e = 2 ^ e.toNat := by rw [← zpow_natCast, Int.toNat_of_nonneg he]
    rw [Span.value_around, size, hpow]
    push_cast
    norm_num
  · -- an integer in units of `10 ^ e`, as `2 ^ e` is one
    refine ⟨(39 - e).toNat, by omega, Span.pick?_ne_none_of_eq hproper (n := m * 5 ^ (-e).toNat) ?_⟩
    have hexponent : (39 : ℤ) - (39 - e).toNat = e := by omega
    have hfive : (5 : ℚ) ^ (-e).toNat * 5 ^ e = 1 := by
      rw [← zpow_natCast, ← zpow_add₀ (by norm_num), Int.toNat_of_nonneg (by omega), neg_add_cancel,
        zpow_zero]
    rw [hexponent, Span.value_around, size, ten_zpow]
    push_cast
    rw [mul_assoc, ← mul_assoc (5 ^ (-e).toNat : ℚ), hfive, one_mul]

/-- **What is found for a number.** -/
structure Shortest (m : ℕ) (e : ℤ) (d : Decimal) : Prop where
  /-- It is inside the number's span. -/
  inside : (Span.around m e).Inside d.value
  /-- Ten steps of its grid are longer than the span. -/
  coarse : 3 / 4 * 2 ^ e ≤ (10 : ℚ) ^ (d.exponent + 1)
  /-- In a symmetric span it is half a step away at most. -/
  near : m ≠ 2 ^ 23 ∨ e = -149 → 2 * |d.value - size m e| ≤ 10 ^ d.exponent

theorem shortest_around (tie : Tie) (hm : 0 < m) (hm' : m < 2 ^ 24) (hlow : -149 ≤ e)
    (hhigh : e ≤ 104) : Shortest m e ((Span.around m e).search tie 39 200) := by
  have hproper := Span.proper_around hm hlow
  obtain ⟨hfound, hfirst⟩ := Span.search_spec (exists_pick tie hm hlow)
  generalize (Span.around m e).search tie 39 200 = d at hfound hfirst
  have hinside : (Span.around m e).Inside d.value := Span.inside_of_pick? hfound
  refine ⟨hinside, ?_, ?_⟩
  · -- the search did not end on the first grid, so there was no pick on the grid before
    have hsmall := (exponent_lt_of_inside hinside hm hm' hlow hhigh).ne
    have hlength := Span.length_le_of_pick?_eq_none hproper (hfirst.resolve_left hsmall)
    have hlower := (Span.lower_around_mem hm hlow).2
    rw [Span.upper_around] at hlength
    linarith
  · -- the pick is the nearer one of the two points
    intro hsymmetric
    rw [← Span.value_around]
    refine Span.two_mul_abs_le_of_pick? hproper ?_ hfound
    rw [Span.upper_around, Span.value_around, Span.lower_around hm hsymmetric, size]
    ring

end Decimals

end Skirmish.Decimal
