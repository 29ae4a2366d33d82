import Skirmish.Proofs.Decimal.Spans
import Skirmish.Proofs.Numeric.Patterns

/-!
# Reading shortest decimals

A shortest decimal that is read with a small error gives the number that it was written for. For
that it must not be near to an end of the number's span. The three parts are about pairs of
integers, about spans, and about reading:

* `Bracket.Encloses.cases` — which counts of steps and units come near to each other;
* `clear_ends` — the shortest decimal is clear of the ends of its span;
* `near_of_error` — so what is read with a small error is near the number.
-/

/-! ## Decimals near halfway points

A decimal that is read with a small error still falls on the right side of a halfway point between
two numbers, if it is not too near to it. Halfway points are odd counts of units, and decimals with
few digits are counts of steps on a coarse grid. So how near they come to each other is a question
about two integers: so many steps against so many units, of which there are fewer than `2 ^ 25`.

* `Clear` — a value that is a bound, or is far enough from it;
* `Bracket` — two pairs of counts on either side of equality whose combinations are all other pairs;
* `Bracket.Encloses.cases` — of those with few units, only the multiples of the two come near;
* `Shortest.clear` — shortest decimals are clear of the ends of their span, all but one.

The pairs are found for each exponent by Euclid's algorithm, stopped before there are too many
units. Powers of two have spans that are not symmetric; they are few, and are gone through one by
one.
-/

namespace Skirmish.Decimal

open Numeric

/-- **A value clear of a bound:** it is the bound, or is not as near as one part in `2 ^ 51`. -/
def Clear (v b : ℚ) : Prop :=
  v = b ∨ v < 2 ^ 51 * |v - b|

/-- The same for so many steps and units of integer length. -/
def ClearIn (step one s u : ℕ) : Prop :=
  s * step = u * one ∨ s * step < 2 ^ 51 * (s * step - u * one + (u * one - s * step))

instance (step one s u : ℕ) : Decidable (ClearIn step one s u) :=
  inferInstanceAs (Decidable (_ ∨ _))

variable {step one s u : ℕ}

theorem cast_distance (x y : ℕ) : ((x - y + (y - x) : ℕ) : ℚ) = |(x : ℚ) - y| := by
  -- one of the two truncated differences is zero
  obtain hle | hle := le_total x y
  · rw [Nat.sub_eq_zero_of_le hle, Nat.zero_add, Nat.cast_sub hle, abs_sub_comm, abs_of_nonneg]
    exact sub_nonneg.mpr (by exact_mod_cast hle)
  · rw [Nat.sub_eq_zero_of_le hle, Nat.add_zero, Nat.cast_sub hle, abs_of_nonneg]
    exact sub_nonneg.mpr (by exact_mod_cast hle)

theorem ClearIn.clear (h : ClearIn step one s u) {c : ℚ} (hc : 0 < c) :
    Clear (s * (c * step)) (u * (c * one)) := by
  have hsteps : (s : ℚ) * (c * step) = c * (s * step : ℕ) := by push_cast; ring
  have hunits : (u : ℚ) * (c * one) = c * (u * one : ℕ) := by push_cast; ring
  -- both sides scale by the common measure
  rw [hsteps, hunits]
  obtain heq | hlt := h
  · exact .inl (by rw [heq])
  · refine .inr ?_
    rw [← mul_sub, abs_mul, abs_of_pos hc, mul_left_comm, ← cast_distance]
    exact mul_lt_mul_of_pos_left (by exact_mod_cast hlt) hc

theorem ClearIn.mul_left (h : ClearIn step one s u) {k : ℕ} (hk : 0 < k) :
    ClearIn step one (k * s) (k * u) := by
  unfold ClearIn
  rw [Nat.mul_assoc k s, Nat.mul_assoc k u, ← Nat.mul_sub, ← Nat.mul_sub, ← Nat.mul_add]
  obtain heq | hlt := h
  · exact .inl (by rw [heq])
  · refine .inr ?_
    rw [Nat.mul_left_comm (2 ^ 51)]
    exact Nat.mul_lt_mul_of_pos_left hlt hk

/-! ### Brackets -/

/-- So many steps against so many units. -/
structure Pair where
  /-- The steps. -/
  steps : ℕ
  /-- The units. -/
  units : ℕ

/-- One pair with another one added, so many times. -/
def Pair.plus (p q : Pair) (k : ℕ) : Pair :=
  ⟨p.steps + k * q.steps, p.units + k * q.units⟩

/-- **Two pairs** on either side of equality. -/
structure Bracket where
  /-- The steps reach as far as the units, or farther. -/
  long : Pair
  /-- The steps fall short of the units. -/
  short : Pair

/-- How often a part has room, up to a bound. -/
def often (cap room part : ℕ) : ℕ :=
  if part * cap ≤ room then cap else room / part

theorem often_mul_le (cap room part : ℕ) : often cap room part * part ≤ room := by
  unfold often
  split
  · rwa [Nat.mul_comm]
  · exact Nat.div_mul_le_self _ _

namespace Bracket

/-- How far the long pair goes beyond its units. -/
def excess (p : Bracket) (step one : ℕ) : ℕ :=
  p.long.steps * step - p.long.units * one

/-- How far the short pair falls short of its units. -/
def deficit (p : Bracket) (step one : ℕ) : ℕ :=
  p.short.units * one - p.short.steps * step

/-- **One step of Euclid's algorithm:** the pair that is nearer to equality is added to the other
one, as often as that one stays on its side, but not much beyond `limit` units. -/
def next (limit step one : ℕ) (p : Bracket) : Bracket :=
  if p.deficit step one ≤ p.excess step one then
    let k := often (limit / p.short.units + 1) (p.excess step one) (p.deficit step one)
    { p with long := p.long.plus p.short k }
  else
    let k := often (limit / p.long.units + 1) (p.deficit step one - 1) (p.excess step one)
    { p with short := p.short.plus p.long k }

/-- The algorithm, until there are `limit` units in both pairs together. -/
def refine (limit step one : ℕ) : ℕ → Bracket → Bracket
  | 0, p => p
  | n + 1, p =>
    if limit ≤ p.long.units + p.short.units then p
    else refine limit step one n (p.next limit step one)

/-- **Pairs on either side of equality,** with nothing between them. -/
structure Encloses (p : Bracket) (step one : ℕ) : Prop where
  /-- All other pairs are combinations of the two. -/
  det : p.long.steps * p.short.units = p.short.steps * p.long.units + 1
  /-- The first one's steps reach as far as its units. -/
  long_le : p.long.units * one ≤ p.long.steps * step
  /-- The second one's steps do not. -/
  short_lt : p.short.steps * step < p.short.units * one

variable {p : Bracket} {limit : ℕ}

theorem encloses_start (hone : 0 < one) : Encloses ⟨⟨1, 0⟩, ⟨0, 1⟩⟩ step one := by
  refine ⟨rfl, ?_, ?_⟩ <;> simp [hone]

theorem Encloses.next (h : p.Encloses step one) : (p.next limit step one).Encloses step one := by
  have hdet := h.det
  have hlong := h.long_le
  have hshort := h.short_lt
  -- the truncated differences are true ones, as the pairs are on either side
  have hexcess : p.excess step one + p.long.units * one = p.long.steps * step := by
    unfold excess
    omega
  have hdeficit : p.deficit step one + p.short.steps * step = p.short.units * one := by
    unfold deficit
    omega
  unfold Bracket.next
  simp only
  split
  · -- the long pair takes short ones as long as it stays long
    have hroom := often_mul_le (limit / p.short.units + 1) (p.excess step one) (p.deficit step one)
    generalize often _ _ _ = k at hroom
    refine ⟨?_, ?_, hshort⟩
    · simp only [Pair.plus]
      linear_combination hdet
    · simp only [Pair.plus]
      nlinarith
  · -- the short pair takes long ones as long as it stays short
    have hroom :=
      often_mul_le (limit / p.long.units + 1) (p.deficit step one - 1) (p.excess step one)
    generalize often _ _ _ = k at hroom
    have hpos : k * p.excess step one < p.deficit step one := by omega
    refine ⟨?_, hlong, ?_⟩
    · simp only [Pair.plus]
      linear_combination hdet
    · simp only [Pair.plus]
      nlinarith

theorem Encloses.refine (h : p.Encloses step one) (n : ℕ) :
    (p.refine limit step one n).Encloses step one := by
  -- on the fuel; each round keeps the bracket
  induction n generalizing p with
  | zero => exact h
  | succ n ih =>
    unfold Bracket.refine
    split
    · exact h
    · exact ih h.next

theorem Encloses.cases (h : p.Encloses step one) (hu : 0 < u)
    (hfew : u < p.long.units + p.short.units) :
    (∃ k, s = k * p.long.steps ∧ u = k * p.long.units) ∨
      (∃ k, s = k * p.short.steps ∧ u = k * p.short.units) ∨
        p.excess step one + p.deficit step one ≤ s * step - u * one + (u * one - s * step) := by
  have hdet := h.det
  zify at hdet hfew hu
  obtain ⟨x, hx⟩ : ∃ x : ℤ, x = p.excess step one := ⟨_, rfl⟩
  obtain ⟨y, hy⟩ : ∃ y : ℤ, y = p.deficit step one := ⟨_, rfl⟩
  have hlong : x = p.long.steps * step - p.long.units * one := by
    rw [hx, excess, Nat.cast_sub h.long_le]
    push_cast
    rfl
  have hshort : y = p.short.units * one - p.short.steps * step := by
    rw [hy, deficit, Nat.cast_sub h.short_lt.le]
    push_cast
    rfl
  -- the pair as a combination of the two
  obtain ⟨a, ha⟩ : ∃ a : ℤ, a = s * p.short.units - p.short.steps * u := ⟨_, rfl⟩
  obtain ⟨b, hb⟩ : ∃ b : ℤ, b = p.long.steps * u - s * p.long.units := ⟨_, rfl⟩
  have hsteps : (s : ℤ) = a * p.long.steps + b * p.short.steps := by
    rw [ha, hb]
    linear_combination (-(s : ℤ)) * hdet
  have hunits : (u : ℤ) = a * p.long.units + b * p.short.units := by
    rw [ha, hb]
    linear_combination (-(u : ℤ)) * hdet
  have hdistance : ((s * step : ℕ) : ℤ) - (u * one : ℕ) = a * x - b * y := by
    push_cast
    rw [hsteps, hunits, hlong, hshort]
    ring
  clear ha hb hlong hshort hdet
  have hx' : 0 ≤ x := hx ▸ Int.natCast_nonneg _
  have hy' : 0 ≤ y := hy ▸ Int.natCast_nonneg _
  have hlong := Int.natCast_nonneg p.long.units
  have hshort := Int.natCast_nonneg p.short.units
  -- a combination with coefficients of one sign has too many units, one of both signs is far
  obtain ha | rfl | ha := lt_trichotomy a 0
  · -- the other one has to make up for the units
    have hb : 0 < b := by
      by_contra hb
      nlinarith
    have hbelow : a * x - b * y ≤ -(x + y) := by nlinarith
    exact .inr (.inr (by omega))
  · -- only short pairs
    have hb : 0 < b := by
      by_contra hb
      nlinarith
    obtain ⟨k, rfl⟩ := Int.eq_ofNat_of_zero_le hb.le
    rw [zero_mul, zero_add] at hsteps hunits
    exact .inr (.inl ⟨k, by exact_mod_cast hsteps, by exact_mod_cast hunits⟩)
  · obtain hb | rfl | hb := lt_trichotomy b 0
    · have habove : x + y ≤ a * x - b * y := by nlinarith
      exact .inr (.inr (by omega))
    · -- only long pairs
      obtain ⟨k, rfl⟩ := Int.eq_ofNat_of_zero_le ha.le
      rw [zero_mul, add_zero] at hsteps hunits
      exact .inl ⟨k, by exact_mod_cast hsteps, by exact_mod_cast hunits⟩
    · -- there are too many units
      nlinarith

end Bracket

end Skirmish.Decimal

/-! ## Shortest decimals and the ends of their spans

The shortest decimal of a number is clear of the ends of the number's span. One that came near to an
end would be about half a step away from the number, so it would be on a grid with few points per
unit, and the brackets of the grid tell how near the points come to halfway points.

* `sparse_bracketOf` — for each unit, only two pairs come near to equality, and they are clear of
  it;
* `Shortest.clear` — for symmetric spans;
* `clear_first` — for the first numbers of each size, whose spans are not symmetric;
* `clear_ends` — for all of them.

There is one exception, `11420669 · 2 ^ -107`. Its shortest decimal `7038531 · 10 ^ -32` is too near
to the upper end for an argument that only uses the size of the error.
-/

namespace Skirmish.Decimal

open Numeric

/-- The one decimal that is too near to a halfway point, in steps and units. -/
def Exceptional (e : ℤ) (s u : ℕ) : Prop :=
  e = -107 ∧ s = 7038531 ∧ u = 22841339

instance (e : ℤ) (s u : ℕ) : Decidable (Exceptional e s u) :=
  inferInstanceAs (Decidable (_ ∧ _ ∧ _))

/-- A pair is harmless if it is no halfway point, or is clear of it. -/
def Harmless (e : ℤ) (step one : ℕ) (p : Pair) : Prop :=
  p.units % 2 = 0 ∨ 2 ^ 25 ≤ p.units ∨ ClearIn step one p.steps p.units ∨
    Exceptional e p.steps p.units

instance (e : ℤ) (step one : ℕ) (p : Pair) : Decidable (Harmless e step one p) :=
  inferInstanceAs (Decidable (_ ∨ _ ∨ _ ∨ _))

/-- **Few pairs near equality,** and all of them harmless. -/
structure Sparse (e : ℤ) (step one : ℕ) (p : Bracket) : Prop where
  /-- Combinations of both have too many units. -/
  many : 2 ^ 25 ≤ p.long.units + p.short.units
  /-- Differences of both are not near. -/
  wide : one ≤ 2 ^ 25 * (p.excess step one + p.deficit step one)
  /-- The multiples of the first one are harmless. -/
  long : Harmless e step one p.long
  /-- The multiples of the second one are harmless. -/
  short : Harmless e step one p.short

instance (e : ℤ) (step one : ℕ) (p : Bracket) : Decidable (Sparse e step one p) :=
  decidable_of_iff (2 ^ 25 ≤ p.long.units + p.short.units ∧
      one ≤ 2 ^ 25 * (p.excess step one + p.deficit step one) ∧
      Harmless e step one p.long ∧ Harmless e step one p.short)
    ⟨fun ⟨many, wide, long, short⟩ => ⟨many, wide, long, short⟩,
      fun h => ⟨h.many, h.wide, h.long, h.short⟩⟩

section Pairs

variable {e : ℤ} {step one s u k : ℕ} {p : Pair}

theorem Harmless.mul (h : Harmless e step one p) (hs : s = k * p.steps) (hu : u = k * p.units)
    (hodd : u % 2 = 1) (hfew : u < 2 ^ 25) : ClearIn step one s u ∨ Exceptional e s u := by
  have hpos : 0 < k := by
    refine Nat.pos_of_ne_zero ?_
    rintro rfl
    omega
  have hle : p.units ≤ u := hu ▸ Nat.le_mul_of_pos_left _ hpos
  -- a multiple of an even count is even, and one of a clear pair is clear
  obtain heven | hmany | hclear | ⟨he, hsteps, hunits⟩ := h
  · rw [hu, Nat.mul_mod, heven, Nat.mul_zero, Nat.zero_mod] at hodd
    omega
  · omega
  · rw [hs, hu]
    exact .inl (hclear.mul_left hpos)
  · -- twice as many units are too many
    obtain rfl : k = 1 := by
      by_contra hne
      have : 2 * p.units ≤ u := hu ▸ Nat.mul_le_mul_right _ (by omega)
      omega
    exact .inr ⟨he, by omega, by omega⟩

/-- **Halfway points are clear** of all steps, but for one. -/
theorem Sparse.clearIn {b : Bracket} (h : Sparse e step one b) (hb : b.Encloses step one)
    (hodd : u % 2 = 1) (hfew : u < 2 ^ 25) : ClearIn step one s u ∨ Exceptional e s u := by
  -- the bracket leaves multiples of its two pairs, and pairs that are far
  obtain ⟨k, hs, hu⟩ | ⟨k, hs, hu⟩ | hfar :=
    hb.cases (s := s) (u := u) (by omega) (hfew.trans_le h.many)
  · exact h.long.mul hs hu hodd hfew
  · exact h.short.mul hs hu hodd hfew
  · -- a pair this far from equality is clear of it
    refine .inl (.inr ?_)
    have hwide := h.wide.trans (Nat.mul_le_mul_left (2 ^ 25) hfar)
    have hunits : u * one ≤ (2 ^ 25 - 1) * one := Nat.mul_le_mul_right _ (by omega)
    have hpos := hb.short_lt
    have hdeficit : 0 < b.deficit step one := by
      unfold Bracket.deficit
      omega
    omega

end Pairs

/-! ### Grids -/

/-- The finest grid on which every step is about as long as a unit `2 ^ e`, or longer. -/
def grid (e : ℤ) : ℤ :=
  -(-e * 30103 / 100000)

def gridScales (e : ℤ) : ℕ × ℕ :=
  scales (grid e) (e - 1)

def bracketOf (e : ℤ) : Bracket :=
  Bracket.refine (2 ^ 25) (gridScales e).1 (gridScales e).2 40 ⟨⟨1, 0⟩, ⟨0, 1⟩⟩

theorem sparse_bracketOf {e : ℤ} (hlow : -149 ≤ e) (hhigh : e ≤ 104) :
    Sparse e (gridScales e).1 (gridScales e).2 (bracketOf e) := by
  -- a computation for each of the 254 exponents; it ends because each bracket does after a few
  -- rounds
  have hall : ∀ i < 254, Sparse ((i : ℕ) - 149) (gridScales ((i : ℕ) - 149)).1
      (gridScales ((i : ℕ) - 149)).2 (bracketOf ((i : ℕ) - 149)) := by
    decide +kernel
  have hi := hall (e + 149).toNat (by omega)
  rwa [Int.toNat_of_nonneg (by omega), Int.add_sub_cancel] at hi

/-- **Steps of the grid and of finer ones:** those of the grid are clear of all halfway points but
for one, and those of the next finer grid are shorter than a unit. -/
theorem clear_of_grid_le {e g : ℤ} {n u : ℕ} (hlow : -149 ≤ e) (hhigh : e ≤ 104) (hg : grid e ≤ g)
    (hodd : u % 2 = 1) (hfew : u < 2 ^ 25) :
    Clear (n * 10 ^ g) (size u (e - 1)) ∨
      e = -107 ∧ (n : ℚ) * 10 ^ g = 7038531 * 10 ^ (-32 : ℤ) ∧ u = 22841339 := by
  obtain ⟨c, hc, hstep, hone⟩ := exists_scales (grid e) (e - 1)
  -- steps of a coarser grid are multiples of those of this one
  have hsteps : (n : ℚ) * 10 ^ g = (n * 10 ^ (g - grid e).toNat : ℕ) * 10 ^ grid e := by
    have hsplit : (10 : ℚ) ^ g = 10 ^ (g - grid e).toNat * 10 ^ grid e := by
      rw [← zpow_natCast, ← zpow_add₀ (by norm_num), Int.toNat_of_nonneg (by omega),
        Int.sub_add_cancel]
    rw [hsplit]
    push_cast
    ring
  rw [hsteps]
  generalize n * 10 ^ (g - grid e).toNat = s
  have hpos : 0 < (gridScales e).2 := by
    change 0 < 10 ^ _ * 2 ^ _
    positivity
  -- forty rounds are enough, which `sparse_bracketOf` has computed
  have hencloses : (bracketOf e).Encloses (gridScales e).1 (gridScales e).2 :=
    (Bracket.encloses_start hpos).refine 40
  obtain hclear | ⟨rfl, rfl, rfl⟩ :=
    (sparse_bracketOf hlow hhigh).clearIn (s := s) hencloses hodd hfew
  · rw [size, hstep, hone]
    exact .inl (hclear.clear hc)
  · refine .inr ⟨rfl, ?_, rfl⟩
    rw [show grid (-107) = -32 by decide]
    norm_num

theorem ten_pow_lt {e : ℤ} (hlow : -149 ≤ e) (hhigh : e ≤ 104) :
    (10 : ℚ) ^ (grid e - 1) * 2 ^ 26 < 2 ^ e * (2 ^ 26 - 1) := by
  have hall : ∀ i < 254, (scales (grid ((i : ℕ) - 149) - 1) ((i : ℕ) - 149)).1 * 2 ^ 26 +
      (scales (grid ((i : ℕ) - 149) - 1) ((i : ℕ) - 149)).2 <
        (scales (grid ((i : ℕ) - 149) - 1) ((i : ℕ) - 149)).2 * 2 ^ 26 := by
    decide +kernel
  have hi := hall (e + 149).toNat (by omega)
  rw [Int.toNat_of_nonneg (by omega), Int.add_sub_cancel] at hi
  obtain ⟨c, hc, hstep, hone⟩ := exists_scales (grid e - 1) e
  generalize scales (grid e - 1) e = p at hi hstep hone
  have hcast : (p.1 * 2 ^ 26 + p.2 : ℚ) < p.2 * 2 ^ 26 := by exact_mod_cast hi
  rw [hstep, hone, mul_assoc, mul_assoc]
  exact mul_lt_mul_of_pos_left (by linarith) hc

/-! ### The ends of a span -/

variable {m : ℕ} {e : ℤ} {d : Decimal}

/-- The ends of a symmetric span are halfway points. -/
theorem abs_size_sub {u : ℕ} (hu : u = 2 * m + 1 ∨ u + 1 = 2 * m) :
    |size u (e - 1) - size m e| = 2 ^ e / 2 := by
  have hhalf : size u (e - 1) = u / 2 * 2 ^ e := by
    rw [size, zpow_sub_one₀ (by norm_num)]
    ring
  have hunit : (0 : ℚ) < 2 ^ e := by positivity
  rw [hhalf, size, ← sub_mul, abs_mul, abs_of_pos hunit]
  -- in half units the end is one away from the number
  have hside : |(u : ℚ) / 2 - m| = 1 / 2 := by
    obtain rfl | hu := hu
    · rw [abs_of_nonneg] <;> push_cast <;> linarith
    · have hcast : (u : ℚ) + 1 = 2 * m := by exact_mod_cast hu
      rw [abs_of_nonpos] <;> linarith
  rw [hside]
  ring

/-- A shortest decimal near an end is about half a unit away from the number, so a step of its grid
is about as long as a unit. -/
theorem Shortest.grid_le (h : Shortest m e d) (hm' : m < 2 ^ 24) (hlow : -149 ≤ e) (hhigh : e ≤ 104)
    (hsymmetric : m ≠ 2 ^ 23 ∨ e = -149) {u : ℕ} (hu : u = 2 * m + 1 ∨ u + 1 = 2 * m)
    (hnear : 2 ^ 51 * |d.value - size u (e - 1)| ≤ d.value) : grid e ≤ d.exponent := by
  -- a finer step is shorter than a unit, and half of it does not lead to the end
  by_contra hfine
  have hstep : (10 : ℚ) ^ d.exponent ≤ 10 ^ (grid e - 1) :=
    zpow_le_zpow_right₀ (by norm_num) (by omega)
  have hshort := ten_pow_lt hlow hhigh
  have hhalf := h.near hsymmetric
  have hvalue := value_le_of_inside h.inside hm'
  have htriangle := abs_sub_le (size u (e - 1)) d.value (size m e)
  rw [abs_sub_comm (size u (e - 1)) d.value, abs_size_sub hu] at htriangle
  linarith

theorem Shortest.clear (h : Shortest m e d) (hm : 0 < m) (hm' : m < 2 ^ 24) (hlow : -149 ≤ e)
    (hhigh : e ≤ 104) (hsymmetric : m ≠ 2 ^ 23 ∨ e = -149) {u : ℕ}
    (hu : u = 2 * m + 1 ∨ u + 1 = 2 * m) :
    Clear d.value (size u (e - 1)) ∨ e = -107 ∧ m = 11420669 := by
  -- if it is not clear, it is near, and so on a coarse grid
  by_cases hclear : Clear d.value (size u (e - 1))
  · exact .inl hclear
  · have hgrid := h.grid_le hm' hlow hhigh hsymmetric hu (not_lt.mp (not_or.mp hclear).2)
    obtain hclear' | ⟨rfl, hvalue, hunits⟩ :=
      clear_of_grid_le (n := d.digits) hlow hhigh hgrid (u := u) (by omega) (by omega)
    · exact absurd hclear' hclear
    · refine .inr ⟨rfl, ?_⟩
      obtain hu | hu := hu
      · omega
      · -- the decimal is below the lower end for the next number
        have hge := h.inside.ge
        rw [Span.lower_around hm hsymmetric, value, hvalue] at hge
        obtain rfl : m = 11420670 := by omega
        norm_num at hge

def first (e : ℤ) : Decimal :=
  (Span.around (2 ^ 23) e).search .toEven 39 200

def firstScales (e : ℤ) : ℕ × ℕ :=
  scales (first e).exponent (e - 2)

theorem clear_first (hlow : -149 < e) (hhigh : e ≤ 104) {u : ℕ}
    (hu : u = (Span.around (2 ^ 23) e).lower ∨ u = (Span.around (2 ^ 23) e).upper) :
    Clear (first e).value (size u (e - 2)) := by
  -- one computation for each size, as the lower half of the span is shorter here
  have hall : ∀ i < 253,
      ClearIn (firstScales ((i : ℕ) - 148)).1 (firstScales ((i : ℕ) - 148)).2
        (first ((i : ℕ) - 148)).digits (Span.around (2 ^ 23) ((i : ℕ) - 148)).lower ∧
      ClearIn (firstScales ((i : ℕ) - 148)).1 (firstScales ((i : ℕ) - 148)).2
        (first ((i : ℕ) - 148)).digits (Span.around (2 ^ 23) ((i : ℕ) - 148)).upper := by
    decide +kernel
  have hi := hall (e + 148).toNat (by omega)
  rw [Int.toNat_of_nonneg (by omega), Int.add_sub_cancel] at hi
  have hclear : ClearIn (firstScales e).1 (firstScales e).2 (first e).digits u := by
    obtain rfl | rfl := hu
    · exact hi.1
    · exact hi.2
  obtain ⟨c, hc, hstep, hone⟩ := exists_scales (first e).exponent (e - 2)
  rw [value, size, hstep, hone]
  exact hclear.clear hc

theorem clear_ends (hm : 0 < m) (hm' : m < 2 ^ 24) (hlow : -149 ≤ e) (hhigh : e ≤ 104)
    (hregular : ¬ (e = -107 ∧ m = 11420669)) {u : ℕ}
    (hu : u = (Span.around m e).lower ∨ u = (Span.around m e).upper) :
    Clear ((Span.around m e).search .toEven 39 200).value (size u (e - 2)) := by
  by_cases hsymmetric : m ≠ 2 ^ 23 ∨ e = -149
  · have hshortest := shortest_around .toEven hm hm' hlow hhigh
    have hclear : ∀ k, k = 2 * m + 1 ∨ k + 1 = 2 * m →
        Clear ((Span.around m e).search .toEven 39 200).value (size k (e - 1)) :=
      fun k hk => (hshortest.clear hm hm' hlow hhigh hsymmetric hk).resolve_right hregular
    obtain rfl | rfl := hu
    · rw [Span.size_lower hsymmetric]
      exact hclear _ (.inr (by omega))
    · rw [Span.size_upper]
      exact hclear _ (.inl rfl)
  · obtain ⟨hfirst, hfloor⟩ := not_or.mp hsymmetric
    obtain rfl := not_not.mp hfirst
    exact clear_first (by omega) hhigh hu

end Skirmish.Decimal

/-! ## Reading shortest decimals

A shortest decimal that is read with a small error gives a value that is nearer to the number than
to its neighbours: the error does not lead across an end of the span, from which the decimal is
clear. If the decimal is an end itself, there must be no error at all. Such a decimal has a small
exponent.

* `Shortest.digits_lt` and `Shortest.exponent_ge` — digits and exponents of shortest decimals;
* `exponent_of_eq` — a decimal with few digits that needs few bits has a small exponent;
* `near_of_error` — what is read with a small error.
-/

namespace Skirmish.Decimal

open Numeric

variable {m : ℕ} {e : ℤ} {d : Decimal}

/-! ### Digits and exponents -/

theorem Shortest.digits_lt (h : Shortest m e d) (hm' : m < 2 ^ 24) : d.digits < 2 ^ 28 := by
  have hstep : (0 : ℚ) < 10 ^ d.exponent := by positivity
  have hle := value_le_of_inside h.inside hm'
  have hcoarse := h.coarse
  -- ten steps exceed the span, so the value has few of them
  rw [zpow_add_one₀ (by norm_num)] at hcoarse
  rw [value] at hle
  have hlt : (d.digits : ℚ) * 10 ^ d.exponent < 2 ^ 28 * 10 ^ d.exponent := by linarith
  exact_mod_cast lt_of_mul_lt_mul_right hlt hstep.le

theorem Shortest.exponent_ge (h : Shortest m e d) (hlow : -149 ≤ e) : -46 ≤ d.exponent := by
  have hpow : (2 : ℚ) ^ (-149 : ℤ) ≤ 2 ^ e := zpow_le_zpow_right₀ (by norm_num) hlow
  have hsmall : (10 : ℚ) ^ (-46 : ℤ) < 10 ^ (d.exponent + 1) :=
    calc (10 : ℚ) ^ (-46 : ℤ) < 3 / 4 * 2 ^ (-149 : ℤ) := by norm_num
      _ ≤ 3 / 4 * 2 ^ e := mul_le_mul_of_nonneg_left hpow (by norm_num)
      _ ≤ 10 ^ (d.exponent + 1) := h.coarse
  have := (zpow_lt_zpow_iff_right₀ (by norm_num)).mp hsmall
  omega

theorem five_pow_le {a k n : ℕ} (hn : 0 < n) (h : 5 ^ a ∣ n * 2 ^ k) : 5 ^ a ≤ n :=
  Nat.le_of_dvd hn ((Nat.Coprime.pow a k (by decide)).dvd_of_dvd_mul_right h)

theorem exponent_of_eq {u : ℕ} {j : ℤ} (hpos : 0 < d.digits) (hdigits : d.digits < 2 ^ 28)
    (hu : 0 < u) (hfew : u < 2 ^ 25) (h : d.value = size u j) :
    -22 ≤ d.exponent ∧ d.exponent ≤ 22 := by
  obtain ⟨n, g⟩ := d
  simp only [value, size] at hpos hdigits h ⊢
  have htwo : (2 : ℚ) ^ j = 2 ^ (j - g) * 2 ^ g := by
    rw [← zpow_add₀ (by norm_num), sub_add_cancel]
  have hunit : (2 : ℚ) ^ g ≠ 0 := by positivity
  rw [ten_zpow, htwo, ← mul_assoc, ← mul_assoc, mul_left_inj' hunit, zpow_eq_div (by norm_num) g,
    zpow_eq_div (by norm_num) (j - g), ← mul_div_assoc, ← mul_div_assoc,
    div_eq_div_iff (by positivity) (by positivity)] at h
  have heq : n * 5 ^ g.toNat * 2 ^ (-(j - g)).toNat = u * 2 ^ (j - g).toNat * 5 ^ (-g).toNat := by
    exact_mod_cast h
  -- clear of denominators, powers of five are on one side only
  obtain hg | hg := le_total 0 g
  · -- the power of five has to divide the units
    have hdvd : 5 ^ g.toNat ∣ u * 2 ^ (j - g).toNat := by
      rw [show (-g).toNat = 0 by omega, Nat.pow_zero, Nat.mul_one] at heq
      exact ⟨n * 2 ^ (-(j - g)).toNat, by rw [← heq]; ring⟩
    have hle := five_pow_le hu hdvd
    have : g.toNat < 11 := (Nat.pow_lt_pow_iff_right (a := 5) (by decide)).mp (by omega)
    omega
  · -- it has to divide the digits
    have hdvd : 5 ^ (-g).toNat ∣ n * 2 ^ (-(j - g)).toNat := by
      rw [show g.toNat = 0 by omega, Nat.pow_zero, Nat.mul_one] at heq
      exact ⟨u * 2 ^ (j - g).toNat, by rw [heq]; ring⟩
    have hle := five_pow_le hpos hdvd
    have : (-g).toNat < 13 := (Nat.pow_lt_pow_iff_right (a := 5) (by decide)).mp (by omega)
    omega

/-! ### Reading with a small error -/

/-- A small error does not lead across a bound. -/
theorem Clear.of_error {v w b : ℚ} (h : Clear v b) (herror : |w - v| ≤ v / 2 ^ 51)
    (hexact : v = b → w = v) :
    (v ≤ b → w ≤ b) ∧ (b ≤ v → b ≤ w) ∧ (w = b → v = b) := by
  -- at the bound the reading is exact; elsewhere the error is shorter than the distance
  obtain heq | hfar := h
  · rw [hexact heq]
    exact ⟨id, id, id⟩
  · obtain ⟨hlow, hhigh⟩ := abs_le.mp herror
    refine ⟨fun hle => ?_, fun hle => ?_, fun heq => ?_⟩
    · rw [abs_of_nonpos (sub_nonpos.mpr hle)] at hfar
      linarith
    · rw [abs_of_nonneg (sub_nonneg.mpr hle)] at hfar
      linarith
    · rw [← heq, abs_sub_comm] at hfar
      linarith

theorem exists_eq_end (hm : 0 < m) (hm' : m < 2 ^ 24) {k : ℕ}
    (hk : k = (Span.around m e).lower ∨ k = (Span.around m e).upper) :
    ∃ u j, 0 < u ∧ u < 2 ^ 25 ∧ e - 2 ≤ j ∧ size k (e - 2) = size u j := by
  obtain rfl | rfl := hk
  · -- the lower end is a halfway point, or a quarter below a power of two
    by_cases hsymmetric : m ≠ 2 ^ 23 ∨ e = -149
    · exact ⟨2 * m - 1, e - 1, by omega, by omega, by omega, Span.size_lower hsymmetric⟩
    · have hle : (Span.around m e).lower ≤ 4 * m - 1 := by
        unfold Span.around
        simp only
        split <;> omega
      have hpos : 4 * m - 2 ≤ (Span.around m e).lower := by
        unfold Span.around
        simp only
        split <;> omega
      obtain rfl := not_not.mp (not_or.mp hsymmetric).1
      exact ⟨_, e - 2, by omega, by omega, le_rfl, rfl⟩
  · exact ⟨2 * m + 1, e - 1, by omega, by omega, by omega, Span.size_upper m e⟩

/-- **What is read from a number's shortest decimal,** with a small error, is nearer to the number
than to its neighbours. -/
theorem near_of_error (hm : 0 < m) (hm' : m < 2 ^ 24) (hlow : -149 ≤ e) (hhigh : e ≤ 104)
    (hregular : ¬ (e = -107 ∧ m = 11420669)) {w : ℚ}
    (hd : (Span.around m e).search .toEven 39 200 = d) (herror : |w - d.value| ≤ d.value / 2 ^ 51)
    (hexact : -22 ≤ d.exponent → d.exponent ≤ 22 → ∀ u j,
      u < 2 ^ 25 → e - 2 ≤ j → d.value = size u j → w = d.value) :
    Near 23 (-149) m e w := by
  have h := shortest_around .toEven hm hm' hlow hhigh
  have hclear : ∀ k, k = (Span.around m e).lower ∨ k = (Span.around m e).upper →
      Clear d.value (size k (e - 2)) :=
    fun k hk => hd ▸ clear_ends hm hm' hlow hhigh hregular hk
  rw [hd] at h
  have hpos := digits_pos_of_inside h.inside hm hlow
  have hends : ∀ k, k = (Span.around m e).lower ∨ k = (Span.around m e).upper →
      d.value = size k (e - 2) → w = d.value := by
    intro k hk heq
    obtain ⟨u, j, hu, hfew, hj, hend⟩ := exists_eq_end (e := e) hm hm' hk
    obtain ⟨hge, hle⟩ := exponent_of_eq hpos (h.digits_lt hm') hu hfew (heq.trans hend)
    exact hexact hge hle u j hfew hj (heq.trans hend)
  -- from either end the value is on the same side as the decimal
  obtain ⟨habove, -, htop⟩ := (hclear _ (.inr rfl)).of_error herror (hends _ (.inr rfl))
  obtain ⟨-, hbelow, hbottom⟩ := (hclear _ (.inl rfl)).of_error herror (hends _ (.inl rfl))
  have hupper : size (Span.around m e).upper (e - 2) = (m + 1 / 2) * 2 ^ e := Span.upper_around m e
  have hlower := Span.lower_around_mem hm hlow
  refine ⟨hupper ▸ habove h.inside.le, hlower.1.trans (hbelow h.inside.ge), ?_, ?_⟩
  · -- below the first number of a size the end is nearer
    rintro rfl hfloor
    have hfirst := Span.lower_around_first (e := e) (by omega)
    exact hfirst ▸ hbelow h.inside.ge
  · -- only an even number has the ends of its span
    have heven : (Span.around m e).closed = true → m % 2 = 0 := fun hclosed => beq_iff_eq.mp hclosed
    rintro (heq | heq)
    · exact heven (h.inside.closed_of_eq (.inr (htop (heq.trans hupper.symm))))
    · by_cases hsymmetric : m ≠ 2 ^ 23 ∨ e = -149
      · have hend := Span.lower_around hm hsymmetric
        exact heven (h.inside.closed_of_eq (.inl (hbottom (heq.trans hend.symm))))
      · obtain rfl := not_not.mp (not_or.mp hsymmetric).1
        decide

end Skirmish.Decimal
