/-!
# Binary numbers

Numbers in single and double precision through their exact values: an integer times a power of two,
an operation on such values, and one rounding back to a fixed number of bits.
-/

/-! ## Exact values and rounding to a binary layout

Every finite floating-point number is an integer times a power of two. This module holds that exact
form, `Scaled`, and the one place where an exact value is rounded back to a fixed number of bits:

* `nearestShift` — division by a power of two, to the nearest integer, a half going to the even one;
* `Layout.magnitudeBits` — the bit pattern nearest to a positive value, in any binary layout;
* `Layout.exact` — the exact value that a pair of fields stands for.

Adding one to the pattern of a positive number gives the pattern of the next one, across exponents
and from subnormal to normal numbers. That is why `magnitudeBits` can add the rounded integer to the
exponent field: a carry out of the fraction lands in the exponent, where it belongs.
-/

namespace Skirmish.Numeric

/-- The value `± magnitude · 2 ^ exponent`. One value has many such forms, and zero has a sign. -/
structure Scaled where
  /-- Whether the value carries a minus sign. -/
  negative : Bool
  /-- The absolute value, in units of `2 ^ exponent`. -/
  magnitude : Nat
  exponent : Int
deriving DecidableEq, Repr

namespace Scaled

def mantissa (x : Scaled) : Int :=
  if x.negative then -(x.magnitude : Int) else x.magnitude

/-- The magnitude counted in a smaller unit `2 ^ unit`. Meant for `unit ≤ x.exponent`, where the
value stays the same. -/
def magnitudeAt (x : Scaled) (unit : Int) : Nat :=
  x.magnitude <<< (x.exponent - unit).toNat

def mul (x y : Scaled) : Scaled where
  negative := x.negative != y.negative
  magnitude := x.magnitude * y.magnitude
  exponent := x.exponent + y.exponent

/-- The exact sum, in the smaller of the two units. A sum of zero carries no minus sign. -/
def add (x y : Scaled) : Scaled :=
  let unit := min x.exponent y.exponent
  -- in one unit the sum is one of integers
  let total := (⟨x.negative, x.magnitudeAt unit, unit⟩ : Scaled).mantissa
    + (⟨y.negative, y.magnitudeAt unit, unit⟩ : Scaled).mantissa
  ⟨decide (total < 0), total.natAbs, unit⟩

end Scaled

/-- **Division by a power of two.** The integer nearest to `m / 2 ^ k`, the even one of two equally
near. The first test only avoids building `2 ^ k` when the quotient is below one half. -/
def nearestShift (m k : Nat) : Nat :=
  if m.log2 + 1 < k then 0
  else
    let quotient := m >>> k
    let remainder := m - quotient <<< k
    -- the rest against one half
    match compare (2 * remainder) (1 <<< k) with
    | .lt => quotient
    | .eq => quotient + quotient % 2
    | .gt => quotient + 1

/-- A binary interchange layout: a fraction field below an exponent field below a sign bit. -/
structure Layout where
  /-- Width of the fraction field; a normal number has one more bit in front of it. -/
  fractionBits : Nat
  /-- The power of two that the smallest positive number is. -/
  floorExponent : Int
  /-- The pattern of infinity, one more than that of the largest finite number. -/
  infinityBits : Nat

namespace Layout

/-- Single precision: 8 exponent bits and 23 fraction bits. -/
def single : Layout := ⟨23, -149, 0x7f800000⟩

/-- Double precision: 11 exponent bits and 52 fraction bits. -/
def double : Layout := ⟨52, -1074, 0x7ff0000000000000⟩

/-- **Rounding a positive value.** The pattern of the number nearest to `m · 2 ^ e`, ties to the
even pattern, and infinity from half a unit above the largest finite number on. The unit is the last
place of a number of that size, but never smaller than the smallest positive number. -/
def magnitudeBits (l : Layout) (m : Nat) (e : Int) : Nat :=
  if m = 0 then 0
  else
    let unit := max (e + m.log2 - l.fractionBits) l.floorExponent
    let steps := if unit ≤ e then m <<< (e - unit).toNat else nearestShift m (unit - e).toNat
    -- the leading bit of `steps` reaches into the exponent field and counts one there
    min (((unit - l.floorExponent).toNat <<< l.fractionBits) + steps) l.infinityBits

/-- **The exact value of a finite pattern,** given its exponent field and its fraction field. A zero
exponent field stands for a number without the leading bit, in the unit of the next field. -/
def exact (l : Layout) (negative : Bool) (field fraction : Nat) : Scaled :=
  if field = 0 then ⟨negative, fraction, l.floorExponent⟩
  else ⟨negative, fraction + 1 <<< l.fractionBits, l.floorExponent + (field - 1 : Nat)⟩

end Layout

/-! ## Single and double precision

Operations on `Float32` and `Float` that are exact, or exact up to one rounding, and that are
therefore defined through the exact value of their operands:

* `widen` / `narrow` — single to double precision, which loses nothing, and back, which rounds once;
* `fusedMulAdd` — `a * b + c` with a single rounding at the end;
* `remainder` — what truncated division leaves, which is always representable;
* `modulo` — the same, moved into the range that starts at zero.

`greater`, `lesser` and `clamp?` are the order-based choices of single precision. The first two pass
over a NaN when the other operand is a number; `clamp?` has no answer when its bounds are not in
order, which a NaN bound never is.
-/

/-- The exact value of a finite single-precision number. -/
def exactSingle (x : Float32) : Scaled :=
  let bits := x.toBits
  Layout.single.exact (bits >>> 31 == 1) ((bits >>> 23) &&& 0xff).toNat (bits &&& 0x7fffff).toNat

/-- The exact value of a finite double-precision number. -/
def exactDouble (x : Float) : Scaled :=
  let bits := x.toBits
  Layout.double.exact (bits >>> 63 == 1) ((bits >>> 52) &&& 0x7ff).toNat
    (bits &&& 0xfffffffffffff).toNat

/-- The single-precision number nearest to an exact value. -/
def toSingle (x : Scaled) : Float32 :=
  let size := UInt32.ofNat (Layout.single.magnitudeBits x.magnitude x.exponent)
  Float32.ofBits (if x.negative then size ||| 0x80000000 else size)

/-- The double-precision number nearest to an exact value. -/
def toDouble (x : Scaled) : Float :=
  let size := UInt64.ofNat (Layout.double.magnitudeBits x.magnitude x.exponent)
  Float.ofBits (if x.negative then size ||| 0x8000000000000000 else size)

def infinity : Float32 := Float32.ofBits 0x7f800000

def notANumber : Float32 := Float32.ofBits 0x7fc00000

/-- Whether the sign bit is set, also for a zero. -/
def signed (x : Float32) : Bool :=
  x.toBits >>> 31 == 1

/-- **Single to double precision.** Every finite value is kept; so are infinities and NaN. -/
def widen (x : Float32) : Float :=
  if x.isFinite then toDouble (exactSingle x)
  else if x.isNaN then Float.ofBits 0x7ff8000000000000
  else if signed x then Float.ofBits 0xfff0000000000000
  else Float.ofBits 0x7ff0000000000000

/-- **Double to single precision.** The nearest number, ties to even; infinities and NaN are kept.
-/
def narrow (x : Float) : Float32 :=
  if x.isFinite then toSingle (exactDouble x)
  else if x.isNaN then notANumber
  else if x.toBits >>> 63 == 1 then -infinity
  else infinity

/-- **Multiply and add with one rounding.** Where the product is exact without help, that is for a
zero or a factor that is not finite, the two plain operations already give the answer; a sum that
cancels exactly is positive zero. -/
def fusedMulAdd (a b c : Float) : Float :=
  if a.isFinite && b.isFinite then
    if c.isFinite then
      let product := (exactDouble a).mul (exactDouble b)
      if product.magnitude = 0 then a * b + c
      else toDouble (product.add (exactDouble c))
    else c
  else a * b + c

/-- **The remainder of truncated division,** with the sign of the dividend. In a common unit both
operands are integers, so the result is the remainder of integers and no rounding happens. There is
none for an infinite dividend or a zero divisor. -/
def remainder (x y : Float32) : Float32 :=
  if !x.isFinite || y.isNaN then notANumber
  else if !y.isFinite then x
  else
    let dividend := exactSingle x
    let divisor := exactSingle y
    if divisor.magnitude = 0 then notANumber
    else
      let unit := min dividend.exponent divisor.exponent
      toSingle ⟨dividend.negative, dividend.magnitudeAt unit % divisor.magnitudeAt unit, unit⟩

/-- **The remainder moved to the non-negative side:** a negative one gets the divisor's absolute
value added, which rounds and may reach the divisor itself. -/
def modulo (x y : Float32) : Float32 :=
  let r := remainder x y
  if r < 0 then r + y.abs else r

/-- The greater of two numbers, or the one that is a number. -/
def greater (a b : Float32) : Float32 :=
  if a.isNaN then b else if b.isNaN then a else if a > b then a else b

/-- The lesser of two numbers, or the one that is a number. -/
def lesser (a b : Float32) : Float32 :=
  if a.isNaN then b else if b.isNaN then a else if a < b then a else b

/-- **Limiting to a range.** A NaN stays; there is no answer unless `low ≤ high`. -/
def clamp? (x low high : Float32) : Option Float32 :=
  if low ≤ high then some (if x < low then low else if x > high then high else x) else none

end Skirmish.Numeric
