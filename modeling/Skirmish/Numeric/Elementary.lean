import Skirmish.Numeric.Binary

/-!
# Elementary functions

Sine, cosine, arctangent and power in single precision. Each of them reduces its argument to a short
interval, takes a polynomial there in double precision, and rounds once.
-/

/-! ## Sine and cosine

Single-precision sine and cosine, evaluated in double precision. The argument is reduced to the
nearest multiple of a quarter turn, and one of two polynomials is taken at the rest:

* `reduceNear` — the reduction by one fused multiply-add, for arguments below 120;
* `reduceFar` — the reduction in 64-bit integers against the digits of `4 / π`, for any finite one;
* `oddSeries` / `evenSeries` — the sine and cosine polynomials on an eighth of a turn;
* `quadrant` — the choice of polynomial and sign by the number of quarter turns.

Cosine is sine a quarter turn further on, so both share `quadrant`. The polynomials stay within the
unit interval up to their rounding error; `unitInterval` makes the bound hold by definition, so that
`sine` and `cosine` of a finite argument are finite and at most one in absolute value.
-/

namespace Skirmish.Numeric

/-- The number of quarter turns taken off an angle, counted modulo four, and what is left. -/
structure Reduced where
  /-- Quarter turns, of which only the last two bits matter. -/
  turns : UInt64
  /-- The remaining angle in radians, within an eighth of a turn up to rounding. -/
  rest : Float

/-- The upper eleven bits of the absolute value, which order numbers by size in steps of an eighth
of a power of two. -/
def sizeClass (x : Float32) : UInt32 :=
  (x.toBits >>> 20) &&& 0x7ff

def quarterTurn : Float := Float.ofBits 0x3ff921fb54442d18

/-- Quarter turns in a radian, times `2 ^ 24`. -/
def quartersPerRadian : Float := Float.ofBits 0x41645f306dc9c883

/-- **Reduction of a moderate angle.** The nearest number of quarter turns comes from a product with
24 fraction bits, and a single rounding takes it off. -/
def reduceNear (x : Float) : Reduced :=
  -- in fixed point: a half is added, and the fraction shifted out
  let scaled := (x * quartersPerRadian).toInt64
  let turns := (scaled + 0x800000) >>> 24
  ⟨turns.toUInt64, fusedMulAdd (-turns.toFloat) quarterTurn x⟩

/-- The binary digits of `4 / π`, cut into overlapping words of 32 bits that start 8 bits apart. -/
def quarterDigits : Array UInt32 :=
  #[0xa2, 0xa2f9, 0xa2f983, 0xa2f9836e, 0xf9836e4e, 0x836e4e44, 0x6e4e4415, 0x4e441529,
    0x441529fc, 0x1529fc27, 0x29fc2757, 0xfc2757d1, 0x2757d1f5, 0x57d1f534, 0xd1f534dd, 0xf534ddc0,
    0x34ddc0db, 0xddc0db62, 0xc0db6295, 0xdb629599, 0x6295993c, 0x95993c43, 0x993c4390, 0x3c439041]

/-- A quarter turn in radians, divided by `2 ^ 62`. -/
def quarterTurnUnit : Float := Float.ofBits 0x3c1921fb54442d18

/-- **Reduction of any finite angle,** given the bits of its absolute value. The fraction is
multiplied by those 96 digits of `4 / π` that matter for an angle of this size: higher ones only add
whole turns. The top two bits of the product count quarter turns. -/
def reduceFar (bits : UInt32) : Reduced :=
  let word (i : Nat) : UInt32 := quarterDigits.getD (((bits >>> 26) &&& 15).toNat + i) 0
  -- the mantissa, shifted by what the choice of words leaves over of the exponent
  let fraction := ((bits &&& 0xffffff) ||| 0x800000) <<< ((bits >>> 23) &&& 7)
  let high := (fraction * word 0).toUInt64
  let middle := fraction.toUInt64 * (word 4).toUInt64
  let low := fraction.toUInt64 * (word 8).toUInt64
  -- 64 bits in the middle of the product: above them are whole turns, below them too little
  let product := ((low >>> 32) ||| (high <<< 32)) + middle
  let turns := (product + 0x2000000000000000) >>> 62
  let rest := product - turns <<< 62
  ⟨turns, rest.toInt64.toFloat * quarterTurnUnit⟩

/-- The sine polynomial, of degree seven. -/
def oddSeries (x : Float) : Float :=
  let square := x * x
  let cube := x * square
  let tail := fusedMulAdd square (Float.ofBits 0xbf2994eb3774cf24) (Float.ofBits 0x3f81107605230bc4)
  let head := fusedMulAdd cube (Float.ofBits 0xbfc555545995a603) x
  fusedMulAdd (cube * square) tail head

/-- The cosine polynomial, of degree eight. -/
def evenSeries (x : Float) : Float :=
  let square := x * x
  let fourth := square * square
  let tail := fusedMulAdd square (Float.ofBits 0x3ef99343027bf8c3) (Float.ofBits 0xbf56c087e89a359d)
  let start := fusedMulAdd square (Float.ofBits 0xbfdffffffd0c621c) 1
  let head := fusedMulAdd fourth (Float.ofBits 0x3fa55553e1068f19) start
  fusedMulAdd (fourth * square) tail head

/-- The value limited to the unit interval around zero. A NaN goes to one. -/
def unitInterval (x : Float32) : Float32 :=
  if x ≤ 1 then if -1 ≤ x then x else -1 else 1

/-- **The sine of an angle given in quarter turns and a rest.** -/
def quadrant (turns : UInt64) (rest : Float) : Float32 :=
  match (turns &&& 3).toNat with
  | 0 => unitInterval (narrow (oddSeries rest))
  | 1 => unitInterval (narrow (evenSeries rest))
  | 2 => unitInterval (narrow (-oddSeries rest))
  | _ => unitInterval (narrow (-evenSeries rest))

/-- **Sine.** Below `2 ^ -12` the argument itself is the nearest number; no finite angle means no
sine. A large negative angle is reduced without its sign, which half a turn then restores. -/
def sine (x : Float32) : Float32 :=
  if !x.isFinite then notANumber
  else if sizeClass x < 0x398 then unitInterval x
  else if sizeClass x < 0x3f4 then quadrant 0 (widen x)
  else if sizeClass x < 0x42f then
    let r := reduceNear (widen x)
    quadrant r.turns r.rest
  else
    let r := reduceFar (x.toBits &&& 0x7fffffff)
    quadrant (if signed x then r.turns + 2 else r.turns) r.rest

/-- **Cosine.** Below `2 ^ -12` it is one; an angle and its negative have the same cosine, so a
large one is reduced without its sign. -/
def cosine (x : Float32) : Float32 :=
  if !x.isFinite then notANumber
  else if sizeClass x < 0x398 then 1
  else if sizeClass x < 0x3f4 then quadrant 1 (widen x)
  else if sizeClass x < 0x42f then
    let r := reduceNear (widen x)
    quadrant (r.turns + 1) r.rest
  else
    let r := reduceFar (x.toBits &&& 0x7fffffff)
    quadrant (r.turns + 1) r.rest

/-! ## Arctangent

The angle of a point in single precision. Arguments are folded onto `[0, 7/16]` by one of four
rational substitutions, each around a point whose arctangent is kept in two parts:

* `arctangent` — of a slope;
* `arctangent2` — of a point, in the quadrant that the signs of both coordinates give, with
  conventions for zeros and infinities.
-/

/-- Single precision from its bit pattern. -/
private abbrev bits (b : UInt32) : Float32 := Float32.ofBits b

/-- The part of `arctangent x / x - 1` that is odd in the square of the argument, at `w = x ^ 4`. -/
def arctangentOdd (z w : Float32) : Float32 :=
  z * (bits 0x3eaaaaab + w * (bits 0x3e124925 + w * (bits 0x3dba2e6e + w * (bits 0x3d886b35
    + w * (bits 0x3d4bda59 + w * bits 0x3c8569d7)))))

/-- The part that is even in the square of the argument. -/
def arctangentEven (w : Float32) : Float32 :=
  w * (bits 0xbe4ccccd + w * (bits 0xbde38e38 + w * (bits 0xbd9d8795 + w * (bits 0xbd6ef16b
    + w * bits 0xbd15a221))))

/-- What the arctangent falls short of its argument. -/
def arctangentDefect (x : Float32) : Float32 :=
  let z := x * x
  let w := z * z
  x * (arctangentOdd z w + arctangentEven w)

/-- The arctangent of a point around which the argument was folded, in two parts, plus that of the
folded argument. -/
def unfold (high low folded : Float32) : Float32 :=
  high - ((arctangentDefect folded - low) - folded)

/-- The arctangent of a slope of at least `7/16`. -/
def arctangentSteep (x : Float32) : Float32 :=
  if x.toBits < 0x3f300000 then
    unfold (bits 0x3eed6338) (bits 0x31ac3769) ((2 * x - 1) / (2 + x))
  else if x.toBits < 0x3f980000 then
    unfold (bits 0x3f490fda) (bits 0x33222168) ((x - 1) / (x + 1))
  else if x.toBits < 0x401c0000 then
    unfold (bits 0x3f7b985e) (bits 0x33140fb4) ((x - 1.5) / (1 + 1.5 * x))
  else
    unfold (bits 0x3fc90fda) (bits 0x33a22168) (-1 / x)

/-- **The angle of a slope.** From `2 ^ 25` on it is a quarter turn, and below `2 ^ -29` the slope
itself. -/
def arctangent (x : Float32) : Float32 :=
  let size := x.toBits &&& 0x7fffffff
  if x.isNaN then notANumber
  else if size ≥ 0x4c000000 then
    let quarter := bits 0x3fc90fda + bits 0x33a22168
    if signed x then -quarter else quarter
  else if size < 0x31000000 then x
  else if size < 0x3ee00000 then x - arctangentDefect x
  else
    let angle := arctangentSteep x.abs
    if signed x then -angle else angle

def halfTurn : Float32 := bits 0x40490fdb

/-- What `halfTurn` exceeds half a turn by, negated. -/
def halfTurnError : Float32 := bits 0xb3bbbd2e

/-- The angle of a point off both axes, from the slopes of its absolute values. Beyond a factor of
`2 ^ 60` between the coordinates the smaller one does not show. -/
def firstQuadrantAngle (y x : Float32) : Float32 :=
  let gap := ((y.toBits &&& 0x7fffffff).toNat : Int) - ((x.toBits &&& 0x7fffffff).toNat : Int)
  if gap ≥ 61 * 0x800000 then bits 0x3fc90fdb + 0.5 * halfTurnError
  else if signed x && gap < -60 * 0x800000 then 0
  else arctangent (y / x).abs

/-- **The angle of a point,** counted from the positive first axis. The signs of zeros and infinite
coordinates choose among the eight directions; all else goes by the first quadrant. -/
def arctangent2 (y x : Float32) : Float32 :=
  -- an angle of the upper half plane, or its mirror image
  let below (angle : Float32) : Float32 := if signed y then -angle else angle
  if x.isNaN || y.isNaN then notANumber
  else if x.toBits = 0x3f800000 then arctangent y
  else if y == 0 then if signed x then below halfTurn else y
  else if x == 0 then below (bits 0x3fc90fdb)
  else if !x.isFinite then
    if !y.isFinite then below (if signed x then 3 * bits 0x3f490fdb else bits 0x3f490fdb)
    else below (if signed x then halfTurn else 0)
  else if !y.isFinite then below (bits 0x3fc90fdb)
  else
    let angle := firstQuadrantAngle y x
    match signed x, signed y with
    | false, false => angle
    | false, true => -angle
    | true, false => halfTurn - (angle - halfTurnError)
    | true, true => (angle - halfTurnError) - halfTurn

end Skirmish.Numeric

/-! ## Powers

Single-precision `x ^ y`, as `2 ^ (y · log2 x)` in double precision:

* `binaryLog` — the logarithm of a positive number, from one of 16 intervals with a known reciprocal
  and logarithm of a point inside it, and a polynomial around that point;
* `binaryExp` — the exponential, from one of 32 fractions of a power of two and a polynomial;
* `power` — the signs, zeros, infinities and limits around them.

Every number to the power zero is one, also a NaN, and one to every power is one.
-/

namespace Skirmish.Numeric

/-- The reciprocal of a point in each sixteenth of a binade. -/
def logReciprocals : Array UInt64 :=
  #[0x3ff661ec79f8f3be, 0x3ff571ed4aaf883d, 0x3ff49539f0f010b0, 0x3ff3c995b0b80385,
    0x3ff30d190c8864a5, 0x3ff25e227b0b8ea0, 0x3ff1bb4a4a1a343f, 0x3ff12358f08ae5ba,
    0x3ff0953f419900a7, 0x3ff0000000000000, 0x3fee608cfd9a47ac, 0x3feca4b31f026aa0,
    0x3feb2036576afce6, 0x3fe9c2d163a1aa2d, 0x3fe886e6037841ed, 0x3fe767dcf5534862]

/-- The logarithm of that point. -/
def logOffsets : Array UInt64 :=
  #[0xbfdefec65b963019, 0xbfdb0b6832d4fca4, 0xbfd7418b0a1fb77b, 0xbfd39de91a6dcf7b,
    0xbfd01d9bf3f2b631, 0xbfc97c1d1b3b7af0, 0xbfc2f9e393af3c9f, 0xbfb960cbbf788d5c,
    0xbfaa6f9db6475fce, 0x0, 0x3fb338ca9f24f53d, 0x3fc476a9543891ba,
    0x3fce840b4ac4e4d2, 0x3fd40645f0c6651c, 0x3fd88e9c2c1b9ff8, 0x3fdce0a44eb17bcc]

/-- **The logarithm to base two** of the positive normal number with this pattern. The exponent
field may run below zero, which stands for a subnormal number scaled up. -/
def binaryLog (pattern : UInt32) : Float :=
  let shifted := pattern - 0x3f330000
  let top := shifted &&& 0xff800000
  let slot := ((shifted >>> 19) &&& 15).toNat
  let center := Float.ofBits (logReciprocals.getD slot 0)
  -- the number without the power of two that the offset accounts for
  let point := widen (Float32.ofBits (pattern - top))
  let offset := Float.ofBits (logOffsets.getD slot 0) + (top.toInt32 >>> 23).toFloat
  let r := fusedMulAdd point center (-1)
  let square := r * r
  let high := fusedMulAdd (Float.ofBits 0x3fd27616c9496e0b) r (Float.ofBits 0xbfd71969a075c67a)
  let middle := fusedMulAdd (Float.ofBits 0x3fdec70a6ca7badd) r (Float.ofBits 0xbfe7154748bef6c8)
  let low := fusedMulAdd (Float.ofBits 0x3ff71547652ab82b) r offset
  fusedMulAdd high (square * square) (fusedMulAdd middle square low)

/-- The pattern of `2 ^ (i / 32)`, with `i` taken off the exponent's low bits in advance. -/
def expFractions : Array UInt64 :=
  #[0x3ff0000000000000, 0x3fefd9b0d3158574, 0x3fefb5586cf9890f, 0x3fef9301d0125b51,
    0x3fef72b83c7d517b, 0x3fef54873168b9aa, 0x3fef387a6e756238, 0x3fef1e9df51fdee1,
    0x3fef06fe0a31b715, 0x3feef1a7373aa9cb, 0x3feedea64c123422, 0x3feece086061892d,
    0x3feebfdad5362a27, 0x3feeb42b569d4f82, 0x3feeab07dd485429, 0x3feea47eb03a5585,
    0x3feea09e667f3bcd, 0x3fee9f75e8ec5f74, 0x3feea11473eb0187, 0x3feea589994cce13,
    0x3feeace5422aa0db, 0x3feeb737b0cdc5e5, 0x3feec49182a3f090, 0x3feed503b23e255d,
    0x3feee89f995ad3ad, 0x3feeff76f2fb5e47, 0x3fef199bdd85529c, 0x3fef3720dcef9069,
    0x3fef5818dcfba487, 0x3fef7c97337b9b5f, 0x3fefa4afa2a490da, 0x3fefd0765b6e4540]

/-- Adding this number and taking it off again rounds to a multiple of `1 / 32`. -/
def expShift : Float := Float.ofBits 0x42e8000000000000

/-- **The exponential to base two,** with a minus sign if asked for. -/
def binaryExp (x : Float) (negative : Bool) : Float32 :=
  let shifted := x + expShift
  let r := x - (shifted - expShift)
  -- the sum has rounded the exponent, and its low bits say to how many parts of 32
  let count := shifted.toBits
  let slot := expFractions.getD (count &&& 31).toNat 0
  let scale := Float.ofBits (slot + (if negative then count + 0x10000 else count) <<< 47)
  let head := fusedMulAdd (Float.ofBits 0x3fe62e42ff0c52d6) r 1
  let tail := fusedMulAdd (Float.ofBits 0x3fac6af84b912394) r (Float.ofBits 0x3fcebfce50fac4f3)
  narrow (fusedMulAdd tail (r * r) head * scale)

/-- What an exponent is as a whole number: that decides the sign of a negative number's power. -/
inductive Parity where
  | fractional
  | odd
  | even
deriving DecidableEq, Repr

/-- The parity of a finite number. From `2 ^ 24` on every number is even. -/
def parity (y : Float32) : Parity :=
  let exact := exactSingle y
  if 0 < exact.exponent then .even
  else
    let unit := 1 <<< (-exact.exponent).toNat
    if exact.magnitude % unit ≠ 0 then .fractional
    else if exact.magnitude / unit % 2 = 1 then .odd
    else .even

/-- The power of a positive finite number, or of its negative with an odd exponent. Outside the
range of the layout it is infinite or zero, and just below the range the smallest number. -/
def finitePower (x : Float32) (y : Float32) (negative : Bool) : Float32 :=
  let size := x.toBits &&& 0x7fffffff
  -- a subnormal base is scaled up first, and the exponent field of the result is put right
  let pattern :=
    if size < 0x00800000 then ((x * 8388608).toBits &&& 0x7fffffff) - 0x0b800000 else size
  let exponent := widen y * binaryLog pattern
  let withSign (z : Float32) : Float32 := if negative then -z else z
  if exponent > Float.ofBits 0x405fffffffd1d571 then withSign infinity
  else if exponent ≤ -150 then withSign 0
  else if exponent < -149 then withSign (Float32.ofBits 1)
  else binaryExp exponent negative

/-- The power with an infinite exponent: the base decides by its size whether it grows. -/
def infinitePower (x y : Float32) : Float32 :=
  if x.abs == 1 then 1
  else if (x.abs < 1) == signed y then infinity
  else 0

/-- The power of a zero or an infinity to a finite exponent other than zero. -/
def extremePower (x y : Float32) : Float32 :=
  let size := if (x == 0) == signed y then infinity else 0
  if signed x && parity y = .odd then -size else size

/-- **Powers.** A negative number has a power only to a whole exponent. -/
def power (x y : Float32) : Float32 :=
  if y == 0 || x == 1 then 1
  else if x.isNaN || y.isNaN then notANumber
  else if !y.isFinite then infinitePower x y
  else if x == 0 || !x.isFinite then extremePower x y
  else if !signed x then finitePower x y false
  else
    match parity y with
    | .fractional => notANumber
    | .odd => finitePower x y true
    | .even => finitePower x y false

end Skirmish.Numeric
