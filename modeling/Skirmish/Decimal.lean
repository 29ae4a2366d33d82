import Skirmish.Numeric.Binary

/-!
# Decimals

Numbers as people write them: the shortest decimal of a number, the text of a decimal, and the
number nearest to a text.
-/

/-! ## The shortest decimal

A single-precision number is read back from every decimal that is nearer to it than to its
neighbours. Among those this module picks one with the fewest digits:

* `Span` — the interval of reals that round to a number, with the number inside it;
* `Span.pick?` — the point of the grid `10 ^ g` inside a span that is nearest to the number;
* `shortest` — the pick on the coarsest grid that has one.

The search goes from coarse to fine, so the first grid that meets the span leaves no trailing zero
and no shorter decimal. On the finest grid the number itself is a point, so the search finds one.
-/

namespace Skirmish

/-- The number `digits · 10 ^ exponent`. -/
structure Decimal where
  digits : Nat
  /-- The power of ten they count. -/
  exponent : Int
deriving DecidableEq, Repr

namespace Decimal

open Numeric

/-- Which of two equally near grid points is taken. -/
inductive Tie where
  | toEven
  | away
deriving DecidableEq, Repr

/-- **The reals that round to a number,** in units of `2 ^ unit`. The ends belong to the span when
the number has an even pattern, for then a tie goes to it. -/
structure Span where
  lower : Nat
  value : Nat
  upper : Nat
  /-- The unit's power of two. -/
  unit : Int
  closed : Bool
deriving DecidableEq, Repr

/-- The span of a positive finite number. Below the first number of a binade the neighbour is only
half as far away. -/
def Span.ofSingle (x : Float32) : Span :=
  let v := exactSingle x
  let narrowBelow := v.magnitude == 0x800000 && Layout.single.floorExponent < v.exponent
  -- in quarters of the last place, so that half of it and a quarter are integers
  { lower := 4 * v.magnitude - (if narrowBelow then 1 else 2)
    value := 4 * v.magnitude
    upper := 4 * v.magnitude + 2
    unit := v.exponent - 2
    closed := v.magnitude % 2 == 0 }

/-- What a grid step and a span's unit are in a common measure, where both are integers. -/
def scales (g unit : Int) : Nat × Nat :=
  (Nat.pow 10 g.toNat * Nat.pow 2 (-unit).toNat, Nat.pow 10 (-g).toNat * Nat.pow 2 unit.toNat)

/-- Whether `n` grid steps lie inside the span. -/
def Span.contains (s : Span) (g : Int) (n : Nat) : Bool :=
  let (step, one) := scales g s.unit
  if s.closed then s.lower * one ≤ n * step && n * step ≤ s.upper * one
  else s.lower * one < n * step && n * step < s.upper * one

/-- **The pick on one grid.** Of the two grid points around the number, the one inside the span; of
two inside, the nearer; of two equally near, the one `tie` says. -/
def Span.pick? (s : Span) (tie : Tie) (g : Int) : Option Nat :=
  let (step, one) := scales g s.unit
  -- the last grid point that is not above the number
  let below := s.value * one / step
  match s.contains g below, s.contains g (below + 1) with
  | false, false => none
  | true, false => some below
  | false, true => some (below + 1)
  | true, true =>
    match compare (2 * (s.value * one - below * step)) step with
    | .lt => some below
    | .gt => some (below + 1)
    | .eq =>
      match tie with
      | .toEven => some (below + below % 2)
      | .away => some (below + 1)

/-- The pick on the coarsest of the grids `10 ^ g`, `10 ^ (g - 1)`, … that has one. -/
def Span.search (s : Span) (tie : Tie) (g : Int) : Nat → Decimal
  | 0 => ⟨0, 0⟩
  | grids + 1 =>
    match s.pick? tie g with
    | some n => ⟨n, g⟩
    | none => s.search tie (g - 1) grids

/-- **The shortest decimal** that reads back as the given positive finite number. No such number
exceeds `10 ^ 39`, and all are integers in units of `10 ^ -149`. -/
def shortest (tie : Tie) (x : Float32) : Decimal :=
  (Span.ofSingle x).search tie 39 200

end Decimal

end Skirmish

/-! ## Decimal text

How a number is written is a record of decisions, `Style`, and one function that follows it,
`Style.write`. The digits are always those of the shortest decimal; a style says which numbers are
written without an exponent, whether a whole number shows a fraction, and how a tie of two shortest
decimals goes. Styles themselves stand where their texts are written.
-/

namespace Skirmish.Decimal

/-- The decisions of one decimal format. The *point position* of a number counts the digits in front
of its decimal point: 1 for `1.5`, 0 for `0.15`, -1 for `0.015`. -/
structure Style where
  /-- How a tie of two shortest decimals goes. -/
  tie : Tie
  /-- Which point positions are written without an exponent. -/
  positional : Int → Bool
  /-- Whether a whole number written without an exponent ends in `.0`. -/
  showFraction : Bool
  notANumber : String
  infinity : String
  negativeInfinity : String

def digitText (n : Nat) : List Char :=
  Nat.toDigits 10 n

/-- An integer in decimal, with a minus sign if it is negative. -/
def integerText (n : Int) : List Char :=
  if n < 0 then '-' :: digitText n.natAbs else digitText n.natAbs

/-- **Positional notation:** zeros fill the places between the digits and the decimal point. -/
def positionalText (showFraction : Bool) (digits : List Char) (point : Int) : List Char :=
  if point ≤ 0 then
    '0' :: '.' :: (List.replicate (-point).toNat '0' ++ digits)
  else if digits.length ≤ point.toNat then
    digits ++ List.replicate (point.toNat - digits.length) '0'
      ++ (if showFraction then ['.', '0'] else [])
  else
    digits.take point.toNat ++ '.' :: digits.drop point.toNat

/-- **Scientific notation:** one digit in front of the point, none behind it if there are no more.
-/
def scientificText (digits : List Char) (point : Int) : List Char :=
  let fraction := digits.drop 1
  digits.take 1 ++ (if fraction.isEmpty then [] else '.' :: fraction)
    ++ 'e' :: integerText (point - 1)

def Style.positive (s : Style) (x : Float32) : List Char :=
  let d := shortest s.tie x
  let digits := digitText d.digits
  -- the point is behind the last digit, moved by the exponent
  let point := digits.length + d.exponent
  if s.positional point then positionalText s.showFraction digits point
  else scientificText digits point

/-- A finite number: the sign in front, also of zero. -/
def Style.finite (s : Style) (x : Float32) : List Char :=
  let size := if x == 0 then (if s.showFraction then ['0', '.', '0'] else ['0'])
    else s.positive x.abs
  if Numeric.signed x then '-' :: size else size

/-- **The text of a number.** -/
def Style.write (s : Style) (x : Float32) : String :=
  if x.isNaN then s.notANumber
  else if x.isFinite then String.ofList (s.finite x)
  else if Numeric.signed x then s.negativeInfinity
  else s.infinity

/-! ## Reading decimals

The number nearest to a decimal, and the common grammar of decimal texts:

* `nearestSingle` / `nearestDouble` — correctly rounded, whatever the length of the decimal;
* `fractional?` — digits with an optional point and exponent, where either side of the point may be
  empty but not both;
* `digits?` — a whole number in any base up to sixteen.

A quotient by a power of ten is cut off with 64 bits or more and its last bit then stands for the
whole rest: that decides every later rounding as the exact value would.
-/

open Numeric

/-- The pattern nearest to a decimal, in any layout. The outer cases keep the powers of ten small:
beyond them the value is out of every layout's range. -/
def patternIn (l : Layout) (d : Decimal) : Nat :=
  if d.digits = 0 then 0
  else if 400 < d.exponent then l.infinityBits
  else if d.exponent < -(400 + d.digits.log2 : Int) then 0
  else if 0 ≤ d.exponent then l.magnitudeBits (d.digits * Nat.pow 10 d.exponent.toNat) 0
  else
    let divisor := Nat.pow 10 (-d.exponent).toNat
    -- enough for the quotient to have more bits than any layout, with one to tell a tie
    let shift := 66 + divisor.log2 - d.digits.log2
    let dividend := d.digits <<< shift
    -- whatever is left of the division is less than the last bit, but more than nothing
    let sticky := if dividend % divisor = 0 then 0 else 1
    l.magnitudeBits (2 * (dividend / divisor) + sticky) (-(shift + 1 : Nat))

def nearestSingle (d : Decimal) : Float32 :=
  Float32.ofBits (UInt32.ofNat (d.patternIn Layout.single))

def nearestDouble (d : Decimal) : Float :=
  Float.ofBits (UInt64.ofNat (d.patternIn Layout.double))

/-- The value of a digit, letters counting on from nine. -/
def digitValue? (c : Char) : Option Nat :=
  if '0' ≤ c ∧ c ≤ '9' then some (c.toNat - 48)
  else if 'a' ≤ c ∧ c ≤ 'f' then some (c.toNat - 87)
  else if 'A' ≤ c ∧ c ≤ 'F' then some (c.toNat - 55)
  else none

/-- Whether a character is one of the ten decimal digits. -/
def isDigit (c : Char) : Bool :=
  '0' ≤ c && c ≤ '9'

/-- The integer that a run of decimal digits continues. -/
def accumulate (start : Nat) (digits : List Char) : Nat :=
  digits.foldl (fun n c => 10 * n + (c.toNat - 48)) start

/-- **A whole number** in a base: every character is a digit of the base, and there is one. -/
def digits? (base : Nat) (text : List Char) : Option Nat :=
  if text.isEmpty then none
  else
    text.foldlM (fun n c => (digitValue? c).bind fun d =>
      if d < base then some (base * n + d) else none) 0

/-- The exponent part of a decimal: nothing, or a letter, an optional sign and digits. -/
def exponent? : List Char → Option Int
  | [] => some 0
  | c :: rest =>
    if c = 'e' ∨ c = 'E' then
      match rest with
      | '-' :: digits => (digits? 10 digits).map fun n => -(n : Int)
      | '+' :: digits => (digits? 10 digits).map fun n => (n : Int)
      | digits => (digits? 10 digits).map fun n => (n : Int)
    else none

/-- **An unsigned decimal,** the whole text: digits around an optional point, then an optional
exponent. -/
def fractional? (text : List Char) : Option Decimal :=
  let whole := text.takeWhile isDigit
  let afterWhole := text.dropWhile isDigit
  let (fraction, rest) :=
    match afterWhole with
    | '.' :: more => (more.takeWhile isDigit, more.dropWhile isDigit)
    | more => ([], more)
  if whole.isEmpty && fraction.isEmpty then none
  else
    (exponent? rest).map fun e =>
      -- the digits behind the point continue those in front of it
      ⟨accumulate (accumulate 0 whole) fraction, e - fraction.length⟩

end Skirmish.Decimal
