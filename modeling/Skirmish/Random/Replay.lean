import Skirmish.Geometry

/-!
# Random numbers that can be replayed

Draws are functions of words, and words come from a source: a generator that is seeded, or a list
that was written down.
-/

/-! ## Random draws

A `WordSource` yields 64-bit words one after another. Every other draw is a function of one word:

* `drawUnit` — a multiple of `2 ^ -24` in `[0, 1)`, from the upper 24 of the low 32 bits;
* `drawBetween` — a number from a range;
* `drawAngle` — a direction;
* `drawBool` — the lowest bit.

Each draw returns its value with the source as it is afterwards.
-/

namespace Skirmish.Random

/-- A source of random words: the next word, and the source after it. -/
class WordSource (σ : Type) where
  next : σ → UInt64 × σ

variable {σ : Type} [WordSource σ]

def drawWord (s : σ) : UInt64 × σ :=
  WordSource.next s

/-- The low half of the next word. -/
def drawHalf (s : σ) : UInt32 × σ :=
  let (word, s) := drawWord s
  (word.toUInt32, s)

/-- The number `k / 2 ^ 24`, where `k` is the upper 24 bits of half a word. -/
def unitOfHalf (half : UInt32) : Float32 :=
  (half >>> 8).toFloat32 / 16777216

/-- **A number in `[0, 1)`.** -/
def drawUnit (s : σ) : Float32 × σ :=
  let (half, s) := drawHalf s
  (unitOfHalf half, s)

/-- **A number from `low` up to `high`,** which itself is drawn only if a sum is rounded up to it.
An empty range yields its lower end and takes no word. -/
def drawBetween (low high : Float32) (s : σ) : Float32 × σ :=
  if high ≤ low then (low, s)
  else
    let (unit, s) := drawUnit s
    (low + (high - low) * unit, s)

/-- A direction in `[0, tau)`. -/
def drawAngle (s : σ) : Float32 × σ :=
  let (unit, s) := drawUnit s
  (unit * tau, s)

def drawBool (s : σ) : Bool × σ :=
  let (word, s) := drawWord s
  (word &&& 1 == 1, s)

end Skirmish.Random

/-! ## The SplitMix generator

A 64-bit counter that advances by a fixed odd step, seen through a mixing function:

* `mix` — two rounds of xor-shift and multiplication, and a last xor-shift;
* `SplitMix` — the generator, whose whole state is the counter;
* `deriveSeed` — a seed of its own for each agent and stream of one global seed.
-/

namespace Skirmish.Random

/-- The counter's step: the odd number nearest to `2 ^ 64` divided by the golden ratio. -/
def goldenStep : UInt64 := 0x9e3779b97f4a7c15

/-- **The mixing function.** Each of its five steps can be undone, so it maps no two words to one.
-/
def mix (x : UInt64) : UInt64 :=
  let x := (x ^^^ (x >>> 30)) * 0xbf58476d1ce4e5b9
  let x := (x ^^^ (x >>> 27)) * 0x94d049bb133111eb
  x ^^^ (x >>> 31)

/-- The generator: its state is a counter. -/
structure SplitMix where
  state : UInt64
deriving DecidableEq, Repr

/-- The counter goes up first, and the word is the mixed counter. -/
instance : WordSource SplitMix where
  next s :=
    -- the seed itself is never mixed into a word
    let state := s.state + goldenStep
    (mix state, ⟨state⟩)

/-- **Seeds that do not depend on each other.** -/
def deriveSeed (globalSeed agent stream : UInt64) : UInt64 :=
  mix (globalSeed ^^^ mix (agent + goldenStep) ^^^ mix stream)

/-! ## Replayed words

A word source that repeats a fixed list of words for ever, to see the draws at chosen words.
-/

/-- A list of words and how many of them have been drawn since the list last began. -/
structure Replay where
  words : List UInt64
  /-- The words still to come in this round. -/
  pending : List UInt64
deriving DecidableEq, Repr

def Replay.ofList (words : List UInt64) : Replay :=
  ⟨words, words⟩

/-- After the last word comes the first again. A replay of nothing yields zeros. -/
instance : WordSource Replay where
  next r :=
    match r.pending with
    | word :: rest => (word, { r with pending := rest })
    | [] =>
      match r.words with
      | word :: rest => (word, { r with pending := rest })
      | [] => (0, r)

end Skirmish.Random
