import Skirmish.Numeric.Binary
import Skirmish.Numeric.Elementary

/-!
# Geometry of motion

Points and directions in the plane, and what moves them.
-/

/-! ## Vectors in the plane

Positions and velocities, with single-precision coordinates. Every operation rounds once per
arithmetic step, in the order in which it is written here.
-/

namespace Skirmish

/-- A point or a displacement in world units. -/
structure Vector2 where
  x : Float32
  y : Float32

namespace Vector2

def zero : Vector2 := ⟨0, 0⟩

instance : Inhabited Vector2 := ⟨zero⟩

/-- Equality of both coordinates as numbers: zeros of either sign agree, a NaN agrees with nothing.
-/
instance : BEq Vector2 := ⟨fun v w => v.x == w.x && v.y == w.y⟩

instance : Add Vector2 := ⟨fun v w => ⟨v.x + w.x, v.y + w.y⟩⟩

instance : Sub Vector2 := ⟨fun v w => ⟨v.x - w.x, v.y - w.y⟩⟩

instance : Neg Vector2 := ⟨fun v => ⟨-v.x, -v.y⟩⟩

instance : HMul Vector2 Float32 Vector2 := ⟨fun v k => ⟨v.x * k, v.y * k⟩⟩

instance : HDiv Vector2 Float32 Vector2 := ⟨fun v k => ⟨v.x / k, v.y / k⟩⟩

def dot (v w : Vector2) : Float32 :=
  v.x * w.x + v.y * w.y

def lengthSquared (v : Vector2) : Float32 :=
  v.dot v

def length (v : Vector2) : Float32 :=
  v.lengthSquared.sqrt

def distance (v w : Vector2) : Float32 :=
  (w - v).length

def isFinite (v : Vector2) : Bool :=
  v.x.isFinite && v.y.isFinite

/-- **Limiting the length.** A longer vector is scaled down to the limit and keeps its direction. -/
def clampLength (v : Vector2) (limit : Float32) : Vector2 :=
  let length := v.length
  if length > limit && length > 0 then v * (limit / length) else v

end Vector2

/-! ## Angles

Angles are in radians, counted from the first axis towards the second:

* `wrapAngle` — the same direction as an angle of at most half a turn either way;
* `Vector2.ofAngle` — the unit vector in a direction;
* `Vector2.bearing` — the direction from one point to another.
-/

/-- Half a turn. -/
def pi : Float32 := Float32.ofBits 0x40490fdb

/-- A full turn. -/
def tau : Float32 := Float32.ofBits 0x40c90fdb

/-- **Wrapping an angle.** An angle that is not finite has no direction and becomes zero. -/
def wrapAngle (angle : Float32) : Float32 :=
  if angle.isFinite then
    let turned := Numeric.modulo angle tau
    if turned > pi then turned - tau else turned
  else 0

namespace Vector2

/-- The unit vector in the direction of an angle. -/
def ofAngle (angle : Float32) : Vector2 :=
  ⟨Numeric.cosine angle, Numeric.sine angle⟩

/-- The direction in which `w` is seen from `v`. -/
def bearing (v w : Vector2) : Float32 :=
  let d := w - v
  Numeric.arctangent2 d.y d.x

end Vector2

end Skirmish

/-! ## Motion

One frame of movement under thrust, by explicit Euler steps:

* `turnToward` — rotation towards a bearing at a limited speed;
* `thrust` — acceleration in the direction of an angle, with a top speed;
* `advance` — a position moved on by a velocity;
* `drag` — exponential decay of a velocity.

All take the frame's duration in seconds through `usableTime`, so a duration that is negative or not
finite counts as no time at all.
-/

namespace Skirmish.Motion

/-- The duration of a frame, zero if it is negative or not finite. -/
def usableTime (dt : Float32) : Float32 :=
  if dt.isFinite then Numeric.greater dt 0 else 0

structure Turn where
  angle : Float32
  /-- What is left to the bearing, the shorter way round. -/
  error : Float32

/-- **Turning toward a bearing** by at most `turnSpeed · dt`, the shorter way round. There is no
outcome when that limit is not a number, which takes an infinite speed and no time. -/
def turnToward (angle bearing turnSpeed dt : Float32) : Option Turn :=
  let limit := Numeric.greater turnSpeed 0 * usableTime dt
  (Numeric.clamp? (wrapAngle (bearing - angle)) (-limit) limit).map fun step =>
    -- what is left is measured from the new angle
    let next := wrapAngle (angle + step)
    ⟨next, wrapAngle (bearing - next)⟩

/-- **Thrust** along an angle for a frame, then the limit to the top speed. -/
def thrust (velocity : Vector2) (angle acceleration maxSpeed dt : Float32) : Vector2 :=
  (velocity + Vector2.ofAngle angle * (acceleration * usableTime dt)).clampLength
    (Numeric.greater maxSpeed 0)

def advance (position velocity : Vector2) (dt : Float32) : Vector2 :=
  position + velocity * usableTime dt

/-- **Drag** that does not depend on the frame rate: the velocity is multiplied by `factor` once for
each period of `referenceHz`, in fractions of a period too. -/
def drag (velocity : Vector2) (factor referenceHz dt : Float32) : Vector2 :=
  velocity * Numeric.power factor (usableTime dt * referenceHz)

end Skirmish.Motion
