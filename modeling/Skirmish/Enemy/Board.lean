import Skirmish.Geometry
import Skirmish.Random.Replay
import Skirmish.Tree

/-!
# Enemies

What there is to know about one enemy:

* `Body` — its place, motion and stats;
* `Memory` — what it remembers from one tick to the next;
* `Board` — all that its tree reads and writes, with copies of what it sees around it;
* `Regime` — what it is doing, which follows from the board and is not stored.

Every frame the board takes over the `Surroundings` and moves its clock on. A duration that is not a
positive finite number leaves the elapsed time as it is; the step counts all the same.
-/

namespace Skirmish.Enemy

/-- One enemy as a moving body. -/
structure Body where
  /-- Its stable number. -/
  id : UInt64
  position : Vector2
  velocity : Vector2
  angle : Float32
  radius : Float32
  /-- It lives as long as this is positive. -/
  health : Float32
  /-- How near a target must come to be seen. -/
  visionRadius : Float32
  /-- How much farther away a target that was seen stays in view. -/
  visionHysteresis : Float32
  /-- How fast it turns, in radians per second. -/
  turnSpeed : Float32
  /-- How fast it gains speed, in units per second squared. -/
  acceleration : Float32
  /-- The speed that its own thrust is limited to. -/
  maxSpeed : Float32

/-- Whether the body lives. A health that is not a number is not positive. -/
def Body.isAlive (b : Body) : Bool :=
  decide (b.health > 0)

def Body.speed (b : Body) : Float32 :=
  b.velocity.length

/-- The target as it was last seen. -/
structure Target where
  position : Vector2
  velocity : Vector2

/-- Something large and fixed in the world. -/
structure Landmark where
  position : Vector2
  radius : Float32

/-- A place to patrol to. -/
structure Waypoint where
  point : Vector2
  /-- How many waypoints the enemy had chosen before. -/
  serial : UInt32

/-- What an enemy remembers from one tick to the next. -/
structure Memory where
  /-- Whether the target is in view. -/
  detected : Bool
  /-- Where the enemy is headed while it patrols. -/
  waypoint : Option Waypoint
  /-- Whether it has been there. -/
  reached : Bool
  /-- Where it was when it first chose a waypoint. -/
  spawn : Option Vector2
  /-- How many waypoints it has chosen. -/
  generated : UInt32

/-- The memory of an enemy that has not done anything. -/
def Memory.blank : Memory :=
  ⟨false, none, false, none, 0⟩

/-- What all enemies of a frame see. -/
structure Surroundings where
  target : Option Target
  landmarks : List Landmark

/-- **All that an enemy's tree reads and writes.** -/
structure Board where
  body : Body
  target : Option Target
  landmarks : List Landmark
  generator : Random.SplitMix
  /-- The time it has been driven for, in seconds. -/
  elapsed : Float32
  /-- The steps it has been driven for. -/
  step : UInt64
  memory : Memory

namespace Board

/-- A board for a body that has not done anything. -/
def new (body : Body) (target : Option Target) (seed : UInt64) : Board :=
  ⟨body, target, [], ⟨seed⟩, 0, 0, .blank⟩

def targetDistance? (b : Board) : Option Float32 :=
  b.target.map fun t => b.body.position.distance t.position

/-- The board at the beginning of a frame. -/
def refresh (s : Surroundings) (dt : Float32) (b : Board) : Board :=
  { b with
    target := s.target
    landmarks := s.landmarks
    elapsed := if dt.isFinite && decide (dt > 0) then b.elapsed + dt else b.elapsed
    step := b.step + 1 }

/-- An enemy's trace is left to its agent's sink. -/
instance : Tree.Driven Board Surroundings where
  agent b := b.body.id
  step := Board.step
  emit _ _ b := b
  refresh := refresh
  isAlive b := b.body.isAlive

@[simp] theorem emit_eq (label status : String) (b : Board) : Tree.Host.emit label status b = b :=
  rfl

end Board

/-- **What an enemy is doing.** -/
inductive Regime where
  | seek
  | patrol
  | dead
deriving DecidableEq, Repr

def Regime.of (b : Board) : Regime :=
  if !b.body.isAlive then .dead else if b.memory.detected then .seek else .patrol

/-- What an enemy's leaves put on record. -/
inductive Note where
  /-- The target came into view, or went out of it. -/
  | detectionChanged (enemy : UInt64) (detected : Bool)
  | waypointChosen (enemy : UInt64) (waypoint : Waypoint)

/-- An act on an enemy's board. -/
abbrev Leaf (α : Type) : Type := Tree.Act Board Note α

end Skirmish.Enemy
