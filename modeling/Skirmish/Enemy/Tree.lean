import Skirmish.Enemy.Board
import Skirmish.Geometry
import Skirmish.Tuning

/-!
# The enemy and its tree

The leaves of the enemy's tree by what they are for, and the tree that is made of them.
-/

/-! ## Perception

Whether an enemy sees its target. Coming into view and going out of it have different limits: within
`visionRadius` an unseen target is seen, and within `visionRadius + visionHysteresis` a seen one
stays in view. Between the limits nothing changes.
-/

namespace Skirmish.Enemy

/-- **The two limits.** What is seen at a distance, given what was seen before; nothing without a
target. -/
def detects (body : Body) (before : Bool) : Option Float32 → Bool
  | none => false
  | some d =>
    if before then decide (d ≤ body.visionRadius + body.visionHysteresis)
    else decide (d ≤ body.visionRadius)

def lives : Leaf Bool :=
  (·.body.isAlive) <$> Tree.Act.get

/-- **Looking for the target.** The answer is remembered, and a change of it is noted. -/
def perceive : Leaf Bool := do
  let b ← Tree.Act.get
  let before := b.memory.detected
  let now := detects b.body before b.targetDistance?
  -- a note for a change only
  if now ≠ before then
    Tree.Act.note (.detectionChanged b.body.id now)
  Tree.Act.set { b with memory := { b.memory with detected := now } }
  return now

/-! ## Patrol

Where an enemy goes when it sees no target: from waypoint to waypoint, on a ring around the place
where it first chose one. A waypoint stays until the enemy has been there; the next one is drawn
from the enemy's own random numbers, first the heading and then the distance.
-/

/-- **The next waypoint** around a place, and the generator after drawing it. -/
def drawPoint (patrol : Tuning.Patrol) (spawn : Vector2) (g : Random.SplitMix) :
    Vector2 × Random.SplitMix :=
  let (heading, g) := Random.drawAngle g
  let (radius, g) := Random.drawBetween patrol.ringMin patrol.ringMax g
  (spawn + Vector2.ofAngle heading * radius, g)

def Board.withNextWaypoint (patrol : Tuning.Patrol) (b : Board) : Board × Waypoint :=
  -- the first call fixes the place that the ring is around
  let spawn := b.memory.spawn.getD b.body.position
  let (point, generator) := drawPoint patrol spawn b.generator
  let waypoint : Waypoint := ⟨point, b.memory.generated⟩
  let memory : Memory :=
    { b.memory with
      waypoint := some waypoint
      reached := false
      spawn := some spawn
      generated := b.memory.generated + 1 }
  ({ b with generator := generator, memory := memory }, waypoint)

/-- Whether the enemy is on its way to a waypoint. -/
def Memory.isUnderWay (m : Memory) : Bool :=
  m.waypoint.isSome && !m.reached

/-- **Having somewhere to go.** There is a new waypoint, with a note, unless the enemy is already on
its way to one. -/
def ensureWaypoint (patrol : Tuning.Patrol) : Leaf Tree.Status := do
  let b ← Tree.Act.get
  if !b.memory.isUnderWay then
    let (next, waypoint) := b.withNextWaypoint patrol
    Tree.Act.set next
    Tree.Act.note (.waypointChosen b.body.id waypoint)
  return .success

def Board.isAtWaypoint (tolerance : Float32) (b : Board) : Bool :=
  match b.memory.waypoint with
  | none => false
  | some w => decide (b.body.position.distance w.point ≤ tolerance)

/-- **Checking arrival.** A waypoint that the enemy is at counts as reached. -/
def checkArrival (tolerance : Float32) : Leaf Bool := do
  let b ← Tree.Act.get
  let arrived := b.isAtWaypoint tolerance
  if arrived then
    Tree.Act.set { b with memory := { b.memory with reached := true } }
  return arrived

/-! ## Steering and pursuit

The leaves that move an enemy:

* `facePoint` — a turn towards a point, done once the rest is small;
* `thrustForward` and `moveOn` — speed along the heading, then the position, then drag;
* `intercept` — where pursuit aims: ahead of a moving target by the time it takes to get there, but
  not too far ahead;
* `pursue` — one frame of all of these, done whatever is left to turn.
-/

/-- **Turning toward a point.** The turn is kept even if it is not enough. -/
def facePoint (tolerance : Float32) (point : Vector2) (dt : Float32) : Leaf Tree.Status := do
  let b ← Tree.Act.get
  let bearing := b.body.position.bearing point
  match Motion.turnToward b.body.angle bearing b.body.turnSpeed dt with
  | none => Tree.Act.fail .unorderedBounds
  | some turn =>
    Tree.Act.set { b with body := { b.body with angle := turn.angle } }
    return if turn.error.abs < tolerance then .success else .running

def faceTarget (steering : Tuning.Steering) (dt : Float32) : Leaf Tree.Status := do
  match (← Tree.Act.get).target with
  | none => return .failure
  | some target => facePoint steering.facingTolerance target.position dt

def faceWaypoint (steering : Tuning.Steering) (dt : Float32) : Leaf Tree.Status := do
  match (← Tree.Act.get).memory.waypoint with
  | none => return .failure
  | some waypoint => facePoint steering.facingTolerance waypoint.point dt

def Body.thrusted (dt : Float32) (b : Body) : Body :=
  { b with velocity := Motion.thrust b.velocity b.angle b.acceleration b.maxSpeed dt }

def Body.moved (steering : Tuning.Steering) (dt : Float32) (b : Body) : Body :=
  { b with
    position := Motion.advance b.position b.velocity dt
    velocity := Motion.drag b.velocity steering.dragFactor steering.dragReferenceHz dt }

def thrustForward (dt : Float32) : Leaf Tree.Status := do
  Tree.Act.modify fun b => { b with body := b.body.thrusted dt }
  return .success

def moveOn (steering : Tuning.Steering) (dt : Float32) : Leaf Tree.Status := do
  Tree.Act.modify fun b => { b with body := b.body.moved steering dt }
  return .success

def idle : Leaf Tree.Status :=
  return .success

/-- The smallest speed that a lead is computed with. -/
def leastPursuitSpeed : Float32 := Float32.ofBits 0x34000000

/-- **The lead:** the time to cover a distance at top speed, within the limit. -/
def lead (steering : Tuning.Steering) (distance maxSpeed : Float32) : Float32 :=
  Numeric.lesser (distance / Numeric.greater maxSpeed leastPursuitSpeed) steering.maxLeadSeconds

/-- **The point to aim at,** if there is a target. -/
def intercept (steering : Tuning.Steering) (b : Board) : Option Vector2 :=
  b.target.map fun target =>
    -- without a limit above zero there is nothing to add
    if steering.maxLeadSeconds ≤ 0 then target.position
    else
      let distance := b.body.position.distance target.position
      target.position + target.velocity * lead steering distance b.body.maxSpeed

/-- **Pursuit:** a turn, thrust and movement in one frame. -/
def pursue (steering : Tuning.Steering) (dt : Float32) : Leaf Tree.Status := do
  match intercept steering (← Tree.Act.get) with
  | none => return .failure
  | some aim =>
    -- the status of the turn does not matter: pursuit goes on whatever is left of it
    discard <| facePoint steering.facingTolerance aim dt
    discard <| thrustForward dt
    discard <| moveOn steering dt
    return .success

/-! ## The enemy's tree

```text
selector
├── seek:     sequence (lives, perceive, pursue)
├── patrol:   sequence (lives, ensure waypoint, face it, thrust, move, check arrival)
└── fallback: idle
```

The regime is chosen anew in every tick; what is remembered of it is only whether the target is in
view. As the fallback always succeeds, the root never fails.
-/

open Skirmish.Tree (Node)

abbrev EnemyNode : Type := Node Board Note

def seekNode (t : Tuning.Behavior) : EnemyNode :=
  .sequence [.condition lives, .condition perceive, .action (pursue t.steering)]

def patrolNode (t : Tuning.Behavior) : EnemyNode :=
  .sequence
    [.condition lives,
      .action fun _ => ensureWaypoint t.patrol,
      .action (faceWaypoint t.steering),
      .action thrustForward,
      .action (moveOn t.steering),
      .condition (checkArrival t.patrol.arrivalTolerance)]

def fallbackNode : EnemyNode :=
  .action fun _ => idle

/-- **The tree of every enemy.** -/
def tree (t : Tuning.Behavior) : EnemyNode :=
  .selector [seekNode t, patrolNode t, fallbackNode]

/-- **The same tree with labels** on the root and the three regimes. -/
def labeledTree (t : Tuning.Behavior) : EnemyNode :=
  .labeled "root"
    (.selector
      [.labeled "seek" (seekNode t),
        .labeled "patrol" (patrolNode t),
        .labeled "fallback" fallbackNode])

end Skirmish.Enemy
