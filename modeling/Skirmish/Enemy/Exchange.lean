import Skirmish.Decimal
import Skirmish.Enemy.Board
import Skirmish.Journal
import Skirmish.Json

/-!
# Enemies from the outside

How an enemy is shown to people, and how what it sees is exchanged with other tools.
-/

/-! ## How enemies are shown

The entries for an enemy's notes, and a description of its board on one line, for people who look
into a running encounter.
-/

namespace Skirmish.Enemy

/-- The entry for a note of a leaf. -/
def Note.entry : Note → Journal.Entry
  | detectionChanged enemy detected =>
    ⟨.debug, .leaves, "detection changed",
      [("agent", .count enemy.toNat), ("detected", .flag detected)]⟩
  | waypointChosen enemy waypoint =>
    ⟨.debug, .leaves, "new waypoint",
      [("agent", .count enemy.toNat), ("serial", .count waypoint.serial.toNat),
        ("x", .measure waypoint.point.x), ("y", .measure waypoint.point.y)]⟩

/-- **How descriptions write numbers:** with a decimal point always, and without an exponent from
0.0001 up to 16 digits; of two shortest decimals at the same distance, the larger. -/
def descriptionStyle : Decimal.Style where
  tie := .away
  positional := fun point => decide (-3 ≤ point ∧ point ≤ 16)
  showFraction := true
  notANumber := "NaN"
  infinity := "inf"
  negativeInfinity := "-inf"

def describeParts (name : String) (parts : List (String × String)) (more : Bool) : String :=
  let shown := parts.map (fun p => p.1 ++ ": " ++ p.2) ++ (if more then [".."] else [])
  name ++ " \x7b " ++ ", ".intercalate shown ++ " \x7d"

def describeOption : Option String → String
  | none => "None"
  | some text => "Some(" ++ text ++ ")"

def describeNumber (x : Float32) : String :=
  descriptionStyle.write x

def describeVector (v : Vector2) : String :=
  describeParts "Vec2" [("x", describeNumber v.x), ("y", describeNumber v.y)] false

def Body.describe (b : Body) : String :=
  describeParts "Enemy"
    [("id", toString b.id.toNat), ("position", describeVector b.position),
      ("velocity", describeVector b.velocity), ("angle", describeNumber b.angle),
      ("radius", describeNumber b.radius), ("health", describeNumber b.health),
      ("vision_radius", describeNumber b.visionRadius),
      ("vision_hysteresis", describeNumber b.visionHysteresis),
      ("turn_speed", describeNumber b.turnSpeed), ("acceleration", describeNumber b.acceleration),
      ("max_speed", describeNumber b.maxSpeed)] false

def Target.describe (t : Target) : String :=
  describeParts "TargetState"
    [("position", describeVector t.position), ("velocity", describeVector t.velocity)] false

def Waypoint.describe (w : Waypoint) : String :=
  describeParts "Waypoint"
    [("point", describeVector w.point), ("serial", toString w.serial.toNat)] false

def Memory.describe (m : Memory) : String :=
  describeParts "Scratch"
    [("player_detected", toString m.detected),
      ("waypoint", describeOption (m.waypoint.map Waypoint.describe)),
      ("waypoint_reached", toString m.reached),
      ("spawn", describeOption (m.spawn.map describeVector)),
      ("waypoints_generated", toString m.generated.toNat)] false

/-- **An agent's board on one line,** with the number of its landmarks and whether it is traced. -/
def describe (agent : Tree.Agent Board) : String :=
  let b := agent.board
  describeParts "EnemyBlackboard"
    [("agent", b.body.describe), ("target", describeOption (b.target.map Target.describe)),
      ("features", toString b.landmarks.length), ("elapsed", describeNumber b.elapsed),
      ("step", toString b.step.toNat), ("scratch", b.memory.describe),
      ("tracing", toString agent.sink.isSome)] true

end Skirmish.Enemy

/-! ## Vectors, targets and landmarks as JSON

Each is a record of its fields. The velocity of a target may be left out and is zero then.
-/

namespace Skirmish

open Json (Value)

def Vector2.toJson (v : Vector2) : Value :=
  .record [("x", .single v.x), ("y", .single v.y)]

def Vector2.ofJson? (v : Value) : Option Vector2 := do
  match ← v.fields? ["x", "y"] with
  | [some x, some y] => return ⟨← x.single?, ← y.single?⟩
  | _ => none

namespace Enemy

def Target.toJson (t : Target) : Value :=
  .record [("position", t.position.toJson), ("velocity", t.velocity.toJson)]

def Target.ofJson? (v : Value) : Option Target := do
  match ← v.fields? ["position", "velocity"] with
  | [some position, some velocity] =>
    return ⟨← Vector2.ofJson? position, ← Vector2.ofJson? velocity⟩
  | [some position, none] => return ⟨← Vector2.ofJson? position, .zero⟩
  | _ => none

def Landmark.toJson (l : Landmark) : Value :=
  .record [("position", l.position.toJson), ("radius", .single l.radius)]

def Landmark.ofJson? (v : Value) : Option Landmark := do
  match ← v.fields? ["position", "radius"] with
  | [some position, some radius] => return ⟨← Vector2.ofJson? position, ← radius.single?⟩
  | _ => none

end Enemy

end Skirmish
