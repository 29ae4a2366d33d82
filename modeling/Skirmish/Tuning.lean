import Skirmish.Enemy.Board
import Skirmish.Yaml.Source

/-!
# Tuning

The numbers that shape enemies: what they are, which of them are fit for use, and how they are read
from a file.
-/

/-! ## Tuning

The numbers that shape enemies, each with its usual value:

* `Tuning.Patrol` and `Tuning.Steering` — what the leaves of the tree consult;
* `Tuning.Archetype` — the stats a new enemy starts with;
* `Tuning` — all of them.
-/

namespace Skirmish

namespace Tuning

structure Patrol where
  /-- The least distance of a waypoint from the spawn point. -/
  ringMin : Float32
  /-- The greatest distance of a waypoint from the spawn point. -/
  ringMax : Float32
  /-- How near counts as there. -/
  arrivalTolerance : Float32

structure Steering where
  /-- The heading error in radians below which facing is done. -/
  facingTolerance : Float32
  /-- The factor on the velocity for each period of `dragReferenceHz`. -/
  dragFactor : Float32
  /-- How many such periods there are in a second. -/
  dragReferenceHz : Float32
  /-- How far ahead of a moving target pursuit may aim, in seconds; zero aims at the target. -/
  maxLeadSeconds : Float32

structure Behavior where
  patrol : Patrol
  steering : Steering

/-- The stats of one kind of enemy. -/
structure Archetype where
  radius : Float32
  /-- How much damage it takes. -/
  health : Float32
  /-- How near a target must come to be seen. -/
  visionRadius : Float32
  /-- How much farther away a target that was seen stays in view. -/
  visionHysteresis : Float32
  /-- How fast it turns, in radians per second. -/
  turnSpeed : Float32
  /-- How fast it gains speed, in units per second squared. -/
  acceleration : Float32
  /-- The speed that its own thrust is limited to. -/
  maxSpeed : Float32

/-- The usual patrol: a ring from 200 to 500 units. -/
def Patrol.usual : Patrol := ⟨200, 500, 50⟩

def Steering.usual : Steering := ⟨0.2, 0.98, 60, 1⟩

def Behavior.usual : Behavior := ⟨.usual, .usual⟩

def Archetype.usual : Archetype := ⟨16, 100, 700, 80, 3, 220, 260⟩

/-- **A new enemy,** at rest, facing along the first axis. -/
def Archetype.spawn (a : Archetype) (id : UInt64) (position : Vector2) : Enemy.Body where
  id := id
  position := position
  velocity := .zero
  angle := 0
  radius := a.radius
  health := a.health
  visionRadius := a.visionRadius
  visionHysteresis := a.visionHysteresis
  turnSpeed := a.turnSpeed
  acceleration := a.acceleration
  maxSpeed := a.maxSpeed

end Tuning

/-- **All the numbers that shape enemies.** -/
structure Tuning where
  behavior : Tuning.Behavior
  archetype : Tuning.Archetype

def Tuning.usual : Tuning := ⟨.usual, .usual⟩

end Skirmish

/-! ## Valid tuning

Which tunings are fit for use, and what is wrong with the others. Each number has to be finite and
either positive or at least not negative; besides, the patrol ring's radii are in order and drag
does not speed anything up. `Tuning.check` names the first requirement that fails, in the order of
the fields.
-/

namespace Skirmish.Tuning

/-- A number that was found wrong. -/
inductive Field where
  | ringMin
  | ringMax
  | arrivalTolerance
  | facingTolerance
  | dragFactor
  | dragReferenceHz
  | maxLeadSeconds
  | radius
  | health
  | visionRadius
  | visionHysteresis
  | turnSpeed
  | acceleration
  | maxSpeed
deriving DecidableEq, Repr

def Field.text : Field → String
  | ringMin => "patrol.ring_min"
  | ringMax => "patrol.ring_max"
  | arrivalTolerance => "patrol.arrival_tolerance"
  | facingTolerance => "steering.facing_tolerance"
  | dragFactor => "steering.drag_factor"
  | dragReferenceHz => "steering.drag_reference_hz"
  | maxLeadSeconds => "steering.max_lead_seconds"
  | radius => "archetype.radius"
  | health => "archetype.health"
  | visionRadius => "archetype.vision_radius"
  | visionHysteresis => "archetype.vision_hysteresis"
  | turnSpeed => "archetype.turn_speed"
  | acceleration => "archetype.acceleration"
  | maxSpeed => "archetype.max_speed"

/-- What a number should have been. -/
inductive Requirement where
  | positive
  | nonNegative
  /-- A radius within the patrol ring's outer one. -/
  | withinRing
  /-- A factor that does not speed anything up. -/
  | atMostOne
deriving DecidableEq, Repr

def Requirement.text : Requirement → String
  | positive => "must be finite and greater than zero"
  | nonNegative => "must be finite and non-negative"
  | withinRing => "must not exceed patrol.ring_max"
  | atMostOne => "must be at most 1.0"

/-- A requirement that a tuning does not meet. -/
structure Flaw where
  field : Field
  requirement : Requirement
deriving DecidableEq, Repr

def Flaw.message (f : Flaw) : String :=
  "invalid config: `" ++ f.field.text ++ "` " ++ f.requirement.text

/-- Whether a number is finite and positive. -/
def isPositive (x : Float32) : Bool :=
  x.isFinite && decide (x > 0)

/-- Whether a number is finite and not negative. -/
def isNonNegative (x : Float32) : Bool :=
  x.isFinite && decide (x ≥ 0)

/-- A flaw, unless a condition holds. -/
def require (condition : Bool) (field : Field) (requirement : Requirement) : Except Flaw Unit :=
  if condition then .ok () else .error ⟨field, requirement⟩

/-- A flaw, unless a number is finite and positive. -/
def requirePositive (field : Field) (x : Float32) : Except Flaw Unit :=
  require (isPositive x) field .positive

/-- A flaw, unless a number is finite and not negative. -/
def requireNonNegative (field : Field) (x : Float32) : Except Flaw Unit :=
  require (isNonNegative x) field .nonNegative

def Patrol.check (p : Patrol) : Except Flaw Unit := do
  requireNonNegative .ringMin p.ringMin
  requireNonNegative .ringMax p.ringMax
  require (!decide (p.ringMin > p.ringMax)) .ringMin .withinRing
  requirePositive .arrivalTolerance p.arrivalTolerance

def Steering.check (s : Steering) : Except Flaw Unit := do
  requirePositive .facingTolerance s.facingTolerance
  requirePositive .dragFactor s.dragFactor
  require (!decide (s.dragFactor > 1)) .dragFactor .atMostOne
  requirePositive .dragReferenceHz s.dragReferenceHz
  requireNonNegative .maxLeadSeconds s.maxLeadSeconds

def Behavior.check (b : Behavior) : Except Flaw Unit := do
  b.patrol.check
  b.steering.check

def Archetype.check (a : Archetype) : Except Flaw Unit := do
  requirePositive .radius a.radius
  requirePositive .health a.health
  requirePositive .visionRadius a.visionRadius
  requireNonNegative .visionHysteresis a.visionHysteresis
  requirePositive .turnSpeed a.turnSpeed
  requirePositive .acceleration a.acceleration
  requirePositive .maxSpeed a.maxSpeed

/-- **The first flaw of a tuning,** or none. -/
def check (t : Tuning) : Except Flaw Unit := do
  t.behavior.check
  t.archetype.check

/-! ## The numbers of a tuning by name

A `Slot` is one number of a record, with its name and with ways to look at it and to replace it. A
record of numbers is a list of slots, in the order in which the numbers are written.
-/

/-- One number of a record. -/
structure Slot (σ : Type) where
  name : String
  /-- The number in a record. -/
  get : σ → Float32
  /-- A record with another number. -/
  set : Float32 → σ → σ

/-- Whether two records agree on all numbers of some slots. -/
def agree {σ : Type} (slots : List (Slot σ)) (a b : σ) : Bool :=
  slots.all fun s => s.get a == s.get b

def Patrol.slots : List (Slot Patrol) :=
  [⟨"ring_min", ringMin, fun x p => { p with ringMin := x }⟩,
    ⟨"ring_max", ringMax, fun x p => { p with ringMax := x }⟩,
    ⟨"arrival_tolerance", arrivalTolerance, fun x p => { p with arrivalTolerance := x }⟩]

def Steering.slots : List (Slot Steering) :=
  [⟨"facing_tolerance", facingTolerance, fun x s => { s with facingTolerance := x }⟩,
    ⟨"drag_factor", dragFactor, fun x s => { s with dragFactor := x }⟩,
    ⟨"drag_reference_hz", dragReferenceHz, fun x s => { s with dragReferenceHz := x }⟩,
    ⟨"max_lead_seconds", maxLeadSeconds, fun x s => { s with maxLeadSeconds := x }⟩]

def Archetype.slots : List (Slot Archetype) :=
  [⟨"radius", radius, fun x a => { a with radius := x }⟩,
    ⟨"health", health, fun x a => { a with health := x }⟩,
    ⟨"vision_radius", visionRadius, fun x a => { a with visionRadius := x }⟩,
    ⟨"vision_hysteresis", visionHysteresis, fun x a => { a with visionHysteresis := x }⟩,
    ⟨"turn_speed", turnSpeed, fun x a => { a with turnSpeed := x }⟩,
    ⟨"acceleration", acceleration, fun x a => { a with acceleration := x }⟩,
    ⟨"max_speed", maxSpeed, fun x a => { a with maxSpeed := x }⟩]

end Tuning

/-- Two tunings are equal if all their numbers are. -/
instance : BEq Tuning where
  beq a b :=
    Tuning.agree Tuning.Patrol.slots a.behavior.patrol b.behavior.patrol
      && Tuning.agree Tuning.Steering.slots a.behavior.steering b.behavior.steering
      && Tuning.agree Tuning.Archetype.slots a.archetype b.archetype

end Skirmish

/-! ## Tuning files

A tuning is written as a YAML mapping of the numbers that differ from the usual ones:

* `Tuning.read` — the tuning that a document describes, whether it is valid or not;
* `Tuning.ofText?` — the valid tuning of a text;
* `FileError` — what can be wrong with a file.
-/

namespace Skirmish

/-- Why a file has no text. -/
inductive Unreadable where
  | missing
  /-- Its octets stand for no characters. -/
  | notText
  /-- The system gives another reason. -/
  | other (reason : String)
deriving DecidableEq, Repr

def Unreadable.message : Unreadable → String
  | missing => "No such file or directory (os error 2)"
  | notText => "stream did not contain valid UTF-8"
  | other reason => reason

/-- What can be wrong with a file of settings. -/
inductive FileError where
  | unreadable (reason : Unreadable)
  /-- Its text does not describe settings. -/
  | malformed
  /-- It describes settings that are not fit for use. -/
  | invalid (flaw : Tuning.Flaw)
deriving DecidableEq, Repr

/-- The text of a file with the given octets, if there is one. -/
def fileText (octets : Option ByteArray) : Except Unreadable String :=
  match octets with
  | none => .error .missing
  | some octets =>
    match String.fromUTF8? octets with
    | some text => .ok text
    | none => .error .notText

namespace Tuning

open Yaml (Reading Source)

/-- A record with the numbers that are given in the fields for its slots. -/
def fill {α σ : Type} [Source α] (slots : List (Slot σ)) (fields : List (Option α)) (base : σ) :
    Reading σ :=
  (slots.zip fields).foldlM
    (fun record (slot, field) =>
      match field with
      -- a number is read where it stands, so the first one that is none ends the reading
      | some number => return slot.set (← Source.single number) record
      | none => return record)
    base

/-- **A record over a base:** the numbers that are given replace those of the base. -/
def overlay {α σ : Type} [Source α] (slots : List (Slot σ)) (base : σ) (value : α) : Reading σ := do
  fill slots (← Source.fields (slots.map (·.name)) value) base

/-- A part of a record, which is as usual if it is not given. -/
def part {α σ : Type} (usual : σ) (read : α → Reading σ) : Option α → Reading σ
  | some value => read value
  | none => return usual

variable {α : Type} [Source α]

def Behavior.read (value : α) : Reading Behavior := do
  match ← Source.fields ["patrol", "steering"] value with
  | [patrol, steering] =>
    return ⟨← part .usual (overlay Patrol.slots .usual) patrol,
      ← part .usual (overlay Steering.slots .usual) steering⟩
  | _ => Reading.refuse

def Archetype.read (value : α) : Reading Archetype :=
  overlay Archetype.slots .usual value

/-- A tuning of which the parts are given. -/
def ofParts (behavior archetype : Option α) : Reading Tuning :=
  return ⟨← part .usual Behavior.read behavior, ← part .usual Archetype.read archetype⟩

def read (value : α) : Reading Tuning := do
  match ← Source.fields ["behavior", "archetype"] value with
  | [behavior, archetype] => ofParts behavior archetype
  | _ => Reading.refuse

/-- **The valid tuning that a text describes.** -/
def ofText (text : String) : Except FileError Tuning :=
  match (Yaml.Document.ofText? text).bind fun d => (read d.root).run? d with
  | none => .error .malformed
  | some tuning =>
    match tuning.check with
    | .ok () => .ok tuning
    | .error flaw => .error (.invalid flaw)

def ofFile (text : Except Unreadable String) : Except FileError Tuning :=
  match text with
  | .error reason => .error (.unreadable reason)
  | .ok text => ofText text

end Tuning

/-- What is wrong with a tuning file of a given name, in words; nothing more is said about a text
that describes no tuning. -/
def FileError.tuningMessage (name : String) : FileError → String
  | unreadable reason => "failed to read config " ++ name ++ ": " ++ reason.message
  | malformed => "failed to parse config"
  | invalid flaw => flaw.message

end Skirmish
