import Skirmish.Enemy.Board
import Skirmish.Enemy.Exchange
import Skirmish.Enemy.Tree
import Skirmish.Geometry
import Skirmish.Tree
import Skirmish.Tuning

/-!
# Encounters

A wave of enemies meets a target: the script, the file that it is read from, the wave with its
steps, and a run of many steps with its summary.
-/

/-! ## Scenarios

The script of an encounter: a target on a circle around the origin, a ring on which enemies appear,
and a weapon that hurts the enemies near the target.
-/

namespace Skirmish

/-- The script of an encounter. -/
structure Scenario where
  /-- The radius of the ring on which enemies appear. -/
  spawnRing : Float32
  /-- The radius of the target's circle. -/
  orbitRadius : Float32
  /-- The target's angular speed, in radians per second. -/
  orbitSpeed : Float32
  /-- How near the target an enemy takes damage. -/
  weaponRange : Float32
  /-- The damage to such an enemy, per second. -/
  weaponDps : Float32
  /-- After how many steps there is a report each time; zero for none. -/
  reportEvery : UInt64
  /-- The landmarks that enemies see. -/
  landmarks : List Enemy.Landmark

namespace Scenario

def usual : Scenario := ⟨900, 600, 0.4, 120, 60, 300, []⟩

/-- **The target after some seconds:** on its circle, moving along the tangent. -/
def targetAt (s : Scenario) (elapsed : Float32) : Enemy.Target :=
  let theta := s.orbitSpeed * elapsed
  { position := Vector2.ofAngle theta * s.orbitRadius
    velocity :=
      (⟨-Numeric.sine theta, Numeric.cosine theta⟩ : Vector2) * (s.orbitRadius * s.orbitSpeed) }

end Scenario

/-- A scenario with the tuning of its enemies. -/
structure Setup where
  tuning : Tuning
  scenario : Scenario

def Setup.usual : Setup := ⟨.usual, .usual⟩

/-! ## Setup files

A setup file is a tuning file with a scenario added. The scenario's types are known when it is read;
everything beside it is first read without types, and the tuning is taken from that.
-/

open Yaml (Content Node Reading Source)

def Vector2.read (node : Node) : Reading Vector2 := do
  match ← Source.fields ["x", "y"] node with
  | [some x, some y] => return ⟨← Source.single x, ← Source.single y⟩
  | _ => Reading.refuse

def Enemy.Landmark.read (node : Node) : Reading Enemy.Landmark := do
  match ← Source.fields ["position", "radius"] node with
  | [some position, some radius] => return ⟨← Vector2.read position, ← Source.single radius⟩
  | _ => Reading.refuse

namespace Scenario

def slots : List (Tuning.Slot Scenario) :=
  [⟨"spawn_ring", spawnRing, fun x s => { s with spawnRing := x }⟩,
    ⟨"orbit_radius", orbitRadius, fun x s => { s with orbitRadius := x }⟩,
    ⟨"orbit_speed", orbitSpeed, fun x s => { s with orbitSpeed := x }⟩,
    ⟨"weapon_range", weaponRange, fun x s => { s with weaponRange := x }⟩,
    ⟨"weapon_dps", weaponDps, fun x s => { s with weaponDps := x }⟩]

/-- **A scenario:** what is given replaces what is usual. -/
def read (node : Node) : Reading Scenario := do
  let fields ← Source.fields (slots.map (·.name) ++ ["report_every", "features"]) node
  let s ← Tuning.fill slots fields .usual
  match fields.drop slots.length with
  | [every, landmarks] =>
    return { s with
      reportEvery := ← Tuning.part s.reportEvery Node.natural every
      landmarks :=
        ← Tuning.part s.landmarks
          (fun node => do (← node.items).mapM Enemy.Landmark.read) landmarks }
  | _ => Reading.refuse

end Scenario

namespace Setup

/-- How deep the values of a document's mapping may be nested. -/
def contentDepth : Nat := 127

/-- **A setup.** Values that are not asked for have to make sense too, unlike those in a tuning
file. -/
def read (root : Node) : Reading Setup := do
  let named ← root.named
  let scenario ← Reading.ofOption (Record.only? named "scenario")
  -- everything but the scenario is read without a type first
  let others ← (named.filter (·.1 ≠ "scenario")).mapM fun e =>
    return (e.1, ← Content.read contentDepth e.2)
  let behavior ← Reading.ofOption (Record.only? others "behavior")
  let archetype ← Reading.ofOption (Record.only? others "archetype")
  return ⟨← Tuning.ofParts behavior archetype, ← Tuning.part .usual Scenario.read scenario⟩

/-- **The setup that a text describes,** with a valid tuning. -/
def ofText (text : String) : Except FileError Setup :=
  match (Yaml.Document.ofText? text).bind fun d => (read d.root).run? d with
  | none => .error .malformed
  | some setup =>
    match setup.tuning.check with
    | .ok () => .ok setup
    | .error flaw => .error (.invalid flaw)

def ofFile (text : Except Unreadable String) : Except FileError Setup :=
  match text with
  | .error reason => .error (.unreadable reason)
  | .ok text => ofText text

end Setup

/-- What is wrong with a setup file of a given name, in words, the general before the particular. -/
def FileError.setupMessages (name : String) : FileError → List String
  | unreadable reason => ["failed to read " ++ name, reason.message]
  | malformed => ["failed to parse " ++ name]
  | invalid flaw => ["invalid config " ++ name, flaw.message]

end Skirmish

/-! ## Encounters

An encounter is a wave of enemies around an orbiting target:

* `Encounter.spawn` — the wave, evenly spread on the scenario's ring, each enemy with its own seed;
* `Encounter.fire` — the weapon, which may destroy enemies;
* `Encounter.step` — one step: the clock, the target, the weapon, then the enemies;
* `Census` — how many enemies are in each regime.

An enemy that the weapon destroys is removed in the same step, before it is ticked again.
-/

namespace Skirmish

/-- A wave of enemies around a target. -/
structure Encounter where
  setup : Setup
  /-- The enemies, in order of appearance. -/
  enemies : List (Tree.Agent Enemy.Board)
  /-- The time since the beginning, in seconds. -/
  elapsed : Float32
  /-- The log that the enemies share, if they are traced. -/
  trace : Option Trace.Log

namespace Encounter

/-- Where an enemy of a wave appears. -/
def spawnPoint (ring : Float32) (count id : UInt64) : Vector2 :=
  let theta := tau * id.toFloat32 / (max count 1).toFloat32
  Vector2.ofAngle theta * ring

def spawnEnemy (setup : Setup) (count seed : UInt64) (traced : Bool) (id : UInt64) :
    Tree.Agent Enemy.Board :=
  let body := setup.tuning.archetype.spawn id (spawnPoint setup.scenario.spawnRing count id)
  let board :=
    Enemy.Board.new body (some (setup.scenario.targetAt 0)) (Random.deriveSeed seed id 0)
  ⟨{ board with landmarks := setup.scenario.landmarks }, if traced then some .shared else none⟩

/-- **A new encounter** with the enemies `0`, …, `count - 1`. -/
def spawn (setup : Setup) (count seed : UInt64) (traced : Bool) : Encounter where
  setup := setup
  enemies := (List.range count.toNat).map fun id =>
    spawnEnemy setup count seed traced (UInt64.ofNat id)
  elapsed := 0
  trace := if traced then some .empty else none

/-- What happens in the course of an encounter. -/
inductive Happening where
  | destroyed (enemy : UInt64) (time : Float32)
  | remark (remark : Tree.Remark Enemy.Note)
  | progress (step : UInt64) (time : Float32) (seek patrol reaped : Nat)
  | allDestroyed (step : UInt64)

/-- Whether the weapon reaches an enemy. -/
def isInRange (scenario : Scenario) (target : Enemy.Target) (b : Enemy.Board) : Bool :=
  decide (b.body.position.distance target.position ≤ scenario.weaponRange)

/-- An enemy after a frame under the weapon. -/
def wounded (scenario : Scenario) (dt : Float32) (b : Enemy.Board) : Enemy.Board :=
  { b with body := { b.body with health := b.body.health - scenario.weaponDps * dt } }

/-- **The weapon's effect on one enemy,** and whether it was destroyed. -/
def fireAt (scenario : Scenario) (target : Enemy.Target) (time dt : Float32)
    (enemy : Tree.Agent Enemy.Board) : Tree.Agent Enemy.Board × List Happening :=
  if isInRange scenario target enemy.board then
    let board := wounded scenario dt enemy.board
    ({ enemy with board := board },
      if board.body.isAlive then [] else [.destroyed board.body.id time])
  else (enemy, [])

/-- What a step leaves behind. -/
structure Stepped where
  encounter : Encounter
  journal : List Happening
  tally : Except Tree.Fault Tree.Tally

/-- **One step** of `dt` seconds. The target moves first, then the weapon fires, and the enemies see
the target where it is now. -/
def step (root : Enemy.EnemyNode) (dt : Float32) (e : Encounter) : Stepped :=
  let elapsed := e.elapsed + dt
  let target := e.setup.scenario.targetAt elapsed
  -- the weapon acts before any enemy is refreshed
  let fired := e.enemies.map (fireAt e.setup.scenario target elapsed dt)
  let updated := Tree.update dt root
    (⟨some target, e.setup.scenario.landmarks⟩ : Enemy.Surroundings) (fired.map (·.1))
  { encounter :=
      { e with
        enemies := updated.agents
        elapsed := elapsed
        trace := e.trace.map (·.append updated.events) }
    journal := fired.flatMap (·.2) ++ updated.journal.map .remark
    tally := updated.tally }

end Encounter

/-- How many enemies are in each regime. -/
structure Census where
  seek : Nat
  patrol : Nat
  dead : Nat
deriving DecidableEq, Repr

def Census.of (enemies : List (Tree.Agent Enemy.Board)) : Census :=
  let count (r : Enemy.Regime) : Nat := enemies.countP fun a => Enemy.Regime.of a.board = r
  ⟨count .seek, count .patrol, count .dead⟩

/-! ## Runs

A run repeats the step of an encounter up to a number of times, but no longer than there are
enemies.

* `Summary` — what a run counts, among other things how long each enemy was after the target;
* `Encounter.run` — the run, with everything that happened;
* `Encounter.Happening.entry` — how that is journaled.
-/

/-- What a run counts. -/
structure Summary where
  steps : UInt64
  /-- The enemies at the beginning. -/
  spawned : Nat
  /-- The enemies at the end. -/
  survivors : Nat
  reaped : Nat
  /-- The steps that each enemy spent after the target, in order of their numbers; only for enemies
  that spent any. -/
  seekSteps : List (UInt64 × UInt64)
deriving DecidableEq, Repr

namespace Summary

def start (spawned : Nat) : Summary :=
  ⟨0, spawned, 0, 0, []⟩

/-- A table ordered by number, with one more step for a number. -/
def credit (id : UInt64) : List (UInt64 × UInt64) → List (UInt64 × UInt64)
  | [] => [(id, 1)]
  | (other, steps) :: rest =>
    -- the table stays in order, and a number has one entry
    if id < other then (id, 1) :: (other, steps) :: rest
    else if id = other then (other, steps + 1) :: rest
    else (other, steps) :: credit id rest

/-- The numbers of the enemies that are after the target. -/
def seekers (enemies : List (Tree.Agent Enemy.Board)) : List UInt64 :=
  (enemies.filter fun a => Enemy.Regime.of a.board = .seek).map (·.board.body.id)

def afterStep (s : Summary) (step : UInt64) (reaped : Nat)
    (enemies : List (Tree.Agent Enemy.Board)) : Summary :=
  { s with
    steps := step
    reaped := s.reaped + reaped
    seekSteps := (seekers enemies).foldl (fun table id => credit id table) s.seekSteps }

/-- The longest time that any enemy spent after the target. -/
def longestSeek (s : Summary) : UInt64 :=
  s.seekSteps.foldl (fun longest entry => max longest entry.2) 0

end Summary

namespace Encounter

/-- How far a run has come. -/
structure Progress where
  encounter : Encounter
  summary : Summary
  journal : Array Happening

/-- The periodic report of a step, if one is due. -/
def periodicReport (e : Encounter) (step : UInt64) (reaped : Nat) : List Happening :=
  let every := e.setup.scenario.reportEvery
  if every ≠ 0 ∧ step % every = 0 then
    let census := Census.of e.enemies
    [.progress step e.elapsed census.seek census.patrol reaped]
  else []

/-- **At most `n` more steps** after those that were made, ending early when no enemy is left or an
update ends with a fault. -/
def runMore (root : Enemy.EnemyNode) (dt : Float32) : Nat → Progress → Progress × Option Tree.Fault
  | 0, p => (p, none)
  | n + 1, p =>
    let stepped := p.encounter.step root dt
    let journal := stepped.journal.foldl Array.push p.journal
    match stepped.tally with
    | .error fault => (⟨stepped.encounter, p.summary, journal⟩, some fault)
    | .ok tally =>
      let enemies := stepped.encounter.enemies
      -- steps are counted from the summary, so a run can be continued
      let step := p.summary.steps + 1
      let summary := p.summary.afterStep step tally.reaped enemies
      let journal :=
        (periodicReport stepped.encounter step summary.reaped).foldl Array.push journal
      if enemies.isEmpty then
        (⟨stepped.encounter, summary, journal.push (.allDestroyed step)⟩, none)
      else runMore root dt n ⟨stepped.encounter, summary, journal⟩

/-- What a run leaves behind. -/
structure Ran where
  encounter : Encounter
  journal : Array Happening
  summary : Except Tree.Fault Summary

/-- **A run of at most `steps` steps** of `dt` seconds each. -/
def run (root : Enemy.EnemyNode) (steps : UInt64) (dt : Float32) (e : Encounter) : Ran :=
  match runMore root dt steps.toNat ⟨e, .start e.enemies.length, #[]⟩ with
  | (p, some fault) => ⟨p.encounter, p.journal, .error fault⟩
  | (p, none) =>
    ⟨p.encounter, p.journal, .ok { p.summary with survivors := p.encounter.enemies.length }⟩

def Happening.entry : Happening → Journal.Entry
  | destroyed enemy time =>
    ⟨.info, .encounter, "enemy destroyed", [("enemy", .count enemy.toNat), ("t", .measure time)]⟩
  | remark r => r.entry Enemy.Note.entry
  | progress step time seek patrol reaped =>
    ⟨.info, .encounter, "encounter",
      [("step", .count step.toNat), ("t", .measure time), ("seek", .count seek),
        ("patrol", .count patrol), ("reaped", .count reaped)]⟩
  | allDestroyed step =>
    ⟨.info, .encounter, "all enemies destroyed", [("step", .count step.toNat)]⟩

end Encounter

end Skirmish
