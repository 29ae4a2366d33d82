import Skirmish.Enemy.Tree
import Skirmish.Proofs.Tree.Ticking

/-!
# The leaves and the regimes

What each leaf of the enemy's tree does, and what a whole tick does, written down as a machine
without a tree.
-/

/-! ## What each leaf of the enemy's tree does

Every leaf is given as an equation: the board it leaves, the notes it makes and its answer. The
boards are named by what has happened to them:

* `Board.flagged` — the target's being in view was written down;
* `Board.headed` — there is a waypoint that was not reached before;
* `Board.facing` — the enemy has turned;
* `Board.driven` — it has thrust and moved for a frame.

A turn is the only thing that can go wrong. `Board.turnTo` is the turn that a board makes towards a
point, and there is a fault exactly where it is missing.
-/

namespace Skirmish.Enemy

open Skirmish.Tree (Act Status)

namespace Board

/-! ### Perception -/

/-- **The two-threshold rule.** A target in view stays in view a little farther out than it came
into view; a distance that is not a number is beyond every limit. -/
def Sees (b : Board) : Prop :=
  ∃ d, b.targetDistance? = some d ∧
    d ≤ if b.memory.detected then b.body.visionRadius + b.body.visionHysteresis
      else b.body.visionRadius

/-- What the enemy finds when it looks. -/
def sees (b : Board) : Bool :=
  detects b.body b.memory.detected b.targetDistance?

theorem sees_iff (b : Board) : b.sees = true ↔ b.Sees := by
  unfold sees Sees
  cases b.targetDistance? with
  | none => simp [detects]
  | some d =>
    -- which of the two limits counts depends on what was written down before
    cases b.memory.detected <;> simp [detects]

theorem sees_eq_false_iff (b : Board) : b.sees = false ↔ ¬ b.Sees := by
  rw [← sees_iff, Bool.not_eq_true]

/-- The board with an answer to whether the target is in view. -/
def flagged (seen : Bool) (b : Board) : Board :=
  { b with memory := { b.memory with detected := seen } }

/-- The notes made when the enemy looks: one if the answer is new. -/
def sightNotes (b : Board) : List Note :=
  if b.sees ≠ b.memory.detected then [.detectionChanged b.body.id b.sees] else []

end Board

theorem run_lives (b : Board) : lives.run b = ⟨b, [], .ok b.body.isAlive⟩ := rfl

theorem run_perceive (b : Board) :
    perceive.run b = ⟨b.flagged b.sees, b.sightNotes, .ok b.sees⟩ := by
  unfold perceive
  rw [Act.run_bind_of_ok (Act.run_get b)]
  by_cases h : b.sees = b.memory.detected
  · -- nothing new: the flag is written again, and no note is made
    have hn : b.sightNotes = [] := by simp [Board.sightNotes, h]
    rw [hn]
    unfold Board.sees at h
    simp only [h, ne_eq, not_true_eq_false, if_false]
    rw [← h]
    rfl
  · -- the target came into view, or went out of it
    have hn : b.sightNotes = [.detectionChanged b.body.id b.sees] := by
      simp [Board.sightNotes, h]
    rw [hn]
    unfold Board.sees at h
    simp only [h, ne_eq, not_false_eq_true, if_true]
    rfl

/-! ### Patrol -/

namespace Board

/-- The board with somewhere to go: as it was if the enemy is on its way already. -/
def headed (patrol : Tuning.Patrol) (b : Board) : Board :=
  if b.memory.isUnderWay then b else (b.withNextWaypoint patrol).1

/-- The notes made when a waypoint is chosen. -/
def headingNotes (patrol : Tuning.Patrol) (b : Board) : List Note :=
  if b.memory.isUnderWay then []
  else [.waypointChosen b.body.id (b.withNextWaypoint patrol).2]

@[simp] theorem headed_body (patrol : Tuning.Patrol) (b : Board) :
    (b.headed patrol).body = b.body := by
  unfold headed
  split <;> rfl

@[simp] theorem headed_detected (patrol : Tuning.Patrol) (b : Board) :
    (b.headed patrol).memory.detected = b.memory.detected := by
  unfold headed
  split <;> rfl

/-- **There is somewhere to go,** so the leaf that faces the waypoint never fails. -/
theorem headed_waypoint (patrol : Tuning.Patrol) (b : Board) :
    ∃ w, (b.headed patrol).memory.waypoint = some w := by
  unfold headed
  split
  · next h =>
    -- an enemy under way has a waypoint
    simp only [Memory.isUnderWay, Bool.and_eq_true] at h
    exact Option.isSome_iff_exists.mp h.1
  · -- any other gets one
    exact ⟨_, rfl⟩

@[simp] theorem headed_reached (patrol : Tuning.Patrol) (b : Board) :
    (b.headed patrol).memory.reached = false := by
  unfold headed
  split
  · next h =>
    simp only [Memory.isUnderWay, Bool.and_eq_true] at h
    simpa using h.2
  · rfl

end Board

theorem run_ensureWaypoint (patrol : Tuning.Patrol) (b : Board) :
    (ensureWaypoint patrol).run b = ⟨b.headed patrol, b.headingNotes patrol, .ok .success⟩ := by
  unfold ensureWaypoint Board.headed Board.headingNotes
  rw [Act.run_bind_of_ok (Act.run_get b)]
  -- the leaf and the two definitions ask the same question, whether the enemy is on its way
  cases h : b.memory.isUnderWay with
  | true => rfl
  | false => rfl

theorem run_checkArrival (tolerance : Float32) (b : Board) :
    (checkArrival tolerance).run b =
      ⟨if b.isAtWaypoint tolerance then { b with memory := { b.memory with reached := true } }
        else b,
        [], .ok (b.isAtWaypoint tolerance)⟩ := by
  unfold checkArrival
  rw [Act.run_bind_of_ok (Act.run_get b)]
  -- the leaf succeeds either way; what differs is whether the arrival is remembered
  cases h : b.isAtWaypoint tolerance with
  | true => rfl
  | false => rfl

/-! ### Motion -/

namespace Board

/-- The turn towards a point in a frame; none if its limit is not a number. -/
def turnTo (point : Vector2) (dt : Float32) (b : Board) : Option Motion.Turn :=
  Motion.turnToward b.body.angle (b.body.position.bearing point) b.body.turnSpeed dt

/-- The board after a turn. -/
def facing (turn : Motion.Turn) (b : Board) : Board :=
  { b with body := { b.body with angle := turn.angle } }

/-- The board after a frame of thrust, movement and drag. -/
def driven (steering : Tuning.Steering) (dt : Float32) (b : Board) : Board :=
  { b with body := (b.body.thrusted dt).moved steering dt }

end Board

section

variable {steering : Tuning.Steering} {dt tolerance : Float32} {point : Vector2}
  {turn : Motion.Turn} {b : Board}

theorem run_facePoint (h : b.turnTo point dt = some turn) :
    (facePoint tolerance point dt).run b =
      ⟨b.facing turn, [], .ok (if turn.error.abs < tolerance then .success else .running)⟩ := by
  unfold Board.turnTo at h
  unfold facePoint
  rw [Act.run_bind_of_ok (Act.run_get b)]
  -- the leaf fails on a missing turn, and that is the case that `h` rules out
  simp only [h]
  rfl

theorem run_facePoint_fault (h : b.turnTo point dt = none) :
    (facePoint tolerance point dt).run b = ⟨b, [], .error .unorderedBounds⟩ := by
  unfold Board.turnTo at h
  unfold facePoint
  rw [Act.run_bind_of_ok (Act.run_get b)]
  simp only [h]
  rfl

theorem run_faceWaypoint {w : Waypoint} (h : b.memory.waypoint = some w) :
    (faceWaypoint steering dt).run b = (facePoint steering.facingTolerance w.point dt).run b := by
  unfold faceWaypoint
  rw [Act.run_bind_of_ok (Act.run_get b)]
  simp only [h]
  rfl

theorem run_faceWaypoint_of_none (h : b.memory.waypoint = none) :
    (faceWaypoint steering dt).run b = ⟨b, [], .ok .failure⟩ := by
  unfold faceWaypoint
  rw [Act.run_bind_of_ok (Act.run_get b)]
  simp only [h]
  rfl

theorem run_thrustForward :
    (thrustForward dt).run b = ⟨{ b with body := b.body.thrusted dt }, [], .ok .success⟩ := rfl

theorem run_moveOn :
    (moveOn steering dt).run b = ⟨{ b with body := b.body.moved steering dt }, [], .ok .success⟩ :=
  rfl

/-- **Pursuit succeeds in one frame,** whatever is left to turn. -/
theorem run_pursue (haim : intercept steering b = some point) (h : b.turnTo point dt = some turn) :
    (pursue steering dt).run b = ⟨(b.facing turn).driven steering dt, [], .ok .success⟩ := by
  unfold pursue
  rw [Act.run_bind_of_ok (Act.run_get b)]
  simp only [haim]
  -- nobody asks whether the turn is finished
  have hface : (discard (facePoint steering.facingTolerance point dt) : Leaf Unit).run b =
      ⟨b.facing turn, [], .ok ()⟩ := by
    rw [Act.run_discard, run_facePoint h]
    rfl
  rw [Act.run_bind_of_ok hface]
  rfl

theorem run_pursue_fault (haim : intercept steering b = some point)
    (h : b.turnTo point dt = none) :
    (pursue steering dt).run b = ⟨b, [], .error .unorderedBounds⟩ := by
  unfold pursue
  rw [Act.run_bind_of_ok (Act.run_get b)]
  simp only [haim]
  -- but a fault is passed on all the same
  have hface : (discard (facePoint steering.facingTolerance point dt) : Leaf Unit).run b =
      ⟨b, [], .error .unorderedBounds⟩ := by
    rw [Act.run_discard, run_facePoint_fault h]
    rfl
  rw [Act.run_bind_of_error hface]
  rfl

end

end Skirmish.Enemy

/-! ## The three regimes of an enemy

A dead enemy does nothing. One that sees its target turns, thrusts and moves in one frame. Any other
turns towards its waypoint, and moves only once it faces it. Here this is written down as a machine,
without a tree.

* `Course` — the ways a tick can go: one for each of the first two regimes, and three on patrol;
* `Goes` — what a tick of a given course makes of a board;
* `exists_goes` — a tick goes in one of these ways, unless an enemy that lives cannot turn;
* `Goes.board_eq` and `Goes.body_eq` — what no tick touches, the health among it;
* `Goes.regime_eq` and `Goes.reached_eq` — what the board shows of the course afterwards.
-/

namespace Skirmish.Enemy

open Skirmish.Tree (Status)

/-! ### The machine -/

/-- **The course of a tick.** -/
inductive Course where
  /-- The enemy is dead. -/
  | dead
  /-- The enemy pursues its target. -/
  | seek
  /-- The enemy turns towards its waypoint and has not done with it. -/
  | turning
  /-- The enemy moves and is not at its waypoint yet. -/
  | travelling
  /-- The enemy moves and is at its waypoint. -/
  | arrived
deriving DecidableEq, Repr

/-- The root's status. Only an unfinished turn leaves it unfinished, and nothing makes it fail. -/
def Course.status : Course → Status
  | turning => .running
  | _ => .success

/-- The board on patrol: nothing is in view, and there is somewhere to go. -/
def Board.patrolling (t : Tuning.Behavior) (b : Board) : Board :=
  (b.flagged false).headed t.patrol

/-- **The machine.** What a tick of `dt` seconds makes of a board, by its course. -/
inductive Goes (t : Tuning.Behavior) (dt : Float32) (b : Board) : Course → Board → Prop
  /-- Nothing happens to the dead. -/
  | dead (dead : ¬ b.body.health > 0) : Goes t dt b .dead b
  /-- A target in view is pursued, whatever is left to turn. -/
  | seek {aim : Vector2} {turn : Motion.Turn} (alive : b.body.health > 0) (seen : b.Sees)
      (haim : intercept t.steering b = some aim) (hturn : b.turnTo aim dt = some turn) :
      Goes t dt b .seek (((b.flagged true).facing turn).driven t.steering dt)
  /-- The waypoint is not faced yet: the enemy stays where it is. -/
  | turning {w : Waypoint} {turn : Motion.Turn} (alive : b.body.health > 0) (unseen : ¬ b.Sees)
      (hw : (b.patrolling t).memory.waypoint = some w)
      (hturn : (b.patrolling t).turnTo w.point dt = some turn)
      (off : ¬ turn.error.abs < t.steering.facingTolerance) :
      Goes t dt b .turning ((b.patrolling t).facing turn)
  /-- The waypoint is faced, and the enemy moves towards it. -/
  | travelling {w : Waypoint} {turn : Motion.Turn} {b' : Board} (alive : b.body.health > 0)
      (unseen : ¬ b.Sees) (hw : (b.patrolling t).memory.waypoint = some w)
      (hturn : (b.patrolling t).turnTo w.point dt = some turn)
      (faced : turn.error.abs < t.steering.facingTolerance)
      (hb' : b' = ((b.patrolling t).facing turn).driven t.steering dt)
      (away : ¬ b'.body.position.distance w.point ≤ t.patrol.arrivalTolerance) :
      Goes t dt b .travelling b'
  /-- The enemy moves and gets to its waypoint, which is remembered. -/
  | arrived {w : Waypoint} {turn : Motion.Turn} {b' : Board} (alive : b.body.health > 0)
      (unseen : ¬ b.Sees) (hw : (b.patrolling t).memory.waypoint = some w)
      (hturn : (b.patrolling t).turnTo w.point dt = some turn)
      (faced : turn.error.abs < t.steering.facingTolerance)
      (hb' : b' = ((b.patrolling t).facing turn).driven t.steering dt)
      (near : b'.body.position.distance w.point ≤ t.patrol.arrivalTolerance) :
      Goes t dt b .arrived { b' with memory := { b'.memory with reached := true } }

/-- The turn that a tick has to make. There is none for the dead. -/
def Board.neededTurn (t : Tuning.Behavior) (dt : Float32) (b : Board) : Option Motion.Turn :=
  if b.sees then (intercept t.steering b).bind (b.turnTo · dt)
  else (b.patrolling t).memory.waypoint.bind fun w => (b.patrolling t).turnTo w.point dt

theorem Board.Sees.intercept {b : Board} (h : b.Sees) (s : Tuning.Steering) :
    ∃ aim, intercept s b = some aim := by
  obtain ⟨d, hd, -⟩ := h
  unfold Board.targetDistance? at hd
  obtain ⟨target, htarget, -⟩ := Option.map_eq_some_iff.mp hd
  exact ⟨_, by rw [Enemy.intercept, htarget, Option.map_some]⟩

variable {t : Tuning.Behavior} {dt : Float32} {b b' : Board} {c : Course}

theorem isAlive_iff : b.body.isAlive = true ↔ b.body.health > 0 := by
  rw [Body.isAlive, decide_eq_true_iff]

theorem isAlive_eq_false_iff : b.body.isAlive = false ↔ ¬ b.body.health > 0 := by
  rw [Body.isAlive, decide_eq_false_iff_not]

theorem exists_goes (t : Tuning.Behavior) (dt : Float32) (b : Board) :
    (∃ c b', Goes t dt b c b') ∨ (b.body.health > 0 ∧ b.neededTurn t dt = none) := by
  by_cases alive : b.body.health > 0
  · -- the two questions of the tree, in its order: does the enemy live, and does it see its target
    by_cases seen : b.Sees
    · -- there is a target to aim at, so only the turn can be missing
      obtain ⟨aim, haim⟩ := seen.intercept t.steering
      cases hturn : b.turnTo aim dt with
      | none =>
        refine .inr ⟨alive, ?_⟩
        rw [Board.neededTurn, if_pos (b.sees_iff.mpr seen), haim, Option.bind_some, hturn]
      | some turn => exact .inl ⟨_, _, .seek alive seen haim hturn⟩
    · -- there is a waypoint, so again only the turn can be missing
      obtain ⟨w, hw⟩ : ∃ w, (b.patrolling t).memory.waypoint = some w :=
        Board.headed_waypoint _ _
      cases hturn : (b.patrolling t).turnTo w.point dt with
      | none =>
        refine .inr ⟨alive, ?_⟩
        rw [Board.neededTurn, if_neg (mt b.sees_iff.mp seen), hw, Option.bind_some, hturn]
      | some turn =>
        -- the enemy moves only once it faces the waypoint, and the arrival is checked where it has
        -- moved to
        by_cases faced : turn.error.abs < t.steering.facingTolerance
        · by_cases near :
            (((b.patrolling t).facing turn).driven t.steering dt).body.position.distance
              w.point ≤ t.patrol.arrivalTolerance
          · exact .inl ⟨_, _, .arrived alive seen hw hturn faced rfl near⟩
          · exact .inl ⟨_, _, .travelling alive seen hw hturn faced rfl near⟩
        · exact .inl ⟨_, _, .turning alive seen hw hturn faced⟩
  · exact .inl ⟨_, _, .dead alive⟩

/-! ### What a tick leaves alone, and what it shows -/

/-- The regime that an enemy is in afterwards. -/
def Course.regime : Course → Regime
  | dead => .dead
  | seek => .seek
  | _ => .patrol

namespace Goes

theorem body_eq (h : Goes t dt b c b') :
    b'.body = { b.body with
      position := b'.body.position
      velocity := b'.body.velocity
      angle := b'.body.angle } := by
  -- to look for the target and to choose a waypoint leaves the body alone
  have hbody : (b.patrolling t).body = b.body := Board.headed_body _ _
  cases h with
  | dead | seek => rfl
  | turning =>
    rw [Board.facing, hbody]
  | travelling _ _ _ _ _ hb' | arrived _ _ _ _ _ hb' =>
    rw [hb', Board.driven, Board.facing, hbody]
    rfl

theorem board_eq (h : Goes t dt b c b') :
    b' = { b with
      body := b'.body
      memory := b'.memory
      generator := b'.generator } := by
  -- to choose a waypoint costs random numbers
  have hboard : b.patrolling t = { b with
      body := (b.patrolling t).body
      memory := (b.patrolling t).memory
      generator := (b.patrolling t).generator } := by
    unfold Board.patrolling Board.headed
    split <;> rfl
  cases h with
  | dead | seek => rfl
  | turning =>
    rw [hboard]
    rfl
  | travelling _ _ _ _ _ hb' | arrived _ _ _ _ _ hb' =>
    rw [hb', hboard]
    rfl

theorem id_eq (h : Goes t dt b c b') : b'.body.id = b.body.id := by
  rw [h.body_eq]

theorem health_eq (h : Goes t dt b c b') : b'.body.health = b.body.health := by
  rw [h.body_eq]

theorem step_eq (h : Goes t dt b c b') : b'.step = b.step := by
  rw [h.board_eq]

theorem isAlive_eq (h : Goes t dt b c b') : b'.body.isAlive = b.body.isAlive := by
  rw [Body.isAlive, Body.isAlive, h.health_eq]

theorem ne_dead (h : Goes t dt b c b') (alive : b.body.isAlive = true) : c ≠ .dead := by
  rintro rfl
  -- only the dead take that course
  cases h with
  | dead dead => exact dead (isAlive_iff.mp alive)

/-- **The course is seen on the board afterwards:** it shows whether the enemy went after its
target. -/
theorem regime_eq (h : Goes t dt b c b') : Regime.of b' = c.regime := by
  -- the flag is written before the waypoint is chosen, and stays as it is
  have hunseen : (b.patrolling t).memory.detected = false := Board.headed_detected _ _
  rw [Regime.of, h.isAlive_eq]
  cases h with
  | dead dead =>
    rw [isAlive_eq_false_iff.mpr dead]
    rfl
  | seek alive =>
    rw [isAlive_iff.mpr alive]
    rfl
  | turning alive =>
    rw [isAlive_iff.mpr alive]
    change (if (b.patrolling t).memory.detected then Regime.seek else .patrol) = .patrol
    rw [hunseen]
    rfl
  | travelling alive _ _ _ _ hb' | arrived alive _ _ _ _ hb' =>
    subst hb'
    rw [isAlive_iff.mpr alive]
    change (if (b.patrolling t).memory.detected then Regime.seek else .patrol) = .patrol
    rw [hunseen]
    rfl

theorem reached_eq (h : Goes t dt b c b') (hc : c.regime = .patrol) :
    b'.memory.reached = decide (c = .arrived) := by
  -- a waypoint that was reached before has been replaced
  have hreached : (b.patrolling t).memory.reached = false := Board.headed_reached _ _
  cases h with
  | dead | seek => exact absurd hc (by decide)
  | turning => exact hreached
  | travelling _ _ _ _ _ hb' =>
    rw [hb']
    exact hreached
  | arrived => rfl

end Goes

end Skirmish.Enemy
