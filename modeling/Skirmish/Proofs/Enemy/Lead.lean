import Skirmish.Proofs.Enemy.Standstill
import Skirmish.Proofs.Numeric.Values

/-!
# How far ahead pursuit aims

The lead is a time from zero up to the limit, whatever is in the positions, the velocities and the
top speed. With a limit of zero pursuit aims at the target itself, and nobody looks at the target's
velocity.

* `lead_bounds` — the lead is within the limit;
* `Board.stilled` — the board as if its target stood still;
* `mirrors_happen` — without a lead, the same happens to a board when its targets stand still;
* `lead_is_bounded` — the lead in general, and two runs that differ in the velocities of targets.

The time to cover a distance is no number when both the distance and the speed are infinite, or when
the distance is no number itself. Then it is passed over, and the limit is the lead.
-/

namespace Skirmish.Enemy

open Skirmish.Tree (Act Node Record Status)

/-! ### The lead -/

variable {steering : Tuning.Steering} {t : Tuning.Behavior} {dt : Float32} {root leaf : EnemyNode}
  {b b' : Board}

theorem lead_bounds (hlimit : 0 ≤ steering.maxLeadSeconds) (position position' : Vector2)
    (maxSpeed : Float32) :
    0 ≤ lead steering (position.distance position') maxSpeed ∧
      lead steering (position.distance position') maxSpeed ≤ steering.maxLeadSeconds := by
  -- the speed is limited from below by a positive number, so that the quotient has no minus
  have hleast : 0 < leastPursuitSpeed := by decide
  exact Numeric.lesser_bounds
    ((Vector2.unsigned_length _).div (Numeric.unsigned_greater _ hleast)) hlimit

theorem intercept_of_pos {target : Target} (hlimit : 0 < steering.maxLeadSeconds)
    (htarget : b.target = some target) : intercept steering b = some (target.position +
      target.velocity *
          lead steering (b.body.position.distance target.position) b.body.maxSpeed) := by
  rw [intercept, htarget, Option.map_some, if_neg (fun hle => Numeric.not_lt_of_le hle hlimit)]

theorem intercept_of_le (hlimit : steering.maxLeadSeconds ≤ 0) :
    intercept steering b = b.target.map Target.position := by
  unfold intercept
  simp only [if_pos hlimit]

/-! ### Targets that stand still -/

/-- The target as if it stood still. -/
def Target.stilled (target : Target) : Target :=
  { target with velocity := .zero }

/-- **The board as if its target stood still.** Boards that are equal in this way differ in nothing
but the velocity of the target. -/
def Board.stilled (b : Board) : Board :=
  { b with target := b.target.map Target.stilled }

theorem map_position_stilled (target : Option Target) :
    (target.map Target.stilled).map Target.position = target.map Target.position := by
  cases target <;> rfl

theorem sees_stilled (b : Board) : b.stilled.sees = b.sees := by
  -- a distance takes the position of the target and not its velocity
  have hdistance : b.stilled.targetDistance? = b.targetDistance? := by
    unfold Board.targetDistance? Board.stilled
    cases b.target <;> rfl
  unfold Board.sees
  rw [hdistance]
  rfl

/-! ### Leaves -/

theorem commutes_perceive : perceive.Commutes Board.stilled := by
  intro b
  -- what is noted depends on what is seen, and on who sees it
  have hnotes : b.stilled.sightNotes = b.sightNotes := by
    unfold Board.sightNotes
    rw [sees_stilled]
    rfl
  rw [run_perceive, run_perceive, sees_stilled, hnotes]
  rfl

theorem commutes_facePoint (tolerance : Float32) (point : Vector2) :
    (facePoint tolerance point dt).Commutes Board.stilled := by
  intro b
  -- a turn depends on the body alone
  have hsame : b.stilled.turnTo point dt = b.turnTo point dt := rfl
  cases h : b.turnTo point dt with
  | none =>
    rw [run_facePoint_fault h, run_facePoint_fault (hsame.trans h)]
    rfl
  | some turn =>
    rw [run_facePoint h, run_facePoint (hsame.trans h)]
    rfl

theorem commutes_faceWaypoint : (faceWaypoint steering dt).Commutes Board.stilled := by
  intro b
  obtain hnone | ⟨w, hsome⟩ := Option.eq_none_or_eq_some b.memory.waypoint
  · have hstilled : b.stilled.memory.waypoint = none := hnone
    rw [run_faceWaypoint_of_none hnone, run_faceWaypoint_of_none hstilled]
    rfl
  · -- with a waypoint it is faced like any point
    have hstilled : b.stilled.memory.waypoint = some w := hsome
    rw [run_faceWaypoint hsome, run_faceWaypoint hstilled]
    exact commutes_facePoint _ _ b

/-- **Without a lead, pursuit does not look at the target's velocity.** -/
theorem commutes_pursue (hlimit : steering.maxLeadSeconds ≤ 0) :
    (pursue steering dt).Commutes Board.stilled := by
  refine Act.commutes_get_bind fun b => ?_
  -- pursuit looks at the target once, to find where to aim
  have hsame : intercept steering b.stilled = intercept steering b := by
    rw [intercept_of_le hlimit, intercept_of_le hlimit]
    exact map_position_stilled b.target
  rw [hsame]
  cases intercept steering b with
  | none => rfl
  | some aim =>
    refine Act.Mirrors.bind ((commutes_facePoint _ _).map _) (fun _ => ?_) b
    exact Act.Mirrors.bind (fun _ => rfl) fun _ => Act.Mirrors.bind (fun _ => rfl) fun _ =>
      Act.commutes_pure _

theorem commutes_ensureWaypoint (patrol : Tuning.Patrol) :
    (ensureWaypoint patrol).Commutes Board.stilled := by
  intro b
  -- waypoints are chosen from the memory and the random numbers
  have hheaded : b.stilled.headed patrol = (b.headed patrol).stilled := by
    unfold Board.headed
    change (if b.memory.isUnderWay then _ else _) = _
    split <;> rfl
  rw [run_ensureWaypoint, run_ensureWaypoint, hheaded]
  rfl

theorem commutes_checkArrival (tolerance : Float32) :
    (checkArrival tolerance).Commutes Board.stilled := by
  intro b
  have hsame : b.stilled.isAtWaypoint tolerance = b.isAtWaypoint tolerance := rfl
  rw [run_checkArrival, run_checkArrival, hsame]
  split <;> rfl

/-- **Without a lead, no tick looks at the target's velocity.** -/
theorem commutes_tick (hlimit : t.steering.maxLeadSeconds ≤ 0)
    (hroot : root = tree t ∨ root = labeledTree t) :
    (root.tick dt).Commutes Board.stilled := by
  refine Node.commutes_tick (fun _ => rfl) (fun _ => rfl) (fun _ _ _ => rfl) ?_
  intro leaf hleaf
  have hcondition : ∀ test : Leaf Bool, test.Commutes Board.stilled →
      ((Node.condition test : EnemyNode).tick dt).Commutes Board.stilled := by
    intro test htest
    rw [Node.tick]
    exact (htest.mapTrail _).map _
  have haction : ∀ run : Float32 → Leaf Status, (run dt).Commutes Board.stilled →
      ((Node.action run : EnemyNode).tick dt).Commutes Board.stilled := by
    intro run hrun
    rw [Node.tick]
    exact hrun.mapTrail _
  -- ten leaves, of which only pursuit has a reason to look at the velocity
  have hmem := mem_leavesOf hroot hleaf
  simp only [leavesOf, List.mem_cons, List.not_mem_nil, or_false] at hmem
  obtain rfl | rfl | rfl | rfl | rfl | rfl | rfl | rfl | rfl | rfl := hmem
  · exact hcondition _ fun _ => rfl
  · exact hcondition _ commutes_perceive
  · exact haction _ (commutes_pursue hlimit)
  · exact hcondition _ fun _ => rfl
  · exact haction _ (commutes_ensureWaypoint t.patrol)
  · exact haction _ commutes_faceWaypoint
  · exact haction _ fun _ => rfl
  · exact haction _ fun _ => rfl
  · exact hcondition _ (commutes_checkArrival _)
  · exact haction _ fun _ => rfl

/-! ### Runs -/

/-- **What happens to a board** in the course of a run. -/
inductive Happening where
  /-- A frame begins. -/
  | frame (surroundings : Surroundings) (dt : Float32)
  /-- Others write to the body, and to the target. -/
  | write (body : Body) (target : Option Target)
  /-- The enemy is ticked. -/
  | tick (dt : Float32)

/-- The same with targets that stand still. -/
def Happening.stilled : Happening → Happening
  | frame surroundings dt =>
    .frame { surroundings with target := surroundings.target.map Target.stilled } dt
  | write body target => .write body (target.map Target.stilled)
  | tick dt => .tick dt

/-- What it does to the board. -/
def Happening.act (root : EnemyNode) : Happening → Act Board (Record Note) (Option Status)
  | frame surroundings dt => do
    Act.modify (Board.refresh surroundings dt)
    return none
  | write body target => do
    Act.modify fun b => { b with body := body, target := target }
    return none
  | tick dt => some <$> root.tick dt

/-- **A run,** with the status of every tick. A fault ends it. -/
def happen (root : EnemyNode) : List Happening → Act Board (Record Note) (List Status)
  | [] => return []
  | h :: rest => do
    let status ← h.act root
    let statuses ← happen root rest
    return status.toList ++ statuses

theorem mirrors_act (hlimit : t.steering.maxLeadSeconds ≤ 0)
    (hroot : root = tree t ∨ root = labeledTree t) (h : Happening) :
    (h.act root).Mirrors Board.stilled (h.stilled.act root) := by
  cases h with
  | frame surroundings dt | write body target => exact fun _ => rfl
  | tick dt => exact (commutes_tick hlimit hroot).map some

theorem mirrors_happen (hlimit : t.steering.maxLeadSeconds ≤ 0)
    (hroot : root = tree t ∨ root = labeledTree t) (hs : List Happening) :
    (happen root hs).Mirrors Board.stilled (happen root (hs.map Happening.stilled)) := by
  -- one happening after another, each on the board that the one before has left
  induction hs with
  | nil => exact Act.commutes_pure _
  | cons h rest ih =>
    exact (mirrors_act hlimit hroot h).bind fun _ => ih.bind fun _ => Act.commutes_pure _

/-- **The lead is bounded.** If the limit is not below zero then with any target, and whatever is on
the board, pursuit aims at the target moved on for a time from zero up to the limit, or exactly at
the target if the limit is zero. It has nowhere to aim only if there is no target.

So with a limit of zero, two runs in which the same happens, up to the velocities of targets, have
the same statuses, the same records and the same end, and they leave the same board but for the
velocity of its target. -/
theorem lead_is_bounded :
    (∀ (steering : Tuning.Steering) (b : Board), 0 ≤ steering.maxLeadSeconds →
      (intercept steering b = none ↔ b.target = none) ∧
      ∀ target, b.target = some target →
        (0 < steering.maxLeadSeconds → ∃ lead, 0 ≤ lead ∧ lead ≤ steering.maxLeadSeconds ∧
          intercept steering b = some (target.position + target.velocity * lead)) ∧
        ((steering.maxLeadSeconds == 0) = true → intercept steering b = some target.position)) ∧
    ∀ (t : Tuning.Behavior) (root : EnemyNode) (hs hs' : List Happening) (b b' : Board),
      (t.steering.maxLeadSeconds == 0) = true → root = tree t ∨ root = labeledTree t →
      hs.map Happening.stilled = hs'.map Happening.stilled → b.stilled = b'.stilled →
      ((happen root hs).run b).result = ((happen root hs').run b').result ∧
        ((happen root hs).run b).trail = ((happen root hs').run b').trail ∧
        ((happen root hs).run b).board.stilled = ((happen root hs').run b').board.stilled := by
  refine ⟨?_, ?_⟩
  · intro steering b hlimit
    refine ⟨Option.map_eq_none_iff, fun target htarget => ⟨fun hpos => ?_, fun hzero => ?_⟩⟩
    · obtain ⟨hlow, hhigh⟩ := lead_bounds hlimit b.body.position target.position b.body.maxSpeed
      exact ⟨_, hlow, hhigh, intercept_of_pos hpos htarget⟩
    · rw [intercept_of_le (Numeric.le_of_beq hzero), htarget, Option.map_some]
  · intro t root hs hs' b b' hlimit hroot hsame hboard
    have hle := Numeric.le_of_beq hlimit
    -- both runs are compared with the run in which all targets stand still
    have hrun := mirrors_happen hle hroot hs b
    rw [hsame, hboard, mirrors_happen hle hroot hs' b'] at hrun
    obtain ⟨hstilled, htrail, hresult⟩ := Tree.Outcome.mk.inj hrun.symm
    exact ⟨hresult, htrail, hstilled⟩

/-- An enemy with an infinite top speed and a target at an infinite distance. -/
def outpaced : Board :=
  .new { Tuning.Archetype.usual.spawn 5 ⟨0, 0⟩ with maxSpeed := Numeric.infinity }
    (some ⟨⟨Numeric.infinity, 0⟩, ⟨1, 0⟩⟩) 42

/-- Steering that aims at the target itself. -/
def direct : Tuning.Behavior :=
  ⟨.usual, { Tuning.Steering.usual with maxLeadSeconds := 0 }⟩

/-- A frame with a target three units ahead that moves in some way, and a tick. -/
def passing (velocity : Vector2) : List Happening :=
  [.frame ⟨some ⟨⟨3, 0⟩, velocity⟩, []⟩ 0.25, .tick 0.25]

/-- The outpaced enemy has a lead, though the time to get there is no number. Aiming without one, it
does not notice which way a target passes. -/
theorem lead_is_bounded_outpaced :
    (∃ lead, 0 ≤ lead ∧ lead ≤ Tuning.Steering.usual.maxLeadSeconds ∧
      intercept .usual outpaced = some (⟨Numeric.infinity, 0⟩ + (⟨1, 0⟩ : Vector2) * lead)) ∧
    intercept direct.steering outpaced = some ⟨Numeric.infinity, 0⟩ ∧
    ((happen (labeledTree direct) (passing ⟨7, 0⟩)).run outpaced).result =
      ((happen (labeledTree direct) (passing ⟨0, -7⟩)).run outpaced).result := by
  obtain ⟨haims, hruns⟩ := lead_is_bounded
  have hzero : (direct.steering.maxLeadSeconds == 0) = true := by decide
  obtain ⟨-, haim⟩ := haims .usual outpaced (by decide)
  obtain ⟨-, hdirect⟩ := haims direct.steering outpaced (by decide)
  obtain ⟨hresult, -⟩ :=
    hruns direct _ (passing ⟨7, 0⟩) (passing ⟨0, -7⟩) outpaced outpaced hzero (.inr rfl) rfl rfl
  exact ⟨(haim _ rfl).1 (by decide), (hdirect _ rfl).2 hzero, hresult⟩

end Skirmish.Enemy
