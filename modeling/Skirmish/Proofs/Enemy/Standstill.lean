import Skirmish.Proofs.Enemy.Refinement
import Skirmish.Proofs.Geometry.Lengths
import Skirmish.Proofs.Tree.Conservation
import Skirmish.Proofs.Tree.Order
import Skirmish.Proofs.Tuning.Requirements

/-!
# Untimely frames

A frame whose duration is below zero, infinite or no number moves nobody.

* `tick_congr_of_usableTime` — to the enemies' trees a duration is only the time that it counts as;
* `keeps_elapsed_tick` — no tick touches an enemy's clock;
* `Goes.stays` — a tick in no time leaves an enemy that moves as its stats allow where it is;
* `update_untimely` — so an update in such a frame is one in a frame of no time, clocks included.

A duration reaches the board through the clock and through four motions, each of which looks at it
for itself. The motions all belong to leaves, and the two trees have the same leaves. So that they
agree on the duration is checked for every leaf, and the trees follow.
-/

namespace Skirmish.Enemy

open Skirmish.Tree (Act Agent Node Record Status living update tickAll)
open Skirmish.Motion (IsUntimely usableTime)

/-! ### Leaves -/

/-- **The leaves of either tree,** from left to right. -/
def leavesOf (t : Tuning.Behavior) : List EnemyNode :=
  [.condition lives, .condition perceive, .action (pursue t.steering),
    .condition lives, .action fun _ => ensureWaypoint t.patrol, .action (faceWaypoint t.steering),
    .action thrustForward, .action (moveOn t.steering),
    .condition (checkArrival t.patrol.arrivalTolerance), fallbackNode]

variable {t : Tuning.Behavior} {dt dt' : Float32} {root leaf : EnemyNode}
  {b b' : Board} {c : Course}

theorem mem_leavesOf (hroot : root = tree t ∨ root = labeledTree t) (h : leaf.IsLeafOf root) :
    leaf ∈ leavesOf t := by
  -- the two trees differ in labels, which are no leaves
  obtain rfl | rfl := hroot
  · simpa [tree, seekNode, patrolNode, fallbackNode, leavesOf, or_assoc] using h
  · simpa [labeledTree, seekNode, patrolNode, fallbackNode, leavesOf, or_assoc] using h

section Durations

variable (h : usableTime dt = usableTime dt')
include h

theorem facePoint_congr (tolerance : Float32) (point : Vector2) :
    facePoint tolerance point dt = facePoint tolerance point dt' := by
  -- the turn looks at the duration through `usableTime` and nowhere else
  unfold facePoint Motion.turnToward
  rw [h]

theorem thrustForward_congr : thrustForward dt = thrustForward dt' := by
  unfold thrustForward Body.thrusted Motion.thrust
  rw [h]

theorem moveOn_congr (steering : Tuning.Steering) : moveOn steering dt = moveOn steering dt' := by
  unfold moveOn Body.moved Motion.advance Motion.drag
  rw [h]

theorem faceWaypoint_congr (steering : Tuning.Steering) :
    faceWaypoint steering dt = faceWaypoint steering dt' := by
  unfold faceWaypoint
  simp only [facePoint_congr h]

theorem pursue_congr (steering : Tuning.Steering) : pursue steering dt = pursue steering dt' := by
  unfold pursue
  simp only [facePoint_congr h, thrustForward_congr h, moveOn_congr h]

theorem tick_congr_of_usableTime (hroot : root = tree t ∨ root = labeledTree t) :
    root.tick dt = root.tick dt' := by
  refine Node.tick_congr ?_
  intro leaf hleaf
  have hmem := mem_leavesOf hroot hleaf
  simp only [leavesOf, List.mem_cons, List.not_mem_nil, or_false] at hmem
  -- conditions and the way to a waypoint do not look at the duration
  obtain rfl | rfl | rfl | rfl | rfl | rfl | rfl | rfl | rfl | rfl := hmem
  · rfl
  · rfl
  · rw [Node.tick, Node.tick, pursue_congr h]
  · rfl
  · rfl
  · rw [Node.tick, Node.tick, faceWaypoint_congr h]
  · rw [Node.tick, Node.tick, thrustForward_congr h]
  · rw [Node.tick, Node.tick, moveOn_congr h]
  · rfl
  · rfl

end Durations

/-! ### The clock -/

theorem keeps_facePoint (tolerance : Float32) (point : Vector2) :
    (facePoint tolerance point dt).Keeps Board.elapsed := by
  intro b
  -- a turn that is missing leaves the whole board, and any other one all but the angle
  cases h : b.turnTo point dt with
  | none => rw [run_facePoint_fault h]
  | some turn =>
    rw [run_facePoint h]
    rfl

theorem keeps_faceWaypoint (steering : Tuning.Steering) :
    (faceWaypoint steering dt).Keeps Board.elapsed := by
  refine Act.Keeps.bind (fun _ => rfl) ?_
  intro b
  cases b.memory.waypoint with
  | none => exact Act.keeps_pure _
  | some w => exact keeps_facePoint _ _

theorem keeps_pursue (steering : Tuning.Steering) : (pursue steering dt).Keeps Board.elapsed := by
  refine Act.Keeps.bind (fun _ => rfl) ?_
  intro b
  cases intercept steering b with
  | none => exact Act.keeps_pure _
  | some aim =>
    refine ((keeps_facePoint _ _).map _).bind fun _ => ?_
    exact Act.Keeps.bind (fun _ => rfl) fun _ => Act.Keeps.bind (fun _ => rfl) fun _ =>
      Act.keeps_pure _

theorem keeps_ensureWaypoint (patrol : Tuning.Patrol) :
    (ensureWaypoint patrol).Keeps Board.elapsed := by
  intro b
  rw [run_ensureWaypoint, Board.headed]
  split <;> rfl

theorem keeps_checkArrival (tolerance : Float32) :
    (checkArrival tolerance).Keeps Board.elapsed := by
  intro b
  rw [run_checkArrival]
  split <;> rfl

theorem keeps_elapsed_tick (hroot : root = tree t ∨ root = labeledTree t) :
    (root.tick dt).Keeps Board.elapsed := by
  refine Node.keeps_tick (fun _ _ _ => rfl) ?_
  intro leaf hleaf
  have hmem := mem_leavesOf hroot hleaf
  -- a condition only makes a status of its answer
  have hcondition : ∀ test : Leaf Bool, test.Keeps Board.elapsed →
      ((Node.condition test : EnemyNode).tick dt).Keeps Board.elapsed := by
    intro test htest
    rw [Node.tick]
    exact Act.Keeps.map _ htest
  simp only [leavesOf, List.mem_cons, List.not_mem_nil, or_false] at hmem
  obtain rfl | rfl | rfl | rfl | rfl | rfl | rfl | rfl | rfl | rfl := hmem
  · exact hcondition _ fun _ => rfl
  · exact hcondition _ fun b => by rw [run_perceive]; rfl
  · exact keeps_pursue t.steering
  · exact hcondition _ fun _ => rfl
  · exact keeps_ensureWaypoint t.patrol
  · exact keeps_faceWaypoint t.steering
  · exact fun _ => rfl
  · exact fun _ => rfl
  · exact hcondition _ (keeps_checkArrival _)
  · exact fun _ => rfl

/-! ### The body -/

/-- The stats of a body as those of an archetype, for the health that it began with. -/
def Body.archetype (health : Float32) (b : Body) : Tuning.Archetype :=
  ⟨b.radius, health, b.visionRadius, b.visionHysteresis, b.turnSpeed, b.acceleration, b.maxSpeed⟩

/-- **A body that moves as its stats allow.** -/
structure Body.IsSteady (b : Body) : Prop where
  /-- The stats are those of a valid archetype. -/
  stats : ∃ health, (b.archetype health).check = .ok ()
  /-- The position is finite. -/
  position : b.position.isFinite = true
  /-- So is the velocity. -/
  velocity : b.velocity.isFinite = true
  /-- It is not too fast. -/
  speed : b.speed ≤ b.maxSpeed
  /-- The angle is wrapped. -/
  angle : (wrapAngle b.angle == b.angle) = true

/-- **A body that has stayed** where it was: position, velocity and angle are the same numbers. -/
structure Body.Stays (before after : Body) : Prop where
  /-- It has not moved. -/
  position : (after.position == before.position) = true
  /-- It is neither faster nor slower. -/
  velocity : (after.velocity == before.velocity) = true
  /-- It has not turned. -/
  angle : (after.angle == before.angle) = true

theorem Body.IsSteady.stays {body : Body} (h : body.IsSteady) : body.Stays body where
  -- finite numbers equal themselves, which a NaN would not
  position := Vector2.beq_self h.position
  velocity := Vector2.beq_self h.velocity
  angle := Numeric.beq_self (Numeric.isNaN_of_isFinite (isFinite_of_wrapAngle_beq h.angle))

section NoTime

variable {point : Vector2} {turn : Motion.Turn} {steering : Tuning.Steering}
  (htime : usableTime dt = 0)
include htime

theorem angle_facing (h : b.body.IsSteady) (hturn : b.turnTo point dt = some turn) :
    (turn.angle == b.body.angle) = true := by
  obtain ⟨health, hstats⟩ := h.stats
  obtain ⟨-, -, -, -, hspeed, -⟩ := (Tuning.Archetype.check_eq_ok_iff _).mp hstats
  -- the turn is by nothing, and the angle had been wrapped before
  exact Motion.turn_beq htime (Tuning.isPositive_iff.mp hspeed).1 h.angle hturn

theorem stays_facing (h : b.body.IsSteady) (hturn : b.turnTo point dt = some turn) :
    b.body.Stays (b.facing turn).body where
  position := h.stays.position
  velocity := h.stays.velocity
  angle := angle_facing htime h hturn

theorem stays_driven (hsteering : steering.check = .ok ()) (h : b.body.IsSteady)
    (hturn : b.turnTo point dt = some turn) :
    b.body.Stays ((b.facing turn).driven steering dt).body := by
  obtain ⟨health, hstats⟩ := h.stats
  obtain ⟨-, -, -, -, -, hacceleration, hmax⟩ := (Tuning.Archetype.check_eq_ok_iff _).mp hstats
  obtain ⟨-, -, -, hhz, -⟩ := (Tuning.Steering.check_eq_ok_iff _).mp hsteering
  have hangle := angle_facing htime h hturn
  have hfinite : turn.angle.isFinite = true :=
    Numeric.isFinite_of_beq hangle (isFinite_of_wrapAngle_beq h.angle)
  -- thrust comes first, and what it leaves of the velocity moves the body and is slowed down
  have hthrust : (Motion.thrust b.body.velocity turn.angle b.body.acceleration b.body.maxSpeed dt ==
      b.body.velocity) = true :=
    Motion.thrust_beq htime h.velocity hfinite (Tuning.isPositive_iff.mp hacceleration).1
      (Tuning.isPositive_iff.mp hmax).2 h.speed
  have hvelocity := Vector2.isFinite_of_beq hthrust h.velocity
  have hdrag : Motion.drag _ steering.dragFactor steering.dragReferenceHz dt = _ :=
    Motion.drag_eq htime hvelocity (Tuning.isPositive_iff.mp hhz).1
  refine ⟨Motion.advance_beq htime h.position hvelocity, ?_, hangle⟩
  rw [← hdrag] at hthrust
  exact hthrust

theorem Goes.stays (hg : Goes t dt b c b') (ht : t.check = .ok ()) (h : b.body.IsSteady) :
    b.body.Stays b'.body := by
  have hsteering : t.steering.check = .ok () := (Tuning.bind_eq_ok_iff.mp ht).2
  have hbody : (b.patrolling t).body = b.body := Board.headed_body _ _
  have hpatrol : (b.patrolling t).body.IsSteady := by rwa [hbody]
  -- the body that a patrol drives is the one found: heading for a waypoint changes the memory only
  cases hg with
  | dead => exact h.stays
  | seek _ _ _ hturn => exact stays_driven (b := b.flagged true) htime hsteering h hturn
  | turning _ _ _ hturn =>
    rw [← hbody]
    exact stays_facing htime hpatrol hturn
  | travelling _ _ _ hturn _ hb' =>
    rw [hb', ← hbody]
    exact stays_driven htime hsteering hpatrol hturn
  | arrived _ _ _ hturn _ hb' =>
    rw [hb', ← hbody]
    exact stays_driven htime hsteering hpatrol hturn

/-- **In no time no tick moves an enemy,** and the tick completes. -/
theorem stays_tick (hroot : root = tree t ∨ root = labeledTree t) (ht : t.check = .ok ())
    (h : b.body.IsSteady) :
    b.body.Stays ((root.tick dt).run b).board.body ∧
      ∃ status, ((root.tick dt).run b).result = .ok status := by
  obtain ⟨health, hstats⟩ := h.stats
  obtain ⟨-, -, -, -, hspeed, -⟩ := (Tuning.Archetype.check_eq_ok_iff _).mp hstats
  -- a finite turning speed is all that a tick needs to complete
  have hne : b.body.turnSpeed ≠ Numeric.infinity := by
    intro hinf
    change Tuning.isPositive b.body.turnSpeed = true at hspeed
    rw [hinf] at hspeed
    exact absurd hspeed (by decide)
  obtain ⟨c, b', hgoes⟩ := (exists_goes t dt b).resolve_right fun hturn =>
    neededTurn_ne_none hne hturn.2
  have hstays := hgoes.stays htime ht h
  obtain rfl | rfl := hroot
  · rw [hgoes.run_tree]
    exact ⟨hstays, c.status, rfl⟩
  · rw [hgoes.run_labeledTree]
    exact ⟨hstays, c.status, rfl⟩

end NoTime

/-! ### Updates -/

section Untimely

variable (hdt : IsUntimely dt)
include hdt

theorem refresh_untimely (s : Surroundings) (b : Board) :
    b.refresh s dt =
      { b with target := s.target, landmarks := s.landmarks, step := b.step + 1 } := by
  -- the clock takes a duration only if it is finite and positive
  have hnot : (dt.isFinite && decide (dt > 0)) = false := by
    cases hfinite : dt.isFinite with
    | false => rfl
    | true => exact decide_eq_false (hdt.not_pos hfinite)
  rw [Board.refresh, hnot, if_neg Bool.false_ne_true]

variable (hroot : root = tree t ∨ root = labeledTree t) (s : Surroundings)
include hroot

theorem tickAll_untimely (agents : List (Agent Board)) :
    tickAll dt root s agents = tickAll 0 root s agents := by
  have htick : root.tick dt = root.tick 0 :=
    tick_congr_of_usableTime (Motion.usableTime_of_isUntimely hdt) hroot
  have hrefresh : ∀ b, Board.refresh s dt b = Board.refresh s 0 b :=
    fun b => refresh_untimely hdt s b
  -- agent by agent, since each is refreshed and ticked for itself
  induction agents with
  | nil => rfl
  | cons a rest ih =>
    have hfirst : Agent.tick dt root { a with board := Tree.Driven.refresh s dt a.board } =
        Agent.tick 0 root { a with board := Tree.Driven.refresh s 0 a.board } := by
      change Agent.tick dt root { a with board := Board.refresh s dt a.board } =
        Agent.tick 0 root { a with board := Board.refresh s 0 a.board }
      rw [Agent.tick, Agent.tick, htick, hrefresh]
    rw [tickAll, tickAll, hfirst, ih]

theorem elapsed_tickAll (agents : List (Agent Board)) :
    (tickAll dt root s agents).agents.map (·.board.elapsed) = agents.map (·.board.elapsed) := by
  induction agents with
  | nil => rfl
  | cons a rest ih =>
    -- neither of the two things that happen to an agent moves its clock
    have hclock : ((root.tick dt).run (Board.refresh s dt a.board)).board.elapsed =
        a.board.elapsed := by
      rw [keeps_elapsed_tick hroot, refresh_untimely hdt]
    rw [tickAll]
    simp only
    split
    · -- behind a fault nobody is ticked
      exact congrArg (· :: rest.map (·.board.elapsed)) hclock
    · rw [List.map_cons, List.map_cons, ih]
      exact congrArg (· :: rest.map (·.board.elapsed)) hclock

theorem stays_tickAll (ht : t.check = .ok ()) (agents : List (Agent Board)) :
    List.Forall₂ (fun before after => before.board.body.IsSteady →
      before.board.body.Stays after.board.body) agents (tickAll dt root s agents).agents := by
  induction agents with
  | nil => exact .nil
  | cons a rest ih =>
    have hfirst : a.board.body.IsSteady →
        a.board.body.Stays ((root.tick dt).run (Board.refresh s dt a.board)).board.body :=
      fun h => (stays_tick (b := Board.refresh s dt a.board)
        (Motion.usableTime_of_isUntimely hdt) hroot ht h).1
    rw [tickAll]
    simp only
    split
    · -- behind a fault nobody is ticked, and who is not ticked has stayed
      refine .cons hfirst ?_
      exact List.forall₂_same.mpr fun _ _ h => h.stays
    · exact .cons hfirst ih

end Untimely

/-- **A frame that is none moves nobody.** An update for an untimely duration is, in all it does and
reports, one for no time. It leaves all clocks as they are, and under a valid tuning every enemy
that moves as its stats allow where it is; if all enemies do, it completes. -/
theorem update_untimely (hdt : IsUntimely dt) (hroot : root = tree t ∨ root = labeledTree t)
    (s : Surroundings) (agents : List (Agent Board)) :
    update dt root s agents = update 0 root s agents ∧
    (update dt root s agents).agents.map (·.board.elapsed) = (living agents).map (·.board.elapsed) ∧
    (t.check = .ok () →
      List.Forall₂ (fun before after => before.board.body.IsSteady →
        before.board.body.Stays after.board.body) (living agents) (update dt root s agents).agents ∧
      ((∀ a ∈ living agents, a.board.body.IsSteady) →
        ∃ tally, (update dt root s agents).tally = .ok tally)) := by
  refine ⟨?_, elapsed_tickAll hdt hroot s _, ?_⟩
  · rw [update, update, tickAll_untimely hdt hroot]
  · intro ht
    refine ⟨stays_tickAll hdt hroot s ht _, ?_⟩
    intro hsteady
    -- an update completes if all its ticks do, and each of them does for an enemy that is steady
    refine Tree.exists_update_ok_iff.mpr ?_
    intro a ha
    exact (stays_tick (b := Board.refresh s dt a.board)
      (Motion.usableTime_of_isUntimely hdt) hroot ht (hsteady a ha)).2

/-- An enemy under way. -/
def chaser : Agent Board :=
  ⟨.new
    { Tuning.Archetype.usual.spawn 1 ⟨3, 4⟩ with velocity := ⟨30, -40⟩, angle := 0.5 } none 7, none⟩

theorem isSteady_chaser : chaser.board.body.IsSteady where
  stats := ⟨100, by rfl⟩
  position := by decide
  velocity := by decide
  speed := by decide +kernel
  angle := by decide +kernel

/-- A chaser that is driven for a second less than no time. -/
theorem update_untimely_chaser :
    IsUntimely (-1) ∧ Tuning.Behavior.usual.check = .ok () ∧ chaser.board.body.IsSteady ∧
      ∃ after, (update (-1) (labeledTree .usual) ⟨some ⟨⟨100, 0⟩, .zero⟩, []⟩ [chaser]).agents =
        [after] ∧
        chaser.board.body.Stays after.board.body ∧ after.board.elapsed = chaser.board.elapsed := by
  have hdt : IsUntimely (-1) := .inl (by decide)
  have hcheck : Tuning.Behavior.usual.check = .ok () := by rfl
  have hliving : living [chaser] = [chaser] := by rfl
  obtain ⟨-, hclock, hmove⟩ := update_untimely (t := .usual) hdt (.inr rfl)
    ⟨some ⟨⟨100, 0⟩, .zero⟩, []⟩ [chaser]
  rw [hliving] at hclock hmove
  -- one enemy goes in and one comes out
  obtain ⟨after, rest, hstays, hrest, heq⟩ := List.forall₂_cons_left_iff.mp (hmove hcheck).1
  obtain rfl := List.forall₂_nil_left_iff.mp hrest
  rw [heq] at hclock
  exact ⟨hdt, hcheck, isSteady_chaser, after, heq, hstays isSteady_chaser,
    (List.cons.inj hclock).1⟩

end Skirmish.Enemy
