import Skirmish.Proofs.Enemy.Refinement
import Skirmish.Proofs.Enemy.Regimes
import Skirmish.Proofs.Geometry.Angles
import Skirmish.Proofs.Geometry.Lengths
import Skirmish.Proofs.Random.Ranges
import Skirmish.Proofs.Tuning.Requirements

/-!
# Limits on speeds, headings and waypoints

Three numbers of an enemy that are kept within bounds:

* `thrust_limits_speed` — its speed;
* `headings_stay_wrapped` — its heading;
* `draws_keep_to_range` — the distance of its waypoints.
-/

/-! ## Thrust and the top speed

A velocity is pushed first, and then limited in its length. The limit is kept up to rounding errors,
unless the push was too much for numbers.

* `Motion.pushed` — the velocity in between;
* `Motion.isFinite_pushed` — it is finite if neither the velocity before nor the push is very large;
* `Motion.isLimited_thrust` — then the speed is the limit at most, but for the rounding errors;
* `Motion.length_thrust_le_iff` — and when it is the limit at most, without exception;
* `Motion.isNaN_length_thrust` — or else there is no speed;
* `thrust_limits_speed` — all of this, for velocities and for bodies.

The rounding errors are real. A speed of 21 that is limited to 3 becomes the next number after 3.
-/

namespace Skirmish

open Numeric
open Float.Model

/-! ### Pushes -/

namespace Motion

variable {velocity : Vector2} {angle acceleration maxSpeed dt : Float32}

/-- **The velocity after a push,** before it is limited. -/
def pushed (velocity : Vector2) (angle acceleration dt : Float32) : Vector2 :=
  velocity + Vector2.ofAngle angle * (acceleration * usableTime dt)

theorem thrust_eq : thrust velocity angle acceleration maxSpeed dt =
    (pushed velocity angle acceleration dt).clampLength (greater maxSpeed 0) := rfl

theorem isFinite_push {x d push : Float32} (hx : x.isFinite = true) (hlow : -1 ≤ d) (hhigh : d ≤ 1)
    (hpush : push.isFinite = true) (hxle : |value x| ≤ 2 ^ 126) (hpushle : |value push| ≤ 2 ^ 126) :
    (x + d * push).isFinite = true := by
  -- a number between two finite ones is finite, and no larger than one
  have hd : d.isFinite = true := isFinite_of_le rfl rfl hlow hhigh
  have hsize : |value d| ≤ 1 := by
    rw [le_iff_value_le rfl hd, value_neg rfl, value_one] at hlow
    rw [le_iff_value_le hd rfl, value_one] at hhigh
    exact abs_le.mpr ⟨hlow, hhigh⟩
  obtain ⟨hfinite, hle⟩ := abs_value_mul_le hpush hd hsize
  rw [mul_comm_single] at hfinite hle
  -- `0x7f000000` is `2 ^ 127`, the largest power of two there is: a sum that does not exceed it is
  -- not rounded to infinity
  have hbound : (Float32.ofBits 0x7f000000).toModel.unpack =
    .finite .positive (2 ^ 23) 104 (by decide) := by rfl
  refine (roundsTo_add hx hfinite).isFinite_of_abs_le (y := Float32.ofBits 0x7f000000) rfl ?_
  rw [value_of_finite hbound]
  calc |value x + value (d * push)| ≤ |value x| + |value (d * push)| := abs_add_le _ _
    _ ≤ 2 ^ 126 + 2 ^ 126 := add_le_add hxle (hle.trans hpushle)
    _ = withSign .positive (size (2 ^ 23) 104) := by norm_num [withSign, size]

theorem isFinite_pushed (hvelocity : velocity.isFinite = true) (hangle : angle.isFinite = true)
    (hpush : (acceleration * usableTime dt).isFinite = true) (hx : |value velocity.x| ≤ 2 ^ 126)
    (hy : |value velocity.y| ≤ 2 ^ 126) (hle : |value (acceleration * usableTime dt)| ≤ 2 ^ 126) :
    (pushed velocity angle acceleration dt).isFinite = true := by
  obtain ⟨hvx, hvy⟩ := Vector2.isFinite_iff.mp hvelocity
  obtain ⟨hxlow, hxhigh⟩ := cosine_bounds hangle
  obtain ⟨hylow, hyhigh⟩ := sine_bounds hangle
  -- a coordinate of the push is no larger than the push, since a direction is at most one
  exact Vector2.isFinite_iff.mpr
    ⟨isFinite_push hvx hxlow hxhigh hpush hx hle, isFinite_push hvy hylow hyhigh hpush hy hle⟩

/-! ### Thrust -/

theorem greater_zero_bounds (hlimit : maxSpeed.isFinite = true) (hnonneg : 0 ≤ maxSpeed) :
    (greater maxSpeed 0).isFinite = true ∧ 0 ≤ greater maxSpeed 0 ∧
      value (greater maxSpeed 0) = value maxSpeed := by
  rw [greater_zero]
  split
  · -- above zero the limit is taken as it is
    exact ⟨hlimit, hnonneg, rfl⟩
  · -- what is neither above nor below zero is a zero, perhaps the negative one
    next hpos =>
    rw [← le_iff_not_lt hlimit rfl, le_iff_value_le hlimit rfl] at hpos
    exact ⟨rfl, by decide, le_antisymm ((le_iff_value_le rfl hlimit).mp hnonneg) hpos⟩

theorem le_greater_zero_iff (hlimit : maxSpeed.isFinite = true) (hnonneg : 0 ≤ maxSpeed)
    {speed : Float32} :
    speed ≤ greater maxSpeed 0 ↔ speed ≤ maxSpeed := by
  obtain ⟨hfinite, -, hvalue⟩ := greater_zero_bounds hlimit hnonneg
  -- the two limits have one value, so each is at most the other
  refine ⟨fun h => single_le_trans h ?_, fun h => single_le_trans h ?_⟩
  · rw [le_iff_value_le hfinite hlimit, hvalue]
  · rw [le_iff_value_le hlimit hfinite, hvalue]

theorem isLimited_thrust (hlimit : maxSpeed.isFinite = true) (hnonneg : 0 ≤ maxSpeed)
    (h : (pushed velocity angle acceleration dt).isFinite = true) :
    Vector2.IsLimited (pushed velocity angle acceleration dt)
      (thrust velocity angle acceleration maxSpeed dt)
      maxSpeed := by
  obtain ⟨hfinite, hpos, hvalue⟩ := greater_zero_bounds hlimit hnonneg
  -- `clampLength` is handed the limit with the sign of its zero taken off; `hvalue` and
  -- `le_greater_zero_iff` lead back to the limit itself
  have hlimited := Vector2.isLimited_clampLength h hfinite hpos
  rw [thrust_eq]
  exact ⟨hlimited.finite, hvalue ▸ hlimited.le,
    fun hle => hlimited.kept ((le_greater_zero_iff hlimit hnonneg).mpr hle), hlimited.lost⟩

theorem length_thrust_le_iff (hlimit : maxSpeed.isFinite = true) (hnonneg : 0 ≤ maxSpeed)
    (h : (pushed velocity angle acceleration dt).isFinite = true) :
    (thrust velocity angle acceleration maxSpeed dt).length ≤ maxSpeed ↔
      (pushed velocity angle acceleration dt).length ≤ maxSpeed ∨
        ((pushed velocity angle acceleration dt).scaledTo (greater maxSpeed 0)).length ≤
            maxSpeed := by
  obtain ⟨hfinite, hpos, -⟩ := greater_zero_bounds hlimit hnonneg
  have hiff := Vector2.length_clampLength_le_iff h hfinite hpos
  rw [thrust_eq]
  simpa only [le_greater_zero_iff hlimit hnonneg] using hiff

theorem isNaN_length_thrust (hlimit : maxSpeed.isFinite = true) (hnonneg : 0 ≤ maxSpeed)
    (h : (pushed velocity angle acceleration dt).isFinite = false) :
    (thrust velocity angle acceleration maxSpeed dt).length.isNaN = true := by
  obtain ⟨hfinite, hpos, -⟩ := greater_zero_bounds hlimit hnonneg
  exact Vector2.isNaN_length_clampLength h hfinite hpos

end Motion

namespace Enemy

open Motion (pushed thrust usableTime)

/-- **When thrust keeps the top speed,** and by how much it misses it otherwise. Take a top speed
that is finite and not below zero.

* If the velocity is finite after the push, the speed is finite, and above the top speed by no more
  than eight parts in `2 ^ 24` and `2 ^ -70`. If the push did not exceed the top speed, the velocity
  is left as it is; if the sum of its squares is too large for a number, it becomes zero. The top
  speed is kept in these cases, and else if the velocity scaled to it is rounded down to it.
* If the velocity is not finite after the push, the speed is no number, and the top speed is not
  kept. For a finite velocity and angle that takes a coordinate or a push above `2 ^ 126`.

After a frame of thrust this is the speed of the body. -/
theorem thrust_limits_speed (velocity : Vector2) (angle acceleration maxSpeed dt : Float32)
    (hlimit : maxSpeed.isFinite = true) (hnonneg : 0 ≤ maxSpeed) :
    ((pushed velocity angle acceleration dt).isFinite = true →
      Vector2.IsLimited (pushed velocity angle acceleration dt)
        (thrust velocity angle acceleration maxSpeed dt) maxSpeed ∧
      ((thrust velocity angle acceleration maxSpeed dt).length ≤ maxSpeed ↔
        (pushed velocity angle acceleration dt).length ≤ maxSpeed ∨
          ((pushed velocity angle acceleration dt).scaledTo (greater maxSpeed 0)).length ≤
            maxSpeed)) ∧
    ((pushed velocity angle acceleration dt).isFinite = false →
      (thrust velocity angle acceleration maxSpeed dt).length.isNaN = true) ∧
    (velocity.isFinite = true → angle.isFinite = true →
      (acceleration * usableTime dt).isFinite = true →
      |value velocity.x| ≤ 2 ^ 126 → |value velocity.y| ≤ 2 ^ 126 →
        |value (acceleration * usableTime dt)| ≤ 2 ^ 126 →
          (pushed velocity angle acceleration dt).isFinite = true) ∧
    ∀ b : Board, b.body.velocity = velocity → b.body.angle = angle →
      b.body.acceleration = acceleration →
      b.body.maxSpeed = maxSpeed → ((thrustForward dt).run b).board.body.speed =
        (thrust velocity angle acceleration maxSpeed dt).length := by
  refine ⟨fun h => ?_, Motion.isNaN_length_thrust hlimit hnonneg, Motion.isFinite_pushed, ?_⟩
  · exact ⟨Motion.isLimited_thrust hlimit hnonneg h, Motion.length_thrust_le_iff hlimit hnonneg h⟩
  · -- the leaf thrusts with the stats of its own body, so it is the same velocity
    rintro b rfl rfl rfl rfl
    rw [run_thrustForward]
    rfl

/-- An enemy that is faster than its own thrust could make it. -/
def runaway : Board :=
  .new { Tuning.Archetype.usual.spawn 5 .zero with velocity := ⟨21, 0⟩, maxSpeed := 3 } none 42

/-- It is slowed down to its top speed, nearly. A push that is too large leaves no speed, and what
is at rest and not pushed stays finite. -/
theorem thrust_limits_speed_runaway :
    value ((thrustForward 0).run runaway).board.body.speed ≤ value 3 *
      (1 + 1 / 2 ^ 21) + 1 / 2 ^ 70 ∧
    (thrust .zero 0 (Float32.ofBits 0x7149f2ca) 100 (Float32.ofBits 0x7149f2ca)).length.isNaN =
      true ∧
    (pushed .zero 0 0 0).isFinite = true := by
  -- too fast for its limit, pushed beyond all numbers, and at rest
  obtain ⟨hlimited, -, -, hbodies⟩ := thrust_limits_speed ⟨21, 0⟩ 0 220 3 0 rfl (by decide)
  obtain ⟨-, hlost, -⟩ := thrust_limits_speed .zero 0 (Float32.ofBits 0x7149f2ca) 100
    (Float32.ofBits 0x7149f2ca) rfl (by decide)
  obtain ⟨-, -, hfinite, -⟩ := thrust_limits_speed .zero 0 0 3 0 rfl (by decide)
  have hpush : (0 : Float32) * usableTime 0 = 0 := by decide +kernel
  have hrest : |value 0| ≤ 2 ^ 126 := by norm_num
  refine ⟨?_, hlost (by decide +kernel), ?_⟩
  · rw [hbodies runaway rfl rfl rfl rfl]
    exact (hlimited (by decide +kernel)).1.le
  · exact hfinite rfl rfl (by rw [hpush]; rfl) hrest hrest (by rwa [hpush])

/-- **Rounding may exceed the limit.** A speed of 21 that is limited to 3 becomes the number after
it, without any push. And a push that is too large leaves no speed at all. -/
theorem limit_is_exceeded :
    (thrust ⟨21, 0⟩ 0 0 3 0).length = Float32.ofBits 0x40400001 ∧
    ¬ (thrust ⟨21, 0⟩ 0 0 3 0).length ≤ 3 ∧
    ¬ ((thrustForward 0).run runaway).board.body.speed ≤ runaway.body.maxSpeed ∧
    ¬ (thrust .zero 0 (Float32.ofBits 0x7149f2ca) 100 (Float32.ofBits 0x7149f2ca)).length ≤
        100 := by
  decide +kernel

end Enemy

end Skirmish

/-! ## Headings of enemies

An enemy that is alive turns in every tick, and an angle that was turned is wrapped.

* `Goes.isWrapped` — every course but that of the dead ends with a turn made;
* `headings_stay_wrapped` — wrapping, turns and ticks all give wrapped angles.

Nothing is asked of the angle before, nor of anything else on the board. Thrust and movement come
after the turn and leave the angle alone.
-/

namespace Skirmish.Enemy

open Skirmish.Tree (Status)

variable {t : Tuning.Behavior} {dt : Float32} {b b' : Board} {c : Course} {root : EnemyNode}

theorem isWrapped_of_turnTo {point : Vector2} {turn : Motion.Turn}
    (h : b.turnTo point dt = some turn) :
    IsWrapped turn.angle :=
  (Motion.isWrapped_of_turnToward h).1

theorem Goes.isWrapped (h : Goes t dt b c b') (hc : c ≠ .dead) : IsWrapped b'.body.angle := by
  cases h with
  | dead => exact absurd rfl hc
  -- thrust and movement set other fields, so the angle is still that of the turn
  | seek _ _ _ hturn | turning _ _ _ hturn => exact isWrapped_of_turnTo hturn
  | travelling _ _ _ hturn _ hb' | arrived _ _ _ hturn _ hb' =>
    rw [hb']
    exact isWrapped_of_turnTo hturn

theorem isWrapped_tick (hroot : IsEnemyTree root) (halive : b.body.isAlive = true) {s : Status}
    (hs : ((root.tick dt).run b).result = .ok s) :
        IsWrapped ((root.tick dt).run b).board.body.angle := by
  -- a completed tick of either tree is a course of the machine, and only a dead enemy takes the one
  -- without a turn
  obtain ⟨t, c, hgoes, -⟩ := hroot.goes rfl hs
  exact hgoes.isWrapped (hgoes.ne_dead halive)

/-- **Headings stay wrapped.** Whatever an angle is, wrapped it is finite, at most half a turn
either way, and stays as it is when it is wrapped again. So are both angles that a turn speaks of,
if it has an outcome, and the angle of an enemy that is alive, after every tick that completes. -/
theorem headings_stay_wrapped :
    (∀ angle, IsWrapped (wrapAngle angle)) ∧
    (∀ angle bearing turnSpeed dt turn, Motion.turnToward angle bearing turnSpeed dt = some turn →
      IsWrapped turn.angle ∧ IsWrapped turn.error) ∧
    ∀ root, IsEnemyTree root → ∀ (b : Board) (dt : Float32) (s : Status), b.body.isAlive = true →
      ((root.tick dt).run b).result = .ok s →
          IsWrapped ((root.tick dt).run b).board.body.angle := by
  refine ⟨isWrapped_wrapAngle, ?_, ?_⟩
  · intro angle bearing turnSpeed dt turn h
    exact Motion.isWrapped_of_turnToward h
  · intro root hroot b dt s halive hs
    exact isWrapped_tick hroot halive hs

/-- An enemy that is nowhere and faces in no direction. -/
def lost : Board :=
  .new { Tuning.Archetype.usual.spawn 5 ⟨Numeric.notANumber, Numeric.infinity⟩ with
    angle := Numeric.notANumber } none 42

/-- It faces in some direction after its first tick, and a turn from no direction ends in one. -/
theorem headings_stay_wrapped_lost :
    IsWrapped (((tree .usual).tick 0.25).run lost).board.body.angle ∧
      ∃ turn, Motion.turnToward Numeric.notANumber 1 3 0.25 = some turn ∧ IsWrapped turn.angle := by
  obtain ⟨-, hturns, hticks⟩ := headings_stay_wrapped
  -- with a finite turning speed the tick completes, whatever the angle is
  have hfinite : lost.body.turnSpeed ≠ Numeric.infinity := by decide
  obtain ⟨⟨s, hs⟩, -⟩ := completes (.plain .usual) hfinite 0.25
  have hspeed : ¬ ((3 : Float32) = Numeric.infinity ∧ Motion.usableTime 0.25 = 0) := by decide
  obtain ⟨turn, hturn⟩ := Option.ne_none_iff_exists'.mp
    (mt (Motion.turnToward_eq_none_iff Numeric.notANumber 1 3 0.25).mp hspeed)
  exact ⟨hticks _ (.plain .usual) lost 0.25 s (by decide) hs, turn, hturn,
    (hturns _ _ _ _ _ hturn).1⟩

end Skirmish.Enemy

/-! ## Waypoints and the ring

A waypoint is at a distance from the spawn point that is drawn from the ring's radii. It is never
nearer than the inner radius nor farther than the outer one. Whether the outer one itself can be
drawn depends on the ring, and can be seen from the largest draw.

* `Tuning.Patrol.isRange` — a ring that passed its check is a range with a width;
* `nextRadius_bounds` — the bounds of the distance;
* `forall_nextRadius_iff` — the rings whose outer radius is never drawn;
* `draws_keep_to_range` — these, and the same for any range and any source of words.

The usual ring is one of those rings. A ring from 300 to 500 is not, and there is a seed whose first
waypoint is at its outer radius.
-/

namespace Skirmish

open Numeric
open Skirmish.Random (WordSource Replay drawBetween drawAngle drawHalf stretch topHalf)

/-! ### Rings that passed their check -/

/-- **A ring that passed its check** is a range: its radii are finite and in order, and neither is
below zero. -/
theorem Tuning.Patrol.isRange {p : Tuning.Patrol} (h : p.check = .ok ()) :
    Random.IsRange p.ringMin p.ringMax := by
  have hdemands := p.checks.passes.mp h
  -- the first three demands are all that is needed; the check orders the radii but says nothing of
  -- their difference
  simp only [demands, Demand.nonNegative, List.forall_mem_cons] at hdemands
  obtain ⟨⟨hmin, hnonneg⟩, ⟨hmax, -⟩, hle, -⟩ := hdemands
  rw [le_iff_value_le rfl hmin, value_zero] at hnonneg
  have hvalues := (le_iff_value_le hmin hmax).mp hle
  refine ⟨hmin, hmax, hle, (roundsTo_sub hmax hmin).isFinite_of_abs_le hmax ?_⟩
  -- neither radius is below zero, so the width is at most the outer one and cannot overflow
  rw [abs_of_nonneg (sub_nonneg.mpr hvalues)]
  linarith

namespace Enemy

variable {patrol : Tuning.Patrol}

/-- The heading of the next waypoint from the spawn point. -/
def Board.nextHeading (b : Board) : Float32 :=
  (drawAngle b.generator).1

/-- **The distance of the next waypoint** from the spawn point. -/
def Board.nextRadius (patrol : Tuning.Patrol) (b : Board) : Float32 :=
  (drawBetween patrol.ringMin patrol.ringMax (drawAngle b.generator).2).1

theorem waypoint_ensureWaypoint {b : Board} (h : b.memory.isUnderWay = false) :
    ((ensureWaypoint patrol).run b).board.memory.waypoint =
      some ⟨b.memory.spawn.getD b.body.position + Vector2.ofAngle b.nextHeading *
        b.nextRadius patrol,
        b.memory.generated⟩ := by
  rw [run_ensureWaypoint, Board.headed, h]
  rfl

theorem nextRadius_eq (hlt : patrol.ringMin < patrol.ringMax) (b : Board) :
    b.nextRadius patrol =
        stretch patrol.ringMin patrol.ringMax (drawHalf (drawAngle b.generator).2).1 :=
  Random.drawBetween_eq hlt _

theorem nextRadius_bounds (h : patrol.check = .ok ()) (hlt : patrol.ringMin < patrol.ringMax)
    (b : Board) :
    patrol.ringMin ≤ b.nextRadius patrol ∧ b.nextRadius patrol ≤ patrol.ringMax := by
  have hrange := Tuning.Patrol.isRange h
  rw [nextRadius_eq hlt]
  -- both ends of the range bound every part of it, however the draw is rounded
  exact ⟨hrange.le_stretch _, hrange.stretch_le _⟩

/-- An enemy whose second word has only ones in its low half. -/
def farsighted : Board :=
  .new (Tuning.Archetype.usual.spawn 5 .zero) none 9717031985986975813

theorem drawHalf_farsighted : (drawHalf (drawAngle farsighted.generator).2).1 = topHalf := by
  decide +kernel

/-- **The rings whose outer radius is never drawn** are those of which the largest draw is below it.
-/
theorem forall_nextRadius_iff (h : patrol.check = .ok ()) (hlt : patrol.ringMin < patrol.ringMax) :
    (∀ b : Board, b.memory.isUnderWay = false → b.nextRadius patrol < patrol.ringMax) ↔
      stretch patrol.ringMin patrol.ringMax topHalf < patrol.ringMax := by
  refine ⟨fun hall => ?_, fun htop b _ => ?_⟩
  · -- one seed is enough: the second word of this enemy is the one that gives the largest draw
    have hfarsighted := hall farsighted rfl
    rwa [nextRadius_eq hlt, drawHalf_farsighted] at hfarsighted
  · -- every other word gives at most as much
    rw [nextRadius_eq hlt]
    exact single_lt_of_le_of_lt ((Tuning.Patrol.isRange h).stretch_le_stretch _) htop

/-! ### Ranges and rings -/

/-- **When draws stay below the upper end** of a range with finite ends in order. If the width is a
finite number, every draw from every source of words is between the ends, both included; if it is
too large for that, no draw is finite. All draws are below the upper end if and only if the largest
one is.

The same goes for the distances of waypoints on a ring with these radii, if it passes its check. -/
theorem draws_keep_to_range (low high : Float32) (hlow : low.isFinite = true)
    (hhigh : high.isFinite = true) (hlt : low < high) :
    ((high - low).isFinite = true → ∀ (σ : Type) [WordSource σ] (s : σ),
      low ≤ (drawBetween low high s).1 ∧ (drawBetween low high s).1 ≤ high) ∧
    ((high - low).isFinite = false → ∀ (σ : Type) [WordSource σ] (s : σ),
      (drawBetween low high s).1.isFinite = false) ∧
    ((∀ (σ : Type) [WordSource σ] (s : σ),
      low ≤ (drawBetween low high s).1 ∧ (drawBetween low high s).1 < high) ↔
        stretch low high topHalf < high) ∧
    ∀ patrol : Tuning.Patrol, patrol.ringMin = low → patrol.ringMax = high → patrol.check = .ok () →
      (∀ b : Board, b.memory.isUnderWay = false →
        ((ensureWaypoint patrol).run b).board.memory.waypoint =
          some ⟨b.memory.spawn.getD b.body.position + Vector2.ofAngle b.nextHeading *
            b.nextRadius patrol,
            b.memory.generated⟩ ∧
        low ≤ b.nextRadius patrol ∧ b.nextRadius patrol ≤ high) ∧
      ((∀ b : Board, b.memory.isUnderWay = false → b.nextRadius patrol < high) ↔
        stretch low high topHalf < high) := by
  refine ⟨fun hwidth σ _ s => ?_, fun hwidth σ _ s => ?_,
    Random.forall_drawBetween_iff hlow hhigh hlt, ?_⟩
  · -- the width is a number, so the part of it that is drawn is at most the width
    have hrange : Random.IsRange low high := ⟨hlow, hhigh, single_le_of_lt hlt, hwidth⟩
    rw [Random.drawBetween_eq hlt]
    exact ⟨hrange.le_stretch _, hrange.stretch_le _⟩
  · rw [Random.drawBetween_eq hlt]
    -- an infinite width times a part is infinite or no number, and so is the sum
    exact Random.not_isFinite_stretch hwidth _
  · -- a ring that passed its check has a width, so of the two cases above it is in the first
    rintro patrol rfl rfl hcheck
    exact ⟨fun b hb => ⟨waypoint_ensureWaypoint hb, nextRadius_bounds hcheck hlt b⟩,
      forall_nextRadius_iff hcheck hlt⟩

/-- No waypoint on the usual ring is at its outer radius, and 500 is never drawn from a range that
starts at 200. From 300 to 500 nothing more than 500 is drawn, and nothing finite from a range that
is too wide. -/
theorem draws_keep_to_range_usual :
    (∀ (σ : Type) [WordSource σ] (s : σ), (drawBetween 200 500 s).1 < 500) ∧
    (∀ (σ : Type) [WordSource σ] (s : σ), (drawBetween 300 500 s).1 ≤ 500) ∧
    (∀ (σ : Type) [WordSource σ] (s : σ),
      (drawBetween (Float32.ofBits 0xff61b1e6) (Float32.ofBits 0x7f61b1e6) s).1.isFinite = false) ∧
    ∀ b : Board, b.memory.isUnderWay = false → 200 ≤ b.nextRadius .usual ∧
        b.nextRadius .usual < 500 := by
  have htop : stretch 200 500 topHalf < 500 := by decide +kernel
  obtain ⟨-, -, hbelow, hrings⟩ := draws_keep_to_range 200 500 rfl rfl (by decide)
  obtain ⟨hbetween, -⟩ := draws_keep_to_range 300 500 rfl rfl (by decide)
  obtain ⟨-, hinfinite, -⟩ :=
    draws_keep_to_range (Float32.ofBits 0xff61b1e6) (Float32.ofBits 0x7f61b1e6) rfl rfl (by decide)
  obtain ⟨hbounds, houter⟩ := hrings .usual rfl rfl (by decide +kernel)
  refine ⟨fun σ _ s => ?_, fun σ _ s => ?_, hinfinite (by decide +kernel), fun b hb => ?_⟩
  · exact (hbelow.mpr htop σ s).2
  · exact (hbetween (by decide +kernel) σ s).2
  · exact ⟨(hbounds b hb).2.1, houter.mpr htop b hb⟩

/-- **The upper end may be drawn.** It is drawn from the range between one and the next number after
it, whose every draw is one end or the other, and it is the distance of a waypoint on a ring from
300 to 500. And from a range that is too wide something infinite is drawn. -/
theorem upper_end_is_drawn :
    (drawBetween 1 (Float32.ofBits 0x3f800001) (Replay.ofList [0xffffff00])).1 =
      Float32.ofBits 0x3f800001 ∧
    (1 : Float32) < Float32.ofBits 0x3f800001 ∧
    Tuning.Patrol.check ⟨300, 500, 50⟩ = .ok () ∧ farsighted.memory.isUnderWay = false ∧
    farsighted.nextRadius ⟨300, 500, 50⟩ = 500 ∧
    (drawBetween (Float32.ofBits 0xff61b1e6) (Float32.ofBits 0x7f61b1e6)
      (Replay.ofList [0xffffff00])).1 =
      Numeric.infinity := by
  decide +kernel

end Enemy

end Skirmish
