import Skirmish.Proofs.Enemy.Regimes
import Skirmish.Proofs.Numeric.Canonical

/-!
# The trees and the machine

Every path through the enemy's tree is a course of the machine, and the machine stops only where a
turn has no outcome:

* `tick_tree_iff_goes` — the tree and the machine;
* `completes` — a tick completes if the enemy's turning speed is finite.
-/

/-! ## The trees are the machine

Every path through the enemy's tree, with its two sequences that break off and the selector above
them, is a course of the machine in `Goes`.

* `Goes.branches` — the two branches along a course;
* `Goes.run_tree` and `Goes.run_labeledTree` — the trees go through every course, with all its
  records;
* `IsEnemyTree.goes` — and nothing else is a tick of either tree that ends well;
* `tick_tree_iff_goes` — the plain tree's ticks are the machine's, in both directions.

A failed search for the target has already written that nothing is in view. A failed arrival leaves
the answer to the fallback. Neither the pursuit without a target nor the turn without a waypoint is
ever met, because whoever sees has a target (`Board.Sees.intercept`) and whoever patrols has a
waypoint (`Board.headed_waypoint`).
-/

namespace Skirmish.Enemy

open Skirmish.Tree (Node Record Status)

variable {t : Tuning.Behavior} {dt : Float32} {b b' : Board} {c : Course}

/-! ### The two branches of the tree -/

section Branches

variable {turn : Motion.Turn} {w : Waypoint}

private theorem tick_lives (dt : Float32) (b : Board) :
    ((Node.condition lives : EnemyNode).tick dt).run b = ⟨b, [], .ok (.ofBool b.body.isAlive)⟩ := by
  rw [Node.tick_condition (run_lives b), List.map_nil]

private theorem tick_perceive (dt : Float32) (b : Board) :
    ((Node.condition perceive : EnemyNode).tick dt).run b =
      ⟨b.flagged b.sees, b.sightNotes.map .noted, .ok (.ofBool b.sees)⟩ :=
  Node.tick_condition (run_perceive b)

private theorem tick_seekNode (alive : b.body.isAlive = true) :
    ((seekNode t).tick dt).run b =
      ((Node.tickSequence dt
        [.condition perceive, .action (pursue t.steering)]).run b).after [] := by
  have hlives : ((Node.condition lives : EnemyNode).tick dt).run b = ⟨b, [], .ok .success⟩ := by
    rw [tick_lives, alive]
    rfl
  rw [seekNode, Node.tick, Node.tickSequence_cons_of_success hlives]

theorem seekNode_dead (dead : b.body.isAlive = false) :
    ((seekNode t).tick dt).run b = ⟨b, [], .ok .failure⟩ := by
  have hlives : ((Node.condition lives : EnemyNode).tick dt).run b = ⟨b, [], .ok .failure⟩ := by
    rw [tick_lives, dead]
    rfl
  -- both branches begin with the question whether the enemy lives
  rw [seekNode, Node.tick, Node.tickSequence_cons_of_ne hlives (by decide)]

theorem seekNode_unseen (alive : b.body.isAlive = true) (unseen : b.sees = false) :
    ((seekNode t).tick dt).run b =
      ⟨b.flagged false, b.sightNotes.map .noted, .ok .failure⟩ := by
  have hlook := tick_perceive dt b
  rw [unseen] at hlook
  -- the answer is on the board when the condition fails
  rw [tick_seekNode alive, Node.tickSequence_cons_of_ne hlook (by decide), Tree.Outcome.after_nil]
  rfl

theorem seekNode_seen {aim : Vector2} (alive : b.body.isAlive = true) (seen : b.sees = true)
    (haim : intercept t.steering b = some aim) (hturn : b.turnTo aim dt = some turn) :
    ((seekNode t).tick dt).run b =
      ⟨((b.flagged true).facing turn).driven t.steering dt, b.sightNotes.map .noted,
        .ok .success⟩ := by
  have hlook := tick_perceive dt b
  rw [seen] at hlook
  -- to write the answer changes neither the point to aim at nor the turn
  have hpursue : ((Node.action (pursue t.steering) : EnemyNode).tick dt).run (b.flagged true) =
      ⟨((b.flagged true).facing turn).driven t.steering dt, [], .ok .success⟩ :=
    Node.tick_action (run_pursue (b := b.flagged true) haim hturn)
  rw [tick_seekNode alive, Node.tickSequence_cons_of_success hlook,
    Node.tickSequence_cons_of_success hpursue, Node.tickSequence_nil]
  simp

theorem seekNode_fault {aim : Vector2} (alive : b.body.isAlive = true) (seen : b.sees = true)
    (haim : intercept t.steering b = some aim) (hturn : b.turnTo aim dt = none) :
    ((seekNode t).tick dt).run b =
      ⟨b.flagged true, b.sightNotes.map .noted, .error .unorderedBounds⟩ := by
  have hlook := tick_perceive dt b
  rw [seen] at hlook
  have hpursue : ((Node.action (pursue t.steering) : EnemyNode).tick dt).run (b.flagged true) =
      ⟨b.flagged true, [], .error .unorderedBounds⟩ :=
    Node.tick_action (run_pursue_fault (b := b.flagged true) haim hturn)
  -- the flag has been written when the turn turns out to be missing
  rw [tick_seekNode alive, Node.tickSequence_cons_of_success hlook,
    Node.tickSequence_cons_of_error hpursue]
  simp

private theorem tick_patrolNode (alive : b.body.isAlive = true) :
    ((patrolNode t).tick dt).run b =
      ((Node.tickSequence dt
        [.action (faceWaypoint t.steering), .action thrustForward, .action (moveOn t.steering),
          .condition (checkArrival t.patrol.arrivalTolerance)]).run (b.headed t.patrol)).after
        ((b.headingNotes t.patrol).map .noted) := by
  have hlives : ((Node.condition lives : EnemyNode).tick dt).run b = ⟨b, [], .ok .success⟩ := by
    rw [tick_lives, alive]
    rfl
  have hensure : ((Node.action fun _ => ensureWaypoint t.patrol : EnemyNode).tick dt).run b =
      ⟨b.headed t.patrol, (b.headingNotes t.patrol).map .noted, .ok .success⟩ :=
    Node.tick_action (run_ensureWaypoint t.patrol b)
  rw [patrolNode, Node.tick, Node.tickSequence_cons_of_success hlives,
    Node.tickSequence_cons_of_success hensure, Tree.Outcome.after_nil]

theorem patrolNode_dead (dead : b.body.isAlive = false) :
    ((patrolNode t).tick dt).run b = ⟨b, [], .ok .failure⟩ := by
  have hlives : ((Node.condition lives : EnemyNode).tick dt).run b = ⟨b, [], .ok .failure⟩ := by
    rw [tick_lives, dead]
    rfl
  rw [patrolNode, Node.tick, Node.tickSequence_cons_of_ne hlives (by decide)]

private theorem tick_faceWaypoint (hw : b.memory.waypoint = some w)
    (hturn : b.turnTo w.point dt = some turn) :
    ((Node.action (faceWaypoint t.steering) : EnemyNode).tick dt).run b =
      ⟨b.facing turn, [],
        .ok (if turn.error.abs < t.steering.facingTolerance then .success else .running)⟩ :=
  Node.tick_action ((run_faceWaypoint hw).trans (run_facePoint hturn))

theorem patrolNode_turning (alive : b.body.isAlive = true)
    (hw : (b.headed t.patrol).memory.waypoint = some w)
    (hturn : (b.headed t.patrol).turnTo w.point dt = some turn)
    (off : ¬ turn.error.abs < t.steering.facingTolerance) :
    ((patrolNode t).tick dt).run b =
      ⟨(b.headed t.patrol).facing turn, (b.headingNotes t.patrol).map .noted, .ok .running⟩ := by
  have hface := tick_faceWaypoint (t := t) hw hturn
  rw [if_neg off] at hface
  -- an unfinished turn settles the sequence before anything moves
  rw [tick_patrolNode alive, Node.tickSequence_cons_of_ne hface (by decide)]
  simp

/-- Once the waypoint is faced, the enemy moves, and the branch's answer is whether it has arrived.
-/
theorem patrolNode_faced (alive : b.body.isAlive = true)
    (hw : (b.headed t.patrol).memory.waypoint = some w)
    (hturn : (b.headed t.patrol).turnTo w.point dt = some turn)
    (faced : turn.error.abs < t.steering.facingTolerance) {b' : Board}
    (hb' : b' = ((b.headed t.patrol).facing turn).driven t.steering dt) :
    ((patrolNode t).tick dt).run b =
      ⟨if b'.isAtWaypoint t.patrol.arrivalTolerance then
          { b' with memory := { b'.memory with reached := true } } else b',
        (b.headingNotes t.patrol).map .noted,
        .ok (.ofBool (b'.isAtWaypoint t.patrol.arrivalTolerance))⟩ := by
  have hface := tick_faceWaypoint (t := t) hw hturn
  rw [if_pos faced] at hface
  -- the two motions succeed, so the sequence gets to its last child
  have hthrust : ((Node.action thrustForward : EnemyNode).tick dt).run
      ((b.headed t.patrol).facing turn) =
        ⟨{ (b.headed t.patrol).facing turn with
          body := ((b.headed t.patrol).facing turn).body.thrusted dt }, [], .ok .success⟩ :=
    Node.tick_action run_thrustForward
  have hmove : ((Node.action (moveOn t.steering) : EnemyNode).tick dt).run
      { (b.headed t.patrol).facing turn with
        body := ((b.headed t.patrol).facing turn).body.thrusted dt } = ⟨b', [], .ok .success⟩ := by
    rw [hb']
    exact Node.tick_action run_moveOn
  have hcheck : ((Node.condition (checkArrival t.patrol.arrivalTolerance) : EnemyNode).tick dt).run
      b' = _ := Node.tick_condition (run_checkArrival t.patrol.arrivalTolerance b')
  rw [tick_patrolNode alive, Node.tickSequence_cons_of_success hface,
    Node.tickSequence_cons_of_success hthrust, Node.tickSequence_cons_of_success hmove]
  -- the check is the last child, so its answer is the branch's
  cases h : b'.isAtWaypoint t.patrol.arrivalTolerance with
  | true =>
    rw [h, if_pos rfl] at hcheck
    rw [Node.tickSequence_cons_of_success hcheck]
    simp [Status.ofBool]
  | false =>
    rw [h, if_neg Bool.false_ne_true] at hcheck
    rw [Node.tickSequence_cons_of_ne hcheck (by decide)]
    simp [Status.ofBool]

theorem patrolNode_fault (alive : b.body.isAlive = true)
    (hw : (b.headed t.patrol).memory.waypoint = some w)
    (hturn : (b.headed t.patrol).turnTo w.point dt = none) :
    ((patrolNode t).tick dt).run b =
      ⟨b.headed t.patrol, (b.headingNotes t.patrol).map .noted, .error .unorderedBounds⟩ := by
  -- a waypoint was chosen first, and stays chosen
  have hface : ((Node.action (faceWaypoint t.steering) : EnemyNode).tick dt).run
      (b.headed t.patrol) = ⟨b.headed t.patrol, [], .error .unorderedBounds⟩ :=
    Node.tick_action ((run_faceWaypoint hw).trans (run_facePoint_fault hturn))
  rw [tick_patrolNode alive, Node.tickSequence_cons_of_error hface]
  simp

theorem tick_fallbackNode (dt : Float32) (b : Board) :
    ((fallbackNode).tick dt).run b = ⟨b, [], .ok .success⟩ := by
  rw [fallbackNode]
  exact Node.tick_action rfl

end Branches

/-! ### The trees -/

theorem Board.isAtWaypoint_eq {w : Waypoint} (hw : b.memory.waypoint = some w)
    (tolerance : Float32) :
    b.isAtWaypoint tolerance = decide (b.body.position.distance w.point ≤ tolerance) := by
  rw [isAtWaypoint, hw]

/-- What the first branch notes, by the tick's course. -/
def Course.sightNotes (b : Board) : Course → List Note
  | dead => []
  | _ => b.sightNotes

/-- What the second branch notes, by the tick's course. -/
def Course.headingNotes (t : Tuning.Behavior) (b : Board) : Course → List Note
  | dead | seek => []
  | _ => (b.flagged false).headingNotes t.patrol

/-- **What the labelled nodes report,** by the tick's course, in the order in which they are done.
-/
def Course.reports : Course → List (String × Status)
  | seek => [("seek", .success), ("root", .success)]
  | turning => [("seek", .failure), ("patrol", .running), ("root", .running)]
  | arrived => [("seek", .failure), ("patrol", .success), ("root", .success)]
  | dead | travelling =>
    [("seek", .failure), ("patrol", .failure), ("fallback", .success), ("root", .success)]

/-- The record of a report. -/
def Board.reported (b : Board) (report : String × Status) : Record Note :=
  .ticked report.1 b.body.id b.step report.2

/-- **The trail of the tree with labels.** The first branch's report stands between the notes of the
two branches. -/
def Course.trail (t : Tuning.Behavior) (b : Board) (c : Course) : List (Record Note) :=
  (c.sightNotes b).map .noted ++ (c.reports.take 1).map b.reported ++
    ((c.headingNotes t b).map .noted ++ (c.reports.drop 1).map b.reported)

/-- What the second branch answers once the first has failed. The fallback stands in for it where it
fails too. -/
def Course.patrolStatus : Course → Status
  | turning => .running
  | arrived => .success
  | _ => .failure

namespace Goes

/-- **The two branches along a course.** Either the first one succeeds, or it fails and the second
one answers. -/
theorem branches (h : Goes t dt b c b') :
    (c = .seek ∧
      ((seekNode t).tick dt).run b = ⟨b', (c.sightNotes b).map .noted, .ok .success⟩) ∨
    (c ≠ .seek ∧ ∃ b₁ : Board, b₁.body.id = b.body.id ∧ b₁.step = b.step ∧
      ((seekNode t).tick dt).run b = ⟨b₁, (c.sightNotes b).map .noted, .ok .failure⟩ ∧
      ((patrolNode t).tick dt).run b₁ =
        ⟨b', (c.headingNotes t b).map .noted, .ok c.patrolStatus⟩) := by
  cases h with
  | dead dead =>
    -- both branches ask first whether the enemy lives
    have hdead := isAlive_eq_false_iff.mpr dead
    exact .inr ⟨by decide, b, rfl, rfl, seekNode_dead hdead, patrolNode_dead hdead⟩
  | seek alive seen haim hturn =>
    exact .inl ⟨rfl, seekNode_seen (isAlive_iff.mpr alive) (b.sees_iff.mpr seen) haim hturn⟩
  | turning alive unseen hw hturn off =>
    have halive := isAlive_iff.mpr alive
    have hsees := b.sees_eq_false_iff.mpr unseen
    exact .inr ⟨by decide, b.flagged false, rfl, rfl, seekNode_unseen halive hsees,
      patrolNode_turning (b := b.flagged false) halive hw hturn off⟩
  | @travelling w turn _ alive unseen hw hturn faced hb' away =>
    have halive := isAlive_iff.mpr alive
    have hsees := b.sees_eq_false_iff.mpr unseen
    have hpatrol := patrolNode_faced (b := b.flagged false) halive hw hturn faced hb'
    -- the waypoint is still the one that was turned to
    have hw' : b'.memory.waypoint = some w := by rw [hb']; exact hw
    rw [Board.isAtWaypoint_eq hw', decide_eq_false away] at hpatrol
    exact .inr ⟨by decide, b.flagged false, rfl, rfl, seekNode_unseen halive hsees, hpatrol⟩
  | @arrived w turn b₂ alive unseen hw hturn faced hb' near =>
    have halive := isAlive_iff.mpr alive
    have hsees := b.sees_eq_false_iff.mpr unseen
    have hpatrol := patrolNode_faced (b := b.flagged false) halive hw hturn faced hb'
    have hw' : b₂.memory.waypoint = some w := by rw [hb']; exact hw
    rw [Board.isAtWaypoint_eq hw', decide_eq_true near] at hpatrol
    exact .inr ⟨by decide, b.flagged false, rfl, rfl, seekNode_unseen halive hsees, hpatrol⟩

theorem run_tree (h : Goes t dt b c b') :
    ((tree t).tick dt).run b =
      ⟨b', (c.sightNotes b ++ c.headingNotes t b).map .noted, .ok c.status⟩ := by
  rw [tree, Node.tick]
  obtain ⟨rfl, hseek⟩ | ⟨hc, b₁, -, -, hseek, hpatrol⟩ := h.branches
  · rw [Node.tickSelector_cons_of_ne hseek (by decide)]
    simp [Course.headingNotes, Course.status]
  · rw [Node.tickSelector_cons_of_failure hseek]
    cases c with
    | seek => exact absurd rfl hc
    | turning | arrived =>
      rw [Node.tickSelector_cons_of_ne hpatrol (by decide)]
      simp [Course.patrolStatus, Course.status]
    | dead | travelling =>
      -- the second branch fails as well, and the fallback answers
      rw [Node.tickSelector_cons_of_failure hpatrol,
        Node.tickSelector_cons_of_ne (tick_fallbackNode dt b') (by decide)]
      simp [Course.status]

private theorem tick_labeled (label : String) {child : EnemyNode} {b₁ b₂ : Board}
    {trail : List (Record Note)} {s : Status} (hid : b₂.body.id = b.body.id)
    (hstep : b₂.step = b.step) (h : (child.tick dt).run b₁ = ⟨b₂, trail, .ok s⟩) :
    ((Node.labeled label child).tick dt).run b₁ =
      ⟨b₂, trail ++ [b.reported (label, s)], .ok s⟩ := by
  rw [Node.tick_labeled_of_ok h, Board.reported, ← hid, ← hstep]
  rfl

theorem run_labeledTree (h : Goes t dt b c b') :
    ((labeledTree t).tick dt).run b = ⟨b', c.trail t b, .ok c.status⟩ := by
  -- the root's report comes last, whatever the selector has on its trail
  have hroot : ∀ {s : Status} {trail : List (Record Note)},
      (Node.tickSelector dt [.labeled "seek" (seekNode t), .labeled "patrol" (patrolNode t),
        .labeled "fallback" fallbackNode]).run b = ⟨b', trail, .ok s⟩ →
      ((labeledTree t).tick dt).run b = ⟨b', trail ++ [b.reported ("root", s)], .ok s⟩ := by
    intro s trail hs
    rw [labeledTree]
    exact tick_labeled "root" h.id_eq h.step_eq (by rw [Node.tick, hs])
  obtain ⟨rfl, hseek⟩ | ⟨hc, b₁, hid, hstep, hseek, hpatrol⟩ := h.branches
  · -- only the first branch is ticked
    have hseek' := tick_labeled "seek" h.id_eq h.step_eq hseek
    rw [hroot (Node.tickSelector_cons_of_ne hseek' (by decide))]
    simp [Course.trail, Course.reports, Course.headingNotes, Course.status]
  · have hseek' := tick_labeled "seek" hid hstep hseek
    have hpatrol' := tick_labeled "patrol" h.id_eq h.step_eq hpatrol
    have hfallback := tick_labeled "fallback" h.id_eq h.step_eq (tick_fallbackNode dt b')
    -- the fallback is ticked only where the second branch fails too
    cases c with
    | seek => exact absurd rfl hc
    | turning | arrived =>
      rw [hroot (by rw [Node.tickSelector_cons_of_failure hseek',
        Node.tickSelector_cons_of_ne hpatrol' (by decide), Tree.Outcome.after_mk])]
      simp [Course.trail, Course.reports, Course.patrolStatus, Course.status]
    | dead | travelling =>
      rw [hroot (by rw [Node.tickSelector_cons_of_failure hseek',
        Node.tickSelector_cons_of_failure hpatrol',
        Node.tickSelector_cons_of_ne hfallback (by decide), Tree.Outcome.after_mk,
        Tree.Outcome.after_mk])]
      simp [Course.trail, Course.reports, Course.patrolStatus, Course.status]

end Goes

section Faults

variable (alive : b.body.health > 0) (h : b.neededTurn t dt = none)
include alive h

/-- **An enemy that cannot turn** gets no answer from the branch that asks for the turn. -/
private theorem branches_fault :
    (∃ b' trail, ((seekNode t).tick dt).run b = ⟨b', trail, .error .unorderedBounds⟩) ∨
    (∃ b₁ b' trail trail', ((seekNode t).tick dt).run b = ⟨b₁, trail, .ok .failure⟩ ∧
      ((patrolNode t).tick dt).run b₁ = ⟨b', trail', .error .unorderedBounds⟩) := by
  have halive := isAlive_iff.mpr alive
  unfold Board.neededTurn at h
  cases hsees : b.sees with
  | true =>
    -- the turn towards the target is missing
    obtain ⟨aim, haim⟩ := (b.sees_iff.mp hsees).intercept t.steering
    rw [hsees, if_pos rfl, haim, Option.bind_some] at h
    exact .inl ⟨_, _, seekNode_fault halive hsees haim h⟩
  | false =>
    -- the turn towards the waypoint is missing
    obtain ⟨w, hw⟩ : ∃ w, (b.patrolling t).memory.waypoint = some w := Board.headed_waypoint _ _
    rw [hsees, if_neg Bool.false_ne_true, hw, Option.bind_some] at h
    exact .inr ⟨_, _, _, _, seekNode_unseen halive hsees,
      patrolNode_fault (b := b.flagged false) halive hw h⟩

theorem run_tree_fault :
    ∃ b' trail, ((tree t).tick dt).run b = ⟨b', trail, .error .unorderedBounds⟩ := by
  rw [tree, Node.tick]
  obtain ⟨b', trail, hseek⟩ | ⟨b₁, b', trail, trail', hseek, hpatrol⟩ := branches_fault alive h
  · exact ⟨_, _, Node.tickSelector_cons_of_error hseek⟩
  · refine ⟨b', trail ++ trail', ?_⟩
    rw [Node.tickSelector_cons_of_failure hseek, Node.tickSelector_cons_of_error hpatrol]
    rfl

theorem run_labeledTree_fault :
    ∃ b' trail, ((labeledTree t).tick dt).run b = ⟨b', trail, .error .unorderedBounds⟩ := by
  rw [labeledTree]
  obtain ⟨b', trail, hseek⟩ | ⟨b₁, b', trail, trail', hseek, hpatrol⟩ := branches_fault alive h
  · refine ⟨b', trail, Node.tick_labeled_of_error ?_⟩
    rw [Node.tick, Node.tickSelector_cons_of_error (Node.tick_labeled_of_error hseek)]
  · refine ⟨b',
      trail ++ [.ticked "seek" (Tree.Host.agent b₁) (Tree.Host.step b₁) .failure] ++ trail',
      Node.tick_labeled_of_error ?_⟩
    rw [Node.tick, Node.tickSelector_cons_of_failure (Node.tick_labeled_of_ok hseek), Board.emit_eq,
      Node.tickSelector_cons_of_error (Node.tick_labeled_of_error hpatrol)]
    rfl

end Faults

/-! ### What a tick puts on record -/

/-- The enemy that a note is about. -/
def Note.enemy : Note → UInt64
  | detectionChanged enemy _ => enemy
  | waypointChosen enemy _ => enemy

/-- The enemy that a record is about. -/
def recordEnemy : Record Note → UInt64
  | .ticked _ agent _ _ => agent
  | .noted note => note.enemy

theorem agent_of_event? {r : Record Note} {ev : Trace.Event} (h : r.event? = some ev) :
    ev.agent = recordEnemy r := by
  cases r with
  | ticked node agent step status =>
    rw [← Option.some.inj h]
    rfl
  | noted note => exact absurd h (by simp [Record.event?])

theorem enemy_of_mem_sightNotes {n : Note} (h : n ∈ c.sightNotes b) : n.enemy = b.body.id := by
  cases c with
  | dead => exact absurd h List.not_mem_nil
  | seek | turning | travelling | arrived =>
    -- there is one note at most
    simp only [Course.sightNotes, Board.sightNotes] at h
    split at h
    · rw [List.mem_singleton.mp h]
      rfl
    · exact absurd h List.not_mem_nil

theorem enemy_of_mem_headingNotes {n : Note} (h : n ∈ c.headingNotes t b) :
    n.enemy = b.body.id := by
  cases c with
  | dead | seek => exact absurd h List.not_mem_nil
  | turning | travelling | arrived =>
    simp only [Course.headingNotes, Board.headingNotes] at h
    split at h
    · exact absurd h List.not_mem_nil
    · rw [List.mem_singleton.mp h]
      rfl

/-- **Every record of a tick is about the enemy that was ticked.** -/
theorem recordEnemy_of_mem_trail {r : Record Note} (h : r ∈ c.trail t b) :
    recordEnemy r = b.body.id := by
  simp only [Course.trail, List.mem_append, List.mem_map] at h
  -- notes and reports of each branch
  obtain (⟨n, hn, rfl⟩ | ⟨report, -, rfl⟩) | (⟨n, hn, rfl⟩ | ⟨report, -, rfl⟩) := h
  · exact enemy_of_mem_sightNotes hn
  · rfl
  · exact enemy_of_mem_headingNotes hn
  · rfl

/-- The trace events of a course. -/
def Course.events (b : Board) (c : Course) : List Trace.Event :=
  c.reports.map fun report => ⟨b.body.id, b.step, report.1, report.2.text⟩

theorem events_reported (b : Board) (reports : List (String × Status)) :
    Tree.events (reports.map b.reported) =
      reports.map fun report => ⟨b.body.id, b.step, report.1, report.2.text⟩ := by
  induction reports with
  | nil => rfl
  | cons report rest ih => exact congrArg (List.cons _) ih

/-- **The events of the tree with labels are the reports of the course.** -/
theorem events_trail (t : Tuning.Behavior) (b : Board) (c : Course) :
    Tree.events (c.trail t b) = c.events b := by
  -- notes give no events, and without them the two parts of the reports stand side by side
  rw [Course.trail, Tree.events_append, Tree.events_append, Tree.events_append, Tree.events_noted,
    Tree.events_noted, List.nil_append, List.nil_append, events_reported, events_reported,
    ← List.map_append, List.take_append_drop, Course.events]

/-! ### Either tree -/

/-- **The enemy's trees:** the plain one and the one with labels, for any tuning. -/
inductive IsEnemyTree : EnemyNode → Prop
  | plain (t : Tuning.Behavior) : IsEnemyTree (tree t)
  | labeled (t : Tuning.Behavior) : IsEnemyTree (labeledTree t)

theorem goes_of_run_tree {o : Tree.Outcome Board (Record Note) Status} {s : Status}
    (hrun : ((tree t).tick dt).run b = o) (hs : o.result = .ok s) :
    ∃ c, Goes t dt b c o.board ∧ c.status = s ∧
      o.trail = (c.sightNotes b ++ c.headingNotes t b).map .noted := by
  -- the machine takes a course or the enemy cannot turn, and the tree has been followed in both
  -- cases
  obtain ⟨c, b₂, hgoes⟩ | ⟨alive, hturn⟩ := exists_goes t dt b
  · rw [hgoes.run_tree] at hrun
    subst hrun
    exact ⟨c, hgoes, Except.ok.inj hs, rfl⟩
  · obtain ⟨b₂, trail, hfault⟩ := run_tree_fault alive hturn
    rw [hfault] at hrun
    subst hrun
    exact absurd hs (by simp)

theorem goes_of_run_labeledTree {o : Tree.Outcome Board (Record Note) Status} {s : Status}
    (hrun : ((labeledTree t).tick dt).run b = o) (hs : o.result = .ok s) :
    ∃ c, Goes t dt b c o.board ∧ c.status = s ∧ o.trail = c.trail t b := by
  obtain ⟨c, b₂, hgoes⟩ | ⟨alive, hturn⟩ := exists_goes t dt b
  · rw [hgoes.run_labeledTree] at hrun
    subst hrun
    exact ⟨c, hgoes, Except.ok.inj hs, rfl⟩
  · -- the fault is no status
    obtain ⟨b₂, trail, hfault⟩ := run_labeledTree_fault alive hturn
    rw [hfault] at hrun
    subst hrun
    exact absurd hs (by simp)

theorem IsEnemyTree.goes {root : EnemyNode} (h : IsEnemyTree root)
    {o : Tree.Outcome Board (Record Note) Status} {s : Status} (hrun : (root.tick dt).run b = o)
    (hs : o.result = .ok s) :
    ∃ t c, Goes t dt b c o.board ∧ c.status = s ∧ ∀ r ∈ o.trail, recordEnemy r = b.body.id := by
  cases h with
  | plain t =>
    obtain ⟨c, hgoes, hc, htrail⟩ := goes_of_run_tree hrun hs
    refine ⟨t, c, hgoes, hc, ?_⟩
    -- without labels there are only notes
    intro r hr
    rw [htrail, List.mem_map] at hr
    obtain ⟨n, hn, rfl⟩ := hr
    obtain hn | hn := List.mem_append.mp hn
    · exact enemy_of_mem_sightNotes hn
    · exact enemy_of_mem_headingNotes hn
  | labeled t =>
    obtain ⟨c, hgoes, hc, htrail⟩ := goes_of_run_labeledTree hrun hs
    refine ⟨t, c, hgoes, hc, ?_⟩
    intro r hr
    rw [htrail] at hr
    exact recordEnemy_of_mem_trail hr

/-! ### The refinement -/

/-- **The tree is the machine.** A tick of the tree ends with a status exactly if the machine takes
a course with that status, and then it leaves the machine's board. Pursuit keeps everything that is
remembered of the patrol, and an unfinished turn leaves the enemy where it was. -/
theorem tick_tree_iff_goes (t : Tuning.Behavior) (dt : Float32) (b b' : Board) (s : Status) :
    ((∃ trail, ((tree t).tick dt).run b = ⟨b', trail, .ok s⟩) ↔
      ∃ c, Goes t dt b c b' ∧ c.status = s) ∧
    (Goes t dt b .seek b' →
      b'.memory = { b.memory with detected := true } ∧ b'.generator = b.generator) ∧
    (Goes t dt b .turning b' →
      b'.memory = (b.patrolling t).memory ∧ b'.generator = (b.patrolling t).generator ∧
        b'.body.position = (b.patrolling t).body.position ∧
        b'.body.velocity = (b.patrolling t).body.velocity) := by
  refine ⟨⟨?_, ?_⟩, ?_, ?_⟩
  · -- every path through the tree is a course
    rintro ⟨trail, hrun⟩
    obtain ⟨c, hgoes, hc, -⟩ := goes_of_run_tree hrun rfl
    exact ⟨c, hgoes, hc⟩
  · -- and every course is a path through the tree
    rintro ⟨c, hgoes, rfl⟩
    exact ⟨_, hgoes.run_tree⟩
  · intro hgoes
    cases hgoes with
    | seek => exact ⟨rfl, rfl⟩
  · intro hgoes
    cases hgoes with
    | turning => exact ⟨rfl, rfl, rfl, rfl⟩

end Skirmish.Enemy

/-! ## Turns that have no outcome

The one thing that can go wrong in a tick is a turn whose limit is not a number. The limit is the
turning speed times the frame's duration, neither of them below zero and the second one finite, so
it is a number unless the speed is infinite and the duration zero.

* `Motion.turnToward_eq_none_iff` — the turns that have no outcome;
* `Enemy.completes` — a tick completes if the enemy's turning speed is finite.

The speed counts only by being finite. Where the target is, or whether there is one, does not
matter, nor do the angles, which may be no numbers themselves.
-/

namespace Skirmish

/-! ### Turns -/

namespace Motion

theorem usableTime_eq (dt : Float32) :
    usableTime dt = if dt.isFinite then Numeric.greater dt 0 else 0 := rfl

theorem isFinite_usableTime (dt : Float32) : (usableTime dt).isFinite = true := by
  rw [usableTime_eq, Numeric.greater_zero]
  -- what is not finite counts as no time, and what is below zero too
  split
  · next hfinite =>
    split
    · exact hfinite
    · rfl
  · rfl

theorem hasSign_usableTime (dt : Float32) :
    Numeric.HasSign .positive (usableTime dt).toModel.unpack := by
  rw [usableTime_eq]
  split
  · exact Numeric.hasSign_greater_zero dt
  · rfl

theorem clamp?_eq_none_iff {x low high : Float32} :
    Numeric.clamp? x low high = none ↔ ¬ low ≤ high := by
  unfold Numeric.clamp?
  split
  · next h => simp [h]
  · next h => simp [h]

theorem turnToward_eq_none_iff (angle bearing turnSpeed dt : Float32) :
    turnToward angle bearing turnSpeed dt = none ↔
      turnSpeed = Numeric.infinity ∧ usableTime dt = 0 := by
  -- a speed is limited from below only, so it is infinite afterwards if it was before
  have hspeed : Numeric.greater turnSpeed 0 = Numeric.infinity ↔
      turnSpeed = Numeric.infinity := by
    rw [Numeric.greater_zero]
    split
    · rfl
    · next hpos =>
      refine ⟨fun h => absurd h (by decide), ?_⟩
      rintro rfl
      exact absurd (by decide) hpos
  unfold turnToward
  rw [Option.map_eq_none_iff, clamp?_eq_none_iff,
    Numeric.neg_mul_le_mul_iff (Numeric.hasSign_greater_zero turnSpeed) (hasSign_usableTime dt)
      (isFinite_usableTime dt), Classical.not_not, hspeed]

end Motion

/-! ### One tick -/

namespace Enemy

variable {t : Tuning.Behavior} {dt : Float32} {b : Board} {root : EnemyNode}

theorem exists_turnTo (h : b.body.turnSpeed ≠ Numeric.infinity) (point : Vector2) (dt : Float32) :
    ∃ turn, b.turnTo point dt = some turn := by
  refine Option.ne_none_iff_exists'.mp ?_
  intro hnone
  exact h ((Motion.turnToward_eq_none_iff _ _ _ _).mp hnone).1

theorem neededTurn_ne_none (h : b.body.turnSpeed ≠ Numeric.infinity) :
    b.neededTurn t dt ≠ none := by
  unfold Board.neededTurn
  split
  · -- whoever sees has a target to aim at
    next seen =>
    obtain ⟨aim, haim⟩ := (b.sees_iff.mp seen).intercept t.steering
    obtain ⟨turn, hturn⟩ := exists_turnTo h aim dt
    rw [haim, Option.bind_some, hturn]
    exact Option.some_ne_none turn
  · -- to choose a waypoint does not change how fast the enemy turns
    have hbody : (b.patrolling t).body = b.body := Board.headed_body _ _
    obtain ⟨w, hw⟩ : ∃ w, (b.patrolling t).memory.waypoint = some w := Board.headed_waypoint _ _
    obtain ⟨turn, hturn⟩ := exists_turnTo (b := b.patrolling t) (by rwa [hbody]) w.point dt
    rw [hw, Option.bind_some, hturn]
    exact Option.some_ne_none turn

theorem completes (hroot : IsEnemyTree root) (h : b.body.turnSpeed ≠ Numeric.infinity)
    (dt : Float32) :
    (∃ s, ((root.tick dt).run b).result = .ok s) ∧
      ((root.tick dt).run b).board.body.turnSpeed = b.body.turnSpeed := by
  -- only a missing turn could keep the machine from taking a course
  have hgoes : ∀ t, ∃ c b', Goes t dt b c b' := by
    intro t
    refine (exists_goes t dt b).resolve_right ?_
    rintro ⟨-, hturn⟩
    exact neededTurn_ne_none h hturn
  cases hroot with
  | plain t =>
    obtain ⟨c, b', hc⟩ := hgoes t
    rw [hc.run_tree]
    exact ⟨⟨c.status, rfl⟩, by rw [hc.body_eq]⟩
  | labeled t =>
    obtain ⟨c, b', hc⟩ := hgoes t
    rw [hc.run_labeledTree]
    exact ⟨⟨c.status, rfl⟩, by rw [hc.body_eq]⟩

end Enemy

end Skirmish
