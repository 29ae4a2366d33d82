import Skirmish.Proofs.Encounter.Histories
import Skirmish.Proofs.Tree.Labels
import Skirmish.Tree.Puppet

/-!
# Tracing changes nothing

A wave that is traced runs a tree with labels, and its enemies have a sink. Neither makes a
difference to what happens. Two encounters that differ in nothing but where events go stay so, when
one of them runs a tree and the other the same tree without its labels.

* `Encounter.Alike` — two encounters with the same boards, the same script and the same clock;
* `Encounter.Alike.step` and `Encounter.Alike.runMore` — steps and runs keep them alike, and count
  the same;
* `Encounter.labels_change_nothing` — trees without their labels, for single agents and for
  encounters.

A fault ends both runs at the same place, so none of this asks whether there is one.
-/

namespace Skirmish

open Skirmish.Tree (Agent Fault Tally)

namespace Encounter

/-- **Alike** are encounters that differ only in where events go. -/
structure Alike (e' e : Encounter) : Prop where
  /-- The script and the tuning are the same. -/
  setup : e'.setup = e.setup
  /-- The clock is the same. -/
  elapsed : e'.elapsed = e.elapsed
  /-- The enemies are the same, sinks apart. -/
  boards : Tree.boards e'.enemies = Tree.boards e.enemies

variable {root : Enemy.EnemyNode} {dt : Float32} {e e' : Encounter}

/-! ### One step -/

theorem board_struck (dt : Float32) (e : Encounter) (a : Agent Enemy.Board) :
    (e.struck dt a).board =
      if isInRange e.setup.scenario (e.nextTarget dt) a.board then
        wounded e.setup.scenario dt a.board
      else a.board := by
  unfold struck fireAt
  split <;> rfl

namespace Alike

theorem length_eq (h : Alike e' e) : e'.enemies.length = e.enemies.length := by
  simpa [Tree.boards] using congrArg List.length h.boards

theorem isEmpty_eq (h : Alike e' e) : e'.enemies.isEmpty = e.enemies.isEmpty := by
  simpa [Tree.boards] using congrArg List.isEmpty h.boards

theorem nextTarget_eq (h : Alike e' e) : e'.nextTarget dt = e.nextTarget dt := by
  rw [nextTarget, nextTarget, h.setup, h.elapsed]

theorem surroundings_eq (h : Alike e' e) : e'.surroundings dt = e.surroundings dt := by
  rw [surroundings, surroundings, h.nextTarget_eq, h.setup]

/-- The weapon leaves the same boards. -/
theorem boards_struck (h : Alike e' e) (dt : Float32) :
    Tree.boards (e'.enemies.map (e'.struck dt)) = Tree.boards (e.enemies.map (e.struck dt)) := by
  -- what it does to a board is the same function in both encounters
  have hstrike : ∀ f : Encounter, Tree.boards (f.enemies.map (f.struck dt)) =
      (Tree.boards f.enemies).map fun b =>
        if isInRange f.setup.scenario (f.nextTarget dt) b then wounded f.setup.scenario dt b
        else b := by
    intro f
    rw [Tree.boards, Tree.boards, List.map_map, List.map_map]
    exact List.map_congr_left fun a _ => board_struck dt f a
  rw [hstrike, hstrike, h.boards, h.setup, h.nextTarget_eq]

theorem step (h : Alike e' e) (root : Enemy.EnemyNode) (dt : Float32) :
    (e'.step root.unlabeled dt).tally = (e.step root dt).tally ∧
      Alike (e'.step root.unlabeled dt).encounter (e.step root dt).encounter := by
  -- enemies leave their trace to their agents' sinks
  have hspares : Tree.Host.Spares (id : Enemy.Board → Enemy.Board) := fun _ _ _ => rfl
  obtain ⟨htally, hboards⟩ := Tree.update_unlabeled hspares dt root (e.surroundings dt)
    (h.boards_struck dt)
  rw [step_eq_updated, step_eq_updated, updated, updated, h.surroundings_eq]
  refine ⟨htally, h.setup, ?_, hboards⟩
  change e'.elapsed + dt = e.elapsed + dt
  rw [h.elapsed]

end Alike

/-! ### Any number of steps -/

def after (root : Enemy.EnemyNode) (dts : List Float32) (e : Encounter) : Encounter :=
  dts.foldl (fun e dt => (e.step root dt).encounter) e

theorem Alike.after (h : Alike e' e) (root : Enemy.EnemyNode) (dts : List Float32) :
    Alike (e'.after root.unlabeled dts) (e.after root dts) := by
  -- on the durations, for any two encounters that are alike
  induction dts generalizing e' e with
  | nil => exact h
  | cons dt rest ih => exact ih (h.step root dt).2

theorem seekers_eq (enemies : List (Agent Enemy.Board)) :
    Summary.seekers enemies =
      ((Tree.boards enemies).filter fun b => Enemy.Regime.of b = .seek).map (·.body.id) := by
  rw [Summary.seekers, ← Tree.boards_filter, Tree.boards, List.map_map]
  rfl

theorem Alike.runMore {p p' : Progress} (h : Alike p'.encounter p.encounter)
    (hsummary : p'.summary = p.summary) (root : Enemy.EnemyNode) (dt : Float32) (n : Nat) :
    (runMore root.unlabeled dt n p').2 = (runMore root dt n p).2 ∧
      (runMore root.unlabeled dt n p').1.summary = (runMore root dt n p).1.summary ∧
      Alike (runMore root.unlabeled dt n p').1.encounter (runMore root dt n p).1.encounter := by
  -- on the steps left; a fault comes to both in the same step, for the tallies are the same
  induction n generalizing p p' with
  | zero => exact ⟨rfl, hsummary, h⟩
  | succ n ih =>
    obtain ⟨htally, hstep⟩ := h.step root dt
    cases hok : (p.encounter.step root dt).tally with
    | error fault =>
      -- both runs end here, with the summary that they had before
      rw [hok] at htally
      rw [Encounter.runMore, Encounter.runMore]
      simp only [hok, htally]
      exact ⟨trivial, hsummary, hstep⟩
    | ok tally =>
      rw [hok] at htally
      rw [runMore_succ hok, runMore_succ htally]
      have hnext : (p'.next root.unlabeled dt tally).summary = (p.next root dt tally).summary := by
        change p'.summary.afterStep _ _ _ = p.summary.afterStep _ _ _
        rw [Summary.afterStep, Summary.afterStep, seekers_eq, seekers_eq, hstep.boards, hsummary]
      have hempty : (p'.next root.unlabeled dt tally).encounter.enemies.isEmpty =
          (p.next root dt tally).encounter.enemies.isEmpty := hstep.isEmpty_eq
      rw [hempty]
      -- nobody is left in either of them, or both go on
      split
      · exact ⟨rfl, hnext, hstep⟩
      · exact ih hstep hnext

/-- **Runs of encounters that are alike** have the same summary, or end with the same fault. -/
theorem Alike.run (h : Alike e' e) (root : Enemy.EnemyNode) (steps : UInt64) (dt : Float32) :
    (e'.run root.unlabeled steps dt).summary = (e.run root steps dt).summary ∧
      Alike (e'.run root.unlabeled steps dt).encounter (e.run root steps dt).encounter := by
  have hbeginning : Alike e'.beginning.encounter e.beginning.encounter := h
  have hstart : e'.beginning.summary = e.beginning.summary := by
    rw [beginning, beginning, h.length_eq]
  obtain ⟨hfault, hsummary, hencounter⟩ := hbeginning.runMore hstart root dt steps.toNat
  unfold beginning at hfault hsummary hencounter
  rw [Encounter.run, Encounter.run]
  -- the two outcomes are pairs that `run` takes apart, so they are named before the cases
  revert hfault hsummary hencounter
  rcases Encounter.runMore root.unlabeled dt steps.toNat _ with ⟨p', fault'⟩
  rcases Encounter.runMore root dt steps.toNat _ with ⟨p, fault⟩
  intro hfault hsummary hencounter
  obtain rfl : fault' = fault := hfault
  cases fault' with
  | some fault => exact ⟨rfl, hencounter⟩
  | none =>
    -- the survivors are counted at the end
    refine ⟨?_, hencounter⟩
    have hleft : p'.encounter.enemies.length = p.encounter.enemies.length := hencounter.length_eq
    have hcounted : p'.summary = p.summary := hsummary
    simp only [hleft, hcounted]

/-! ### Waves with and without a trace -/

/-- **A wave is alike,** traced or not. -/
theorem alike_spawn (setup : Setup) (count seed : UInt64) :
    Alike (spawn setup count seed false) (spawn setup count seed true) where
  setup := rfl
  elapsed := rfl
  boards := by
    rw [spawn, spawn, Tree.boards, Tree.boards, List.map_map, List.map_map]
    rfl

/-- **Labels change nothing.** Take any tree and any part of the board that reports spare and that
leaves see no more than, which is all but the trace, or everything if boards hold no trace. For any
sinks and any durations, on boards that agree in this part, the ticks of the tree without its labels
end as those of the tree do, and leave boards that agree in it; and neither exchanges the sink. So a
traced encounter with labels and an untraced one without them have the same tallies, the same boards
after every step, and the same summaries. -/
theorem labels_change_nothing :
    (∀ {β ν δ : Type} [Tree.Host β] (f : β → δ) (root : Tree.Node β ν), Tree.Host.Spares f →
        (∀ (leaf : Tree.Node β ν) dt, leaf.IsLeafOf root → (leaf.tick dt).SeesOnly f) →
        ∀ (dts : List Float32) (b b' : β) (sink sink' : Option Trace.Sink), f b' = f b →
      (Agent.ticks root.unlabeled dts ⟨b', sink'⟩).1 = (Agent.ticks root dts ⟨b, sink⟩).1 ∧
      f (Agent.ticks root.unlabeled dts ⟨b', sink'⟩).2.board =
        f (Agent.ticks root dts ⟨b, sink⟩).2.board ∧
      (Agent.ticks root.unlabeled dts ⟨b', sink'⟩).2.sink.map Trace.Sink.emptied =
        sink'.map Trace.Sink.emptied ∧
      (Agent.ticks root dts ⟨b, sink⟩).2.sink.map Trace.Sink.emptied =
        sink.map Trace.Sink.emptied) ∧
    ∀ (t : Tuning.Behavior) (setup : Setup) (count seed : UInt64),
      let traced := spawn setup count seed true
      let untraced := spawn setup count seed false
      (∀ dts dt,
        ((untraced.after (Enemy.tree t) dts).step (Enemy.tree t) dt).tally =
          ((traced.after (Enemy.labeledTree t) dts).step (Enemy.labeledTree t) dt).tally ∧
        (untraced.after (Enemy.tree t) dts).enemies.map (·.board) =
          (traced.after (Enemy.labeledTree t) dts).enemies.map (·.board)) ∧
      ∀ steps dt,
        (untraced.run (Enemy.tree t) steps dt).summary =
          (traced.run (Enemy.labeledTree t) steps dt).summary ∧
        (untraced.run (Enemy.tree t) steps dt).encounter.enemies.map (·.board) =
          (traced.run (Enemy.labeledTree t) steps dt).encounter.enemies.map (·.board) := by
  refine ⟨?_, ?_⟩
  · intro β ν δ _ f root hspares hleaf dts b b' sink sink' same
    have hseen : f (⟨b', sink'⟩ : Agent β).board = f (⟨b, sink⟩ : Agent β).board := same
    obtain ⟨hresults, hboard⟩ := Agent.ticks_unlabeled hspares hleaf dts hseen
    exact ⟨hresults, hboard, Agent.emptied_sink_ticks _ dts _, Agent.emptied_sink_ticks _ dts _⟩
  · intro t setup count seed
    -- the enemy's tree is the labelled one without its labels
    have htree : Enemy.tree t = (Enemy.labeledTree t).unlabeled := rfl
    have halike := alike_spawn setup count seed
    rw [htree]
    refine ⟨?_, ?_⟩
    · intro dts dt
      have hafter := halike.after (Enemy.labeledTree t) dts
      exact ⟨(hafter.step _ dt).1, hafter.boards⟩
    · intro steps dt
      obtain ⟨hsummary, hencounter⟩ := halike.run (Enemy.labeledTree t) steps dt
      exact ⟨hsummary, hencounter.boards⟩

/-- A sentry that looks and then calls, and whose trace is on its board. -/
def sentry : Tree.Node (Agent Tree.Puppet) Unit :=
  .labeled "sentry" (.sequence
    [.labeled "look" (.action fun _ => (Tree.Puppet.perform "look" [.success] [] 0).onAgents),
      .action fun _ => (Tree.Puppet.perform "call" [.running] [] 0).onAgents])

/-- Two sentries, one with labels and a log and one with neither, do the same. -/
theorem labels_change_nothing_sentry :
    let puppet : Tree.Puppet := ⟨7, 1, [], 3, 0, 0, [], [], []⟩
    let traced := Agent.ticks sentry [0.5] ⟨⟨puppet, some (.own .empty)⟩, none⟩
    let untraced := Agent.ticks sentry.unlabeled [0.5] ⟨⟨puppet, none⟩, none⟩
    Tree.Host.Spares (Agent.board : Agent Tree.Puppet → Tree.Puppet) ∧
    (∀ (leaf : Tree.Node (Agent Tree.Puppet) Unit) dt, leaf.IsLeafOf sentry →
      (leaf.tick dt).SeesOnly Agent.board) ∧
    untraced.1 = traced.1 ∧ untraced.2.board.board = traced.2.board.board ∧
    traced.2.board.sink =
      some (.own ⟨#[⟨7, 3, "look", "success"⟩, ⟨7, 3, "sentry", "running"⟩]⟩) := by
  intro puppet traced untraced
  have hspares : Tree.Host.Spares (Agent.board : Agent Tree.Puppet → Tree.Puppet) :=
    fun _ _ _ => rfl
  have hleaf : ∀ (leaf : Tree.Node (Agent Tree.Puppet) Unit) dt, leaf.IsLeafOf sentry →
      (leaf.tick dt).SeesOnly Agent.board := by
    intro leaf dt h
    simp only [sentry, Tree.Node.isLeafOf_labeled, Tree.Node.isLeafOf_sequence, List.mem_cons,
      List.not_mem_nil, or_false, exists_eq_or_imp, exists_eq_left, Tree.Node.isLeafOf_action] at h
    obtain rfl | rfl := h
    · -- a puppet’s act on an agent passes the sink by
      exact Tree.Act.seesOnly_onAgents _
    · exact Tree.Act.seesOnly_onAgents _
  obtain ⟨hresults, hboards, -⟩ := labels_change_nothing.1 Agent.board sentry hspares hleaf [0.5]
    ⟨puppet, some (.own .empty)⟩ ⟨puppet, none⟩ none none rfl
  exact ⟨hspares, hleaf, hresults, hboards, rfl⟩

end Encounter

end Skirmish
