import Skirmish.Proofs.Encounter.Histories
import Skirmish.Proofs.Enemy.Refinement
import Skirmish.Proofs.Tuning.Requirements

/-!
# Enemies of a valid kind never fault

A valid tuning gives its enemies a finite turning speed. Nothing that happens to an enemy changes
that speed, and with a finite speed every turn has an outcome. So nothing goes wrong.

* `Enemy.TurnAt.update` — updates complete, and keep the turning speed of all enemies;
* `Encounter.Engaged` — the encounters that a tuning leads to, by steps and updates of any kind;
* `Encounter.completes_of_valid` — all that can be done with them completes.

The target may be anywhere or nowhere, and the frame may have any duration, finite or not.
-/

namespace Skirmish

open Skirmish.Tree (Agent Fault Tally)

/-! ### Updates -/

namespace Enemy

variable {root : EnemyNode}

/-- **Enemies of one turning speed.** -/
def TurnAt (speed : Float32) (agents : List (Agent Board)) : Prop :=
  ∀ a ∈ agents, a.board.body.turnSpeed = speed

variable {speed : Float32} {agents : List (Agent Board)}

theorem TurnAt.update (hroot : IsEnemyTree root) (hspeed : speed ≠ Numeric.infinity)
    (h : TurnAt speed agents) (surroundings : Surroundings) (dt : Float32) :
    (∃ tally, (Tree.update dt root surroundings agents).tally = .ok tally) ∧
      TurnAt speed (Tree.update dt root surroundings agents).agents := by
  -- every enemy that lives is driven by itself
  have hdrive : ∀ a ∈ Tree.living agents,
      (∃ s, (Agent.drive dt root surroundings a).result = .ok s) ∧
        (Agent.drive dt root surroundings a).agent.board.body.turnSpeed = speed := by
    intro a ha
    have hturn : a.board.body.turnSpeed = speed := h a (List.mem_filter.mp ha).1
    -- to refresh a board leaves the body alone
    have hfinite : (a.board.refresh surroundings dt).body.turnSpeed ≠ Numeric.infinity := by
      change a.board.body.turnSpeed ≠ Numeric.infinity
      rwa [hturn]
    obtain ⟨hs, hkept⟩ := completes hroot hfinite dt
    exact ⟨hs, hkept.trans hturn⟩
  rw [Tree.update_eq fun a ha => (hdrive a ha).1]
  refine ⟨⟨_, rfl⟩, ?_⟩
  intro a ha
  obtain ⟨a', ha', rfl⟩ := List.mem_map.mp ha
  exact (hdrive a' ha').2

end Enemy

/-! ### Encounters -/

namespace Encounter

/-- **The encounters that a tuning leads to:** new waves, and whatever becomes of them by steps of
any duration, by updates with any surroundings, and by enemies that join. -/
inductive Engaged (tuning : Tuning) : Encounter → Prop
  /-- A new wave, in any scenario. -/
  | spawn (scenario : Scenario) (count seed : UInt64) (traced : Bool) :
    Engaged tuning (spawn ⟨tuning, scenario⟩ count seed traced)
  /-- One more step. -/
  | step {e : Encounter} (h : Engaged tuning e) {root : Enemy.EnemyNode}
      (hroot : Enemy.IsEnemyTree root) (dt : Float32) : Engaged tuning (e.step root dt).encounter
  /-- One more update, without the script. -/
  | update {e : Encounter} (h : Engaged tuning e) {root : Enemy.EnemyNode}
      (hroot : Enemy.IsEnemyTree root) (surroundings : Enemy.Surroundings) (dt : Float32) :
    Engaged tuning { e with enemies := (Tree.update dt root surroundings e.enemies).agents }
  /-- One more enemy of the same kind. -/
  | join {e : Encounter} (h : Engaged tuning e) (id : UInt64) (position : Vector2)
      (target : Option Enemy.Target) (seed : UInt64) (sink : Option Trace.Sink) :
    Engaged tuning { e with enemies := e.enemies ++
      [⟨.new (tuning.archetype.spawn id position) target seed, sink⟩] }

variable {tuning : Tuning} {e : Encounter} {root : Enemy.EnemyNode} {speed : Float32}

theorem turnAt_step (hroot : Enemy.IsEnemyTree root) (hspeed : speed ≠ Numeric.infinity)
    (h : Enemy.TurnAt speed e.enemies) (dt : Float32) :
    (∃ tally, (e.step root dt).tally = .ok tally) ∧
      Enemy.TurnAt speed (e.step root dt).encounter.enemies := by
  have hstruck : Enemy.TurnAt speed (e.enemies.map (e.struck dt)) := by
    intro a ha
    obtain ⟨a', ha', rfl⟩ := List.mem_map.mp ha
    -- the weapon takes health only
    rw [struck_eq]
    exact h a' ha'
  rw [step_eq_updated]
  exact hstruck.update hroot hspeed (e.surroundings dt) dt

/-- **The turning speed is never lost.** -/
theorem Engaged.turnAt (valid : tuning.check = .ok ()) (h : Engaged tuning e) :
    Enemy.TurnAt tuning.archetype.turnSpeed e.enemies := by
  have hspeed := Tuning.turnSpeed_ne_infinity valid
  -- the invariant is `TurnAt`; only a new wave and a new enemy set the speed, from the archetype
  induction h with
  | spawn =>
    intro a ha
    obtain ⟨id, -, rfl⟩ := List.mem_map.mp ha
    rfl
  | step _ hroot dt ih => exact (turnAt_step hroot hspeed ih dt).2
  | update _ hroot surroundings dt ih => exact (ih.update hroot hspeed surroundings dt).2
  | join _ id position target seed sink ih =>
    intro a ha
    obtain ha | ha := List.mem_append.mp ha
    · exact ih a ha
    · rw [List.mem_singleton.mp ha]
      rfl

theorem runMore_completes (hroot : Enemy.IsEnemyTree root) (hspeed : speed ≠ Numeric.infinity)
    (dt : Float32) (n : Nat) {p : Progress} (h : Enemy.TurnAt speed p.encounter.enemies) :
    (runMore root dt n p).2 = none := by
  -- on the steps left, for any wave of the one speed
  induction n generalizing p with
  | zero => rfl
  | succ n ih =>
    obtain ⟨⟨tally, htally⟩, hnext⟩ := turnAt_step hroot hspeed h dt
    rw [runMore_succ htally]
    split
    · rfl
    · exact ih hnext

theorem run_completes (hroot : Enemy.IsEnemyTree root) (hspeed : speed ≠ Numeric.infinity)
    (h : Enemy.TurnAt speed e.enemies) (steps : UInt64) (dt : Float32) :
    ∃ summary, (e.run root steps dt).summary = .ok summary := by
  have hnone : (runMore root dt steps.toNat e.beginning).2 = none :=
    runMore_completes hroot hspeed dt steps.toNat h
  obtain ⟨p, fault⟩ : ∃ p, runMore root dt steps.toNat e.beginning = (p, none) :=
    ⟨_, Prod.ext rfl hnone⟩
  rw [run_of_runMore fault]
  exact ⟨_, rfl⟩

/-- **Nothing goes wrong with a valid tuning.** A turn has no outcome exactly if its speed is
infinite and its time zero. Files give valid tunings only. In an encounter that a valid tuning leads
to, all completes with either tree: every step, every update with any surroundings, every run, and
every tick of a single enemy. -/
theorem completes_of_valid :
    (∀ angle bearing turnSpeed dt,
      Motion.turnToward angle bearing turnSpeed dt = none ↔
        turnSpeed = Numeric.infinity ∧ Motion.usableTime dt = 0) ∧
    (∀ file tuning, Tuning.ofFile file = .ok tuning → tuning.check = .ok ()) ∧
    (∀ file setup, Setup.ofFile file = .ok setup → setup.tuning.check = .ok ()) ∧
    ∀ (tuning : Tuning) (e : Encounter) (root : Enemy.EnemyNode), tuning.check = .ok () →
      Engaged tuning e → Enemy.IsEnemyTree root → ∀ dt,
        (∃ tally, (e.step root dt).tally = .ok tally) ∧
        (∀ surroundings, ∃ tally,
          (Tree.update dt root surroundings e.enemies).tally = .ok tally) ∧
        (∀ steps, ∃ summary, (e.run root steps dt).summary = .ok summary) ∧
        ∀ a ∈ e.enemies, ∃ status, (Agent.tick dt root a).result = .ok status := by
  refine ⟨Motion.turnToward_eq_none_iff, fun _ _ => Tuning.check_of_ofFile,
    fun _ _ => Setup.check_of_ofFile, ?_⟩
  intro tuning e root valid hengaged hroot dt
  have hspeed := Tuning.turnSpeed_ne_infinity valid
  have hturn := hengaged.turnAt valid
  refine ⟨(turnAt_step hroot hspeed hturn dt).1, ?_, ?_, ?_⟩
  · intro surroundings
    exact (hturn.update hroot hspeed surroundings dt).1
  · intro steps
    exact run_completes hroot hspeed hturn steps dt
  · -- a single tick needs no refresh
    intro a ha
    exact (Enemy.completes hroot (by rwa [hturn a ha]) dt).1

/-- Enemies with a turning speed from a file, first in a step that takes for ever and then in one
whose duration is not a number, with a target or without. At infinite speed a turn of no time would
fail. -/
theorem completes_quickTurners :
    Motion.turnToward 0 1 Numeric.infinity (-1) = none ∧
    ∃ setup, Setup.ofFile (.ok "archetype:\n  turn_speed: 4.5\n") = .ok setup ∧
      setup.tuning.check = .ok () ∧
      let plain := Enemy.tree setup.tuning.behavior
      let labeled := Enemy.labeledTree setup.tuning.behavior
      let e := ((spawn ⟨setup.tuning, .usual⟩ 3 7 true).step plain Numeric.infinity).encounter
      (∃ tally, (e.step labeled Numeric.notANumber).tally = .ok tally) ∧
      ∃ tally, (Tree.update Numeric.notANumber labeled ⟨none, []⟩ e.enemies).tally = .ok tally := by
  obtain ⟨hturn, -, hfile, hcompletes⟩ := completes_of_valid
  refine ⟨(hturn _ _ _ _).mpr ⟨rfl, by decide⟩, ?_⟩
  have hreads : (Setup.ofFile (.ok "archetype:\n  turn_speed: 4.5\n")).isOk = true := by
    decide +kernel
  -- the theorem speaks of whatever the file gives, so its contents are never looked at
  cases hsetup : Setup.ofFile (.ok "archetype:\n  turn_speed: 4.5\n") with
  | error flaw =>
    rw [hsetup] at hreads
    cases hreads
  | ok setup =>
    have valid := hfile _ _ hsetup
    obtain ⟨hstep, hupdate, -⟩ :=
      hcompletes setup.tuning _ (Enemy.labeledTree setup.tuning.behavior) valid
        (.step (.spawn .usual 3 7 true) (.plain setup.tuning.behavior) Numeric.infinity)
        (.labeled _) Numeric.notANumber
    exact ⟨setup, rfl, valid, hstep, hupdate _⟩

end Encounter

end Skirmish
