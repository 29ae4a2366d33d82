import Skirmish.Encounter
import Skirmish.Proofs.Enemy.Refinement
import Skirmish.Proofs.Tree.Ticking

/-!
# Steps, histories and runs

A step does to every enemy what it would do to that enemy alone, and a course is nothing but steps:

* `Encounter.step_eq` — one step;
* `Encounter.run_rule` — what a step preserves holds of whole runs.
-/

/-! ## One step of an encounter

A step does to every enemy what it would do to that enemy alone: the weapon strikes it or not, and
if it lives it is driven. This module takes a step that completes apart in this way:

* `Encounter.struck` — an enemy after the weapon has fired;
* `Encounter.spared` and `Encounter.slain` — the enemies that are driven, and those that are
  removed;
* `Encounter.driven` — an enemy after it was refreshed and ticked;
* `Encounter.step_eq` — the step, put together from these.

What either of the enemy's trees leaves alone follows from the courses that its ticks take
(`Enemy.IsEnemyTree.goes`).
-/

namespace Skirmish

theorem Trace.Sink.mem_of_mem_overflow {sink : Option Trace.Sink} {events : List Trace.Event}
    {ev : Trace.Event} (h : ev ∈ Trace.Sink.overflow sink events) : ev ∈ events := by
  unfold Trace.Sink.overflow at h
  -- only a shared sink lets events through
  split at h
  · exact h
  · exact absurd h List.not_mem_nil

open Skirmish.Tree (Agent Fault Record Remark Tally)

/-- The stable number of an enemy. -/
def enemyId (a : Agent Enemy.Board) : UInt64 :=
  a.board.body.id

namespace Encounter

theorem ok_of_toOption {ε α : Type} {result : Except ε α} {a : α} (h : result.toOption = some a) :
    result = .ok a := by
  cases result with
  | error fault => cases h
  | ok a' => exact congrArg Except.ok (Option.some.inj h)

/-! ### The parts of a step -/

/-- Where the target is when a step ends. -/
def nextTarget (dt : Float32) (e : Encounter) : Enemy.Target :=
  e.setup.scenario.targetAt (e.elapsed + dt)

/-- What the enemies see in a step. -/
def surroundings (dt : Float32) (e : Encounter) : Enemy.Surroundings :=
  ⟨some (e.nextTarget dt), e.setup.scenario.landmarks⟩

/-- An enemy after the weapon has fired. -/
def struck (dt : Float32) (e : Encounter) (a : Agent Enemy.Board) : Agent Enemy.Board :=
  (fireAt e.setup.scenario (e.nextTarget dt) (e.elapsed + dt) dt a).1

/-- What the weapon's firing at an enemy makes known. -/
def strikeNews (dt : Float32) (e : Encounter) (a : Agent Enemy.Board) : List Happening :=
  (fireAt e.setup.scenario (e.nextTarget dt) (e.elapsed + dt) dt a).2

/-- The enemies that a step drives, as the weapon left them. -/
def spared (dt : Float32) (e : Encounter) : List (Agent Enemy.Board) :=
  Tree.living (e.enemies.map (e.struck dt))

/-- The enemies that a step removes, as the weapon left them. -/
def slain (dt : Float32) (e : Encounter) : List (Agent Enemy.Board) :=
  Tree.fallen (e.enemies.map (e.struck dt))

/-- An enemy driven in a step. -/
def driven (root : Enemy.EnemyNode) (dt : Float32) (e : Encounter) (a : Agent Enemy.Board) :
    Agent.Ticked Enemy.Board Enemy.Note :=
  Agent.drive dt root (e.surroundings dt) a

/-- What a step adds to the log that the enemies share. -/
def events (root : Enemy.EnemyNode) (dt : Float32) (e : Encounter) : List Trace.Event :=
  (e.spared dt).flatMap fun a => (e.driven root dt a).events

/-- The update of a step, seen apart from the rest. -/
def updated (root : Enemy.EnemyNode) (dt : Float32) (e : Encounter) :
    Tree.Updated Enemy.Board Enemy.Note :=
  Tree.update dt root (e.surroundings dt) (e.enemies.map (e.struck dt))

variable {root : Enemy.EnemyNode} {dt : Float32} {e : Encounter} {tally : Tally}
  {a : Agent Enemy.Board}

/-- **A step is the weapon's firing and an update.** -/
theorem step_eq_updated (root : Enemy.EnemyNode) (dt : Float32) (e : Encounter) :
    e.step root dt =
      { encounter :=
          { e with
            enemies := (e.updated root dt).agents
            elapsed := e.elapsed + dt
            trace := e.trace.map (·.append (e.updated root dt).events) }
        journal := e.enemies.flatMap (e.strikeNews dt) ++
          (e.updated root dt).journal.map .remark
        tally := (e.updated root dt).tally } := by
  -- the model fires once and reads off both the wave and the news
  have hstruck : (e.enemies.map (fireAt e.setup.scenario (e.nextTarget dt) (e.elapsed + dt) dt)).map
      (·.1) = e.enemies.map (e.struck dt) := by
    rw [List.map_map]
    rfl
  have hnews : (e.enemies.map (fireAt e.setup.scenario (e.nextTarget dt) (e.elapsed + dt)
      dt)).flatMap (·.2) = e.enemies.flatMap (e.strikeNews dt) := by
    rw [List.flatMap_map]
    rfl
  rw [updated, ← hstruck, ← hnews]
  rfl

/-- **A step that completes** has driven every enemy that it spared without a fault. -/
theorem driven_ok (h : (e.step root dt).tally = .ok tally) :
    ∀ a ∈ e.spared dt, ∃ s, (e.driven root dt a).result = .ok s := by
  rw [step_eq_updated] at h
  exact Tree.drive_ok_of_update_ok h

theorem step_eq (h : ∀ a ∈ e.spared dt, ∃ s, (e.driven root dt a).result = .ok s) :
    e.step root dt =
      { encounter :=
          { e with
            enemies := (e.spared dt).map fun a => (e.driven root dt a).agent
            elapsed := e.elapsed + dt
            trace := e.trace.map (·.append (e.events root dt)) }
        journal := e.enemies.flatMap (e.strikeNews dt) ++
          ((e.slain dt).map (fun a => Remark.reaped (enemyId a)) ++
            (e.spared dt).flatMap fun a => (e.driven root dt a).remarks).map .remark
        tally := .ok
          { Tally.ofStatuses ((e.spared dt).map fun a => (e.driven root dt a).status) with
            reaped := (e.slain dt).length } } := by
  -- what is left of the step is the weapon, which is the same on both sides
  have hupdate : e.updated root dt = _ := Tree.update_eq h
  rw [step_eq_updated, hupdate]
  rfl

section Completed

variable (h : (e.step root dt).tally = .ok tally)
include h

theorem enemies_step :
    (e.step root dt).encounter.enemies = (e.spared dt).map fun a => (e.driven root dt a).agent := by
  rw [step_eq (driven_ok h)]

theorem trace_step :
    (e.step root dt).encounter.trace = e.trace.map (·.append (e.events root dt)) := by
  rw [step_eq (driven_ok h)]

theorem journal_step :
    (e.step root dt).journal = e.enemies.flatMap (e.strikeNews dt) ++
      ((e.slain dt).map (fun a => Remark.reaped (enemyId a)) ++
        (e.spared dt).flatMap fun a => (e.driven root dt a).remarks).map .remark := by
  rw [step_eq (driven_ok h)]

theorem tally_step :
    tally =
      { Tally.ofStatuses ((e.spared dt).map fun a => (e.driven root dt a).status) with
        reaped := (e.slain dt).length } := by
  rw [step_eq (driven_ok h)] at h
  exact (Except.ok.inj h).symm

end Completed

/-! ### What the weapon leaves alone -/

theorem struck_eq (dt : Float32) (e : Encounter) (a : Agent Enemy.Board) :
    e.struck dt a =
      { a with board := { a.board with body := { a.board.body with
        health := (e.struck dt a).board.body.health } } } := by
  unfold struck fireAt
  -- the weapon hits or misses, and a hit costs health and nothing else
  split <;> rfl

@[simp] theorem enemyId_struck (dt : Float32) (e : Encounter) (a : Agent Enemy.Board) :
    enemyId (e.struck dt a) = enemyId a := by
  rw [struck_eq]
  rfl

/-- **The weapon tells of exactly those that it kills.** -/
theorem strikeNews_eq (halive : a.board.body.isAlive = true) :
    e.strikeNews dt a =
      if (e.struck dt a).board.body.isAlive then []
      else [.destroyed (enemyId a) (e.elapsed + dt)] := by
  unfold strikeNews struck fireAt
  -- within reach it tells of a kill, and out of reach an enemy that lived still lives
  split
  · rfl
  · rfl

theorem eq_destroyed_of_mem_strikeNews {h : Happening} (hh : h ∈ e.strikeNews dt a) :
    h = .destroyed (enemyId a) (e.elapsed + dt) := by
  simp only [strikeNews, fireAt] at hh
  split at hh
  · split at hh
    · exact absurd hh List.not_mem_nil
    · exact List.mem_singleton.mp hh
  · exact absurd hh List.not_mem_nil

/-- **A step tells of destruction and of its update,** and of nothing else. -/
theorem destroyed_or_remark_of_mem_step {h : Happening} (hh : h ∈ (e.step root dt).journal) :
    (∃ enemy, h = .destroyed enemy (e.elapsed + dt)) ∨ ∃ r, h = .remark r := by
  rw [step_eq_updated, List.mem_append] at hh
  -- the news of the weapon comes first, and the remarks of the update after it
  obtain hh | hh := hh
  · obtain ⟨a, -, hh⟩ := List.mem_flatMap.mp hh
    exact .inl ⟨_, eq_destroyed_of_mem_strikeNews hh⟩
  · obtain ⟨r, -, rfl⟩ := List.mem_map.mp hh
    exact .inr ⟨r, rfl⟩

/-! ### What the trees leave alone -/

section Driven

variable (hroot : Enemy.IsEnemyTree root) {s : Tree.Status}
  (hs : (e.driven root dt a).result = .ok s)
include hroot hs

theorem driven_goes :
    ∃ t c, Enemy.Goes t dt (a.board.refresh (e.surroundings dt) dt) c
        (e.driven root dt a).agent.board ∧
      c.status = s ∧ ∀ r ∈ (e.driven root dt a).trail, Enemy.recordEnemy r = enemyId a :=
  hroot.goes rfl hs

theorem enemyId_driven : enemyId (e.driven root dt a).agent = enemyId a := by
  obtain ⟨t, c, hgoes, -, -⟩ := driven_goes hroot hs
  exact hgoes.id_eq

theorem health_driven :
    (e.driven root dt a).agent.board.body.health = a.board.body.health := by
  obtain ⟨t, c, hgoes, -, -⟩ := driven_goes hroot hs
  exact hgoes.health_eq

/-- **The root never fails.** -/
theorem status_driven_ne_failure : (e.driven root dt a).status ≠ .failure := by
  obtain ⟨t, c, -, hc, -⟩ := driven_goes hroot hs
  rw [Agent.Ticked.status_of_ok hs, ← hc]
  -- no course has this status
  cases c <;> decide

/-- **The events of a tick are the enemy's own.** -/
theorem agent_of_mem_events {ev : Trace.Event} (hev : ev ∈ (e.driven root dt a).events) :
    ev.agent = enemyId a := by
  obtain ⟨t, c, -, -, htrail⟩ := driven_goes hroot hs
  -- an event is made from a record of the trail
  obtain ⟨r, hr, hev⟩ := List.mem_filterMap.mp (Trace.Sink.mem_of_mem_overflow hev)
  rw [Enemy.agent_of_event? hev]
  exact htrail r hr

end Driven

end Encounter

end Skirmish

/-! ## Histories and runs

What holds along every course of an encounter is shown in two steps: each completed step preserves
it, and a course is nothing but steps.

* `Encounter.History` — the encounters that a start leads to by completed steps of any durations,
  with all that the steps left behind;
* `Encounter.Progress.next` — a completed step as a run sees it, which also counts and reports;
* `Encounter.runMore_rule` — whatever is preserved by `next` holds when a run ends;
* `Encounter.run_rule` — the same for a whole run with its summary;
* `Encounter.History.run` — a run is a piece of history.

A run ends early when no enemy is left. The rule says how many steps were made, and the invariant
may depend on that number.
-/

namespace Skirmish

namespace Encounter

open Skirmish.Tree (Fault Tally)

/-- **Histories.** From a start, steps that complete, of any durations. -/
inductive History (root : Enemy.EnemyNode) (start : Encounter) : List Stepped → Encounter → Prop
  /-- Nothing has happened yet. -/
  | start : History root start [] start
  /-- One more step completes. -/
  | step {past : List Stepped} {e : Encounter} (h : History root start past e) (dt : Float32)
      {tally : Tally} (ok : (e.step root dt).tally = .ok tally) :
      History root start (past ++ [e.step root dt]) (e.step root dt).encounter

variable {root : Enemy.EnemyNode} {dt : Float32} {e : Encounter} {tally : Tally}

/-! ### Steps of a run -/

namespace Progress

/-- **One completed step of a run,** with its count and its report. -/
def next (root : Enemy.EnemyNode) (dt : Float32) (tally : Tally) (p : Progress) : Progress :=
  let stepped := p.encounter.step root dt
  let summary :=
    p.summary.afterStep (p.summary.steps + 1) tally.reaped stepped.encounter.enemies
  { encounter := stepped.encounter
    summary := summary
    journal :=
      (periodicReport stepped.encounter summary.steps summary.reaped).foldl Array.push
        (stepped.journal.foldl Array.push p.journal) }

/-- The end of a run in which no enemy is left. -/
def concluded (p : Progress) : Progress :=
  { p with journal := p.journal.push (.allDestroyed p.summary.steps) }

theorem toList_journal_next (root : Enemy.EnemyNode) (dt : Float32) (tally : Tally)
    (p : Progress) :
    (p.next root dt tally).journal.toList =
      p.journal.toList ++ (p.encounter.step root dt).journal ++
        periodicReport (p.next root dt tally).encounter (p.next root dt tally).summary.steps
          (p.next root dt tally).summary.reaped := by
  simp [next]

end Progress

variable {n : Nat} {p : Progress}

theorem runMore_succ (h : (p.encounter.step root dt).tally = .ok tally) :
    runMore root dt (n + 1) p =
      if (p.next root dt tally).encounter.enemies.isEmpty then
        ((p.next root dt tally).concluded, none)
      else runMore root dt n (p.next root dt tally) := by
  rw [runMore]
  simp only [h]
  rfl

theorem runMore_fault {fault : Fault} (h : (p.encounter.step root dt).tally = .error fault) :
    (runMore root dt (n + 1) p).2 = some fault := by
  rw [runMore]
  simp only [h]

theorem exists_tally_of_runMore (h : (runMore root dt (n + 1) p).2 = none) :
    ∃ tally, (p.encounter.step root dt).tally = .ok tally := by
  cases htally : (p.encounter.step root dt).tally with
  | ok tally => exact ⟨tally, rfl⟩
  | error fault =>
    rw [runMore_fault htally] at h
    exact absurd h (by simp)

/-- **The rule for runs.** What each completed step preserves, and the last report too, holds at the
end of a run that ends well. The index counts the steps. -/
theorem runMore_rule {P : Nat → Progress → Prop}
    (hstep : ∀ k p tally, P k p → (p.encounter.step root dt).tally = .ok tally →
      P (k + 1) (p.next root dt tally))
    (hend : ∀ k p, P k p → p.encounter.enemies = [] → P k p.concluded) {k : Nat} (hp : P k p)
    (h : (runMore root dt n p).2 = none) :
    ∃ m ≤ n, P (k + m) (runMore root dt n p).1 := by
  -- by induction on the steps left; the count of those made goes the other way, so it varies
  induction n generalizing k p with
  | zero => exact ⟨0, Nat.le_refl 0, hp⟩
  | succ n ih =>
    obtain ⟨tally, htally⟩ := exists_tally_of_runMore h
    have hnext := hstep k p tally hp htally
    rw [runMore_succ htally] at h ⊢
    by_cases hempty : (p.next root dt tally).encounter.enemies.isEmpty
    · -- nobody is left: this step was the last
      rw [if_pos hempty]
      exact ⟨1, by omega, hend _ _ hnext (List.isEmpty_iff.mp hempty)⟩
    · -- the rest of the run starts one step later
      rw [if_neg hempty] at h ⊢
      obtain ⟨m, hm, hP⟩ := ih hnext h
      refine ⟨m + 1, by omega, ?_⟩
      rwa [Nat.add_assoc, Nat.add_comm 1 m] at hP

/-- The beginning of a run. -/
def beginning (e : Encounter) : Progress :=
  ⟨e, .start e.enemies.length, #[]⟩

theorem run_of_runMore {steps : UInt64}
    (h : runMore root dt steps.toNat e.beginning = (p, none)) :
    e.run root steps dt =
      ⟨p.encounter, p.journal,
        .ok { p.summary with survivors := p.encounter.enemies.length }⟩ := by
  unfold beginning at h
  rw [run, h]

/-- A run that ends with a summary is a run of its steps that ends well. -/
theorem run_eq_of_ok {steps : UInt64} {s : Summary} (h : (e.run root steps dt).summary = .ok s) :
    ∃ p, runMore root dt steps.toNat e.beginning = (p, none) ∧
      (e.run root steps dt).encounter = p.encounter ∧ (e.run root steps dt).journal = p.journal ∧
      s = { p.summary with survivors := p.encounter.enemies.length } := by
  rcases hrun : runMore root dt steps.toNat e.beginning with ⟨p, _ | fault⟩
  · rw [run_of_runMore hrun] at h ⊢
    exact ⟨p, rfl, rfl, rfl, (Except.ok.inj h).symm⟩
  · -- a run that ended with a fault has no summary
    unfold beginning at hrun
    rw [run, hrun] at h
    exact absurd h (by simp)

theorem run_rule {P : Nat → Progress → Prop}
    (hstep : ∀ k p tally, P k p → (p.encounter.step root dt).tally = .ok tally →
      P (k + 1) (p.next root dt tally))
    (hend : ∀ k p, P k p → p.encounter.enemies = [] → P k p.concluded)
    (hp : P 0 e.beginning) {steps : UInt64} {s : Summary}
    (h : (e.run root steps dt).summary = .ok s) :
    ∃ m ≤ steps.toNat, ∃ p, P m p ∧ (e.run root steps dt).encounter = p.encounter ∧
      (e.run root steps dt).journal = p.journal ∧
      s = { p.summary with survivors := p.encounter.enemies.length } := by
  obtain ⟨p, hrun, hencounter, hjournal, hs⟩ := run_eq_of_ok h
  obtain ⟨m, hm, hP⟩ := runMore_rule hstep hend hp (n := steps.toNat) (by rw [hrun])
  rw [hrun, Nat.zero_add] at hP
  exact ⟨m, hm, p, hP, hencounter, hjournal, hs⟩

theorem History.run {start : Encounter} {past : List Stepped} (hist : History root start past e)
    {steps : UInt64} {s : Summary} (h : (e.run root steps dt).summary = .ok s) :
    ∃ more, History root start (past ++ more) (e.run root steps dt).encounter := by
  -- the steps of a run are completed steps, so each of them makes the history longer by one
  obtain ⟨m, -, p, hp, hencounter, -, -⟩ := run_rule
    (P := fun _ p => ∃ more, History root start (past ++ more) p.encounter)
    (fun _ _ _ hp hok => by
      obtain ⟨more, hmore⟩ := hp
      exact ⟨_, List.append_assoc past more _ ▸ hmore.step dt hok⟩)
    (fun _ _ hp _ => hp) ⟨[], by rwa [List.append_nil]⟩ h
  rwa [hencounter]

end Encounter

end Skirmish
