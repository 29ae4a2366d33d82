import Mathlib.Data.List.Forall2
import Skirmish.Proofs.Encounter.Accounting
import Skirmish.Proofs.Numeric.Sums

/-!
# Records that agree

An encounter keeps some things twice. The two records agree:

* `Encounter.trace_agrees` — the trace and the summary;
* `Encounter.clocks_agree` — the clock of the encounter and the clocks of its enemies.
-/

/-! ## The trace and the summary agree

A traced wave leaves two records of what its enemies did: the events in the shared log, which the
labels in the tree report during a tick, and the summary, which is taken from the boards after it.
They tell the same story.

* `Encounter.Told` — the groups of events that a tick can give, each with what the board shows of
  it;
* `Encounter.Marching` — between steps all enemies share the log and the count of steps;
* `Encounter.Marching.told` — a step adds one group for each enemy, in order;
* `Encounter.trace_agrees` — steps and runs of a traced wave.
-/

namespace Skirmish

open Skirmish.Tree (Agent Fault Record Remark Status Tally)
open Skirmish.Enemy (Course Goes Regime)

namespace Encounter

/-! ### What a tick tells -/

/-- **What a tick tells, and what has come of it.** The events that the tick of a living enemy in
its step `k` gives, with the board afterwards. -/
inductive Told (k : UInt64) (b : Enemy.Board) : List Trace.Event → Prop
  /-- The enemy went after its target. -/
  | seek (regime : Regime.of b = .seek) :
      Told k b [⟨b.body.id, k, "seek", "success"⟩, ⟨b.body.id, k, "root", "success"⟩]
  /-- It turned towards its waypoint. -/
  | turning (regime : Regime.of b = .patrol) (reached : b.memory.reached = false) :
      Told k b [⟨b.body.id, k, "seek", "failure"⟩, ⟨b.body.id, k, "patrol", "running"⟩,
        ⟨b.body.id, k, "root", "running"⟩]
  /-- It moved to its waypoint. -/
  | arrived (regime : Regime.of b = .patrol) (reached : b.memory.reached = true) :
      Told k b [⟨b.body.id, k, "seek", "failure"⟩, ⟨b.body.id, k, "patrol", "success"⟩,
        ⟨b.body.id, k, "root", "success"⟩]
  /-- It moved towards its waypoint. -/
  | travelling (regime : Regime.of b = .patrol) (reached : b.memory.reached = false) :
      Told k b [⟨b.body.id, k, "seek", "failure"⟩, ⟨b.body.id, k, "patrol", "failure"⟩,
        ⟨b.body.id, k, "fallback", "success"⟩, ⟨b.body.id, k, "root", "success"⟩]

/-- How often the root reported a status. -/
def rootReports (s : Status) (events : List Trace.Event) : Nat :=
  events.countP fun ev => ev.node = "root" ∧ ev.status = s.text

/-- How often an enemy was reported to go after its target. -/
def seekReports (id : UInt64) (events : List Trace.Event) : Nat :=
  events.countP fun ev => ev.agent = id ∧ ev.node = "seek" ∧ ev.status = "success"

section Courses

variable {t : Tuning.Behavior} {dt : Float32} {b b' : Enemy.Board} {c : Course}

/-- **A course tells what it did.** -/
theorem told_of_goes (h : Goes t dt b c b') (hc : c ≠ .dead) : Told b.step b' (c.events b) := by
  have hregime := h.regime_eq
  have hreached := h.reached_eq
  rw [Course.events, ← h.id_eq]
  -- the reports of each course are the events of its group
  cases c with
  | dead => exact absurd rfl hc
  | seek => exact .seek hregime
  | turning => exact .turning hregime (hreached rfl)
  | travelling => exact .travelling hregime (hreached rfl)
  | arrived => exact .arrived hregime (hreached rfl)

theorem rootReports_events (c : Course) (b : Enemy.Board) (s : Status) :
    rootReports s (c.events b) = if c.status = s then 1 else 0 := by
  cases c <;> cases s <;> rfl

/-- A course in which the target is pursued is reported once, under the enemy's number. -/
theorem seekReports_events (h : Goes t dt b c b') (id : UInt64) :
    seekReports id (c.events b) = if Regime.of b' = .seek ∧ b'.body.id = id then 1 else 0 := by
  -- the board shows the same course that was reported
  rw [h.regime_eq, h.id_eq]
  -- only the seeking course has a `seek` that succeeds, and all its events bear the one number
  by_cases hid : b.body.id = id
  · cases c <;> simp [seekReports, Course.events, Course.reports, Course.regime, Status.text, hid]
  · cases c <;> simp [seekReports, Course.events, Course.reports, Course.regime, Status.text, hid]

end Courses

/-! ### One step -/

/-- **The wave marches:** its enemies share the log, and have made the same number of steps. -/
structure Marching (k : Nat) (e : Encounter) : Prop where
  /-- Every enemy has made `k` steps. -/
  steps : ∀ a ∈ e.enemies, a.board.step = UInt64.ofNat k
  /-- Every enemy writes into the shared log. -/
  shared : ∀ a ∈ e.enemies, a.sink = some .shared
  /-- There is a shared log. -/
  traced : ∃ log, e.trace = some log
  /-- The numbers are distinct. -/
  distinct : (e.enemies.map enemyId).Nodup

variable {t : Tuning.Behavior} {dt : Float32} {e : Encounter} {tally : Tally} {k : Nat}
  {a : Agent Enemy.Board}

/-- A new wave that is traced into some log. -/
def spawnInto (log : Trace.Log) (setup : Setup) (count seed : UInt64) : Encounter :=
  { spawn setup count seed true with trace := some log }

theorem marching_spawnInto (log : Trace.Log) (setup : Setup) (count seed : UInt64) :
    Marching 0 (spawnInto log setup count seed) where
  steps := by
    intro a ha
    obtain ⟨i, -, rfl⟩ := List.mem_map.mp ha
    rfl
  shared := by
    intro a ha
    obtain ⟨i, -, rfl⟩ := List.mem_map.mp ha
    rfl
  traced := ⟨log, rfl⟩
  distinct := nodup_ids_spawn setup count seed true

theorem exists_of_mem_spared (ha : a ∈ e.spared dt) :
    ∃ a₀ ∈ e.enemies, a.board.step = a₀.board.step ∧ a.sink = a₀.sink := by
  obtain ⟨a₀, ha₀, rfl⟩ := List.mem_map.mp (List.mem_filter.mp ha).1
  refine ⟨a₀, ha₀, ?_, ?_⟩ <;> rw [struck_eq]

/-- What the groups of a step count, if each of them counts for its enemy once or not at all. -/
private theorem countP_flatMap_eq {α : Type} {l : List α} {f : α → List Trace.Event}
    {p : Trace.Event → Bool} {q : α → Prop} [DecidablePred q]
    (hf : ∀ a ∈ l, (f a).countP p = if q a then 1 else 0) :
    (l.flatMap f).countP p = l.countP fun a => q a := by
  -- the groups are counted one after another, in the order of the list
  induction l with
  | nil => rfl
  | cons a rest ih =>
    have hrest := ih fun a' ha' => hf a' (List.mem_cons_of_mem a ha')
    rw [List.flatMap_cons, List.countP_append, hf a List.mem_cons_self, hrest, List.countP_cons,
      Nat.add_comm]
    simp only [decide_eq_true_eq]

section Completed

variable (h : Marching k e) (hok : (e.step (Enemy.labeledTree t) dt).tally = .ok tally)
include h hok

/-- **The tick of an enemy in a marching wave.** It takes a course of the living, and its events are
what that course reports of the step. -/
theorem Marching.tick (ha : a ∈ e.spared dt) :
    ∃ c b, Goes t dt b c (e.driven (Enemy.labeledTree t) dt a).agent.board ∧ c ≠ .dead ∧
      c.status = (e.driven (Enemy.labeledTree t) dt a).status ∧
      b.step = UInt64.ofNat (k + 1) ∧
      (e.driven (Enemy.labeledTree t) dt a).events = c.events b := by
  obtain ⟨s, hs⟩ := driven_ok hok a ha
  obtain ⟨a₀, ha₀, hstep, hsink⟩ := exists_of_mem_spared ha
  have halive : a.board.body.isAlive = true := isAlive_of_mem_spared ha
  obtain ⟨c, hgoes, hc, htrail⟩ :
      ∃ c, Goes t dt (a.board.refresh (e.surroundings dt) dt) c
          (e.driven (Enemy.labeledTree t) dt a).agent.board ∧ c.status = s ∧
        (e.driven (Enemy.labeledTree t) dt a).trail =
          c.trail t (a.board.refresh (e.surroundings dt) dt) :=
    Enemy.goes_of_run_labeledTree rfl hs
  refine ⟨c, _, hgoes, hgoes.ne_dead halive, ?_, ?_, ?_⟩
  · rw [Agent.Ticked.status_of_ok hs, hc]
  · -- a refreshed board counts the step before it is ticked
    change a.board.step + 1 = UInt64.ofNat (k + 1)
    rw [hstep, h.steps a₀ ha₀, UInt64.ofNat_add]
    rfl
  · -- all its events go into the shared log
    have hevents : (e.driven (Enemy.labeledTree t) dt a).events =
        Trace.Sink.overflow a.sink (Tree.events (e.driven (Enemy.labeledTree t) dt a).trail) := rfl
    rw [hevents, hsink, h.shared a₀ ha₀, htrail, Enemy.events_trail]
    rfl

/-- **The wave marches on.** -/
theorem Marching.step : Marching (k + 1) (e.step (Enemy.labeledTree t) dt).encounter := by
  refine ⟨?_, ?_, ?_, ?_⟩
  · -- the tick leaves the count where the refresh has put it
    rw [enemies_step hok]
    intro a ha
    obtain ⟨a', ha', rfl⟩ := List.mem_map.mp ha
    obtain ⟨c, b, hgoes, -, -, hstep, -⟩ := h.tick hok ha'
    rw [hgoes.step_eq, hstep]
  · rw [enemies_step hok]
    intro a ha
    obtain ⟨a', ha', rfl⟩ := List.mem_map.mp ha
    obtain ⟨a₀, ha₀, -, hsink⟩ := exists_of_mem_spared ha'
    change a'.sink.map _ = _
    rw [hsink, h.shared a₀ ha₀]
    rfl
  · obtain ⟨log, hlog⟩ := h.traced
    -- the step puts its events into the log that was there
    exact ⟨_, by rw [trace_step hok, hlog, Option.map_some]⟩
  · -- those who are left are some of those who were there
    rw [ids_step (.labeled t) hok]
    exact (List.nodup_append.mp ((perm_ids dt e).nodup_iff.mpr h.distinct)).2.1

theorem Marching.told :
    List.Forall₂ (fun a group => Told (UInt64.ofNat (k + 1)) a.board group)
      (e.step (Enemy.labeledTree t) dt).encounter.enemies
      ((e.spared dt).map fun a => (e.driven (Enemy.labeledTree t) dt a).events) := by
  -- enemies and groups come from the same list, so one pair is enough
  rw [enemies_step hok, List.forall₂_map_left_iff, List.forall₂_map_right_iff, List.forall₂_same]
  intro a ha
  obtain ⟨c, b, hgoes, hc, -, hstep, hevents⟩ := h.tick hok ha
  rw [hevents, ← hstep]
  exact told_of_goes hgoes hc

/-- **The root's reports are the tally's.** -/
theorem Marching.rootReports_eq (s : Status) :
    rootReports s (e.events (Enemy.labeledTree t) dt) = tally.ended s := by
  have hcount : rootReports s (e.events (Enemy.labeledTree t) dt) =
      (e.spared dt).countP fun a => (e.driven (Enemy.labeledTree t) dt a).status = s := by
    -- of each group, the root accounts for one event
    refine countP_flatMap_eq ?_
    intro a ha
    obtain ⟨c, b, -, -, hstatus, -, hevents⟩ := h.tick hok ha
    rw [hevents, ← hstatus]
    exact rootReports_events c b s
  -- the tally counts the same statuses
  have htally : tally.ended s =
      (Tally.ofStatuses ((e.spared dt).map fun a =>
        (e.driven (Enemy.labeledTree t) dt a).status)).ended s := by
    rw [tally_step hok]
    cases s <;> rfl
  rw [hcount, htally, Tally.ended_ofStatuses, List.count_eq_countP, List.countP_map]
  exact List.countP_congr fun a _ => by simp

/-- **The reports of pursuit are the seekers' boards'.** -/
theorem Marching.seekReports_eq (id : UInt64) :
    seekReports id (e.events (Enemy.labeledTree t) dt) =
      (Summary.seekers (e.step (Enemy.labeledTree t) dt).encounter.enemies).count id := by
  have hcount : seekReports id (e.events (Enemy.labeledTree t) dt) =
      (e.spared dt).countP fun a =>
        Regime.of (e.driven (Enemy.labeledTree t) dt a).agent.board = .seek ∧
          enemyId (e.driven (Enemy.labeledTree t) dt a).agent = id := by
    -- a group reports a pursuit exactly if its board shows one
    refine countP_flatMap_eq ?_
    intro a ha
    obtain ⟨c, b, hgoes, -, -, -, hevents⟩ := h.tick hok ha
    rw [hevents]
    exact seekReports_events hgoes id
  -- the summary looks at the same boards, and counts the number among the seekers'
  rw [hcount, enemies_step hok, Summary.seekers, List.count_eq_countP, List.countP_map,
    List.countP_filter, List.countP_map]
  refine List.countP_congr fun a _ => ?_
  simp [enemyId, and_comm]

end Completed

/-! ### Histories and runs -/

/-- **A traced wave marches for good.** -/
theorem History.marching {log : Trace.Log} {setup : Setup} {count seed : UInt64}
    {past : List Stepped}
    (hist : History (Enemy.labeledTree t) (spawnInto log setup count seed) past e) :
    Marching past.length e := by
  -- on the steps; the count of steps grows with the history
  induction hist with
  | start => exact marching_spawnInto log setup count seed
  | step _ dt ok ih =>
    rw [List.length_append, List.length_singleton]
    exact ih.step ok

/-- **What a run has counted is what it has logged,** since it began with a log. -/
structure Tracked (log : Trace.Log) (m : Nat) (p : Progress) : Prop where
  /-- The wave marches. -/
  marching : ∃ k, Marching k p.encounter
  /-- The table is in order. -/
  ordered : Summary.Ordered p.summary.seekSteps
  /-- The entries of the table count the reports of pursuit, of which each step gives one at most.
  -/
  logged : ∃ events, p.encounter.trace = some (log.append events) ∧
    ∀ id, p.summary.seekSteps.lookup id = Summary.entryFor (seekReports id events) ∧
      seekReports id events ≤ m

theorem seekReports_append (id : UInt64) (l m : List Trace.Event) :
    seekReports id (l ++ m) = seekReports id l + seekReports id m :=
  List.countP_append

/-- **A step counts what it logs.** -/
theorem Tracked.next {log : Trace.Log} {m : Nat} {p : Progress} (h : Tracked log m p)
    (hok : (p.encounter.step (Enemy.labeledTree t) dt).tally = .ok tally) :
    Tracked log (m + 1) (p.next (Enemy.labeledTree t) dt tally) := by
  obtain ⟨k, hmarching⟩ := h.marching
  obtain ⟨events, htrace, hevents⟩ := h.logged
  have hnext : Marching (k + 1) (p.next (Enemy.labeledTree t) dt tally).encounter :=
    hmarching.step hok
  refine ⟨⟨k + 1, hnext⟩, h.ordered.creditAll _,
    events ++ p.encounter.events (Enemy.labeledTree t) dt, ?_, fun id => ⟨?_, ?_⟩⟩
  · -- the log that there was gets the events of the run so far, and now those of the step
    have hstep := trace_step hok
    rw [htrace, Option.map_some, Trace.Log.append_append] at hstep
    exact hstep
  · rw [seekReports_append, hmarching.seekReports_eq hok]
    -- one credit for each report of the step
    exact Summary.lookup_creditAll h.ordered (hevents id).1 _
  · -- no enemy is counted twice in a step, for the numbers are distinct
    have hnodup :
        (Summary.seekers (p.next (Enemy.labeledTree t) dt tally).encounter.enemies).Nodup :=
      hnext.distinct.sublist (List.filter_sublist.map enemyId)
    have hone := List.nodup_iff_count.mp hnodup id
    rw [seekReports_append, hmarching.seekReports_eq hok]
    exact Nat.add_le_add (hevents id).2 hone

/-- **The trace and the summary agree,** for a wave that is traced into any log, in each step of
every history and in every run that goes on from it. A step puts one group of events behind those
that the log had for each enemy that was ticked, in order, which tells what the enemy did, and the
root's reports are those of the tally. A run too only adds to the log; its table has an entry for an
enemy exactly if the run reported a pursuit, and the entry counts these reports. -/
theorem trace_agrees (t : Tuning.Behavior) (start : Trace.Log) (setup : Setup)
    (count seed : UInt64) {past : List Stepped} {e : Encounter}
    (hist : History (Enemy.labeledTree t) (spawnInto start setup count seed) past e) :
    ∃ log, e.trace = some log ∧
      (∀ dt tally, (e.step (Enemy.labeledTree t) dt).tally = .ok tally →
        (e.step (Enemy.labeledTree t) dt).encounter.enemies =
          (e.spared dt).map (fun a => (e.driven (Enemy.labeledTree t) dt a).agent) ∧
        ((e.step (Enemy.labeledTree t) dt).encounter.enemies.map enemyId).Nodup ∧
        ∃ log' groups,
          (e.step (Enemy.labeledTree t) dt).encounter.trace = some log' ∧
          log'.events.toList = log.events.toList ++ groups.flatten ∧
          List.Forall₂ (fun a group => Told (UInt64.ofNat (past.length + 1)) a.board group)
            (e.step (Enemy.labeledTree t) dt).encounter.enemies groups ∧
          ∀ s, rootReports s groups.flatten = tally.ended s) ∧
      ∀ steps dt s, (e.run (Enemy.labeledTree t) steps dt).summary = .ok s →
        ∃ more log' events,
          History (Enemy.labeledTree t) (spawnInto start setup count seed) (past ++ more)
            (e.run (Enemy.labeledTree t) steps dt).encounter ∧
          (e.run (Enemy.labeledTree t) steps dt).encounter.trace = some log' ∧
          log'.events.toList = log.events.toList ++ events ∧
          ∀ id, (s.seekSteps.lookup id = none ↔ seekReports id events = 0) ∧
            ∀ n, s.seekSteps.lookup id = some n → n.toNat = seekReports id events := by
  have hmarching := hist.marching
  obtain ⟨log, hlog⟩ := hmarching.traced
  refine ⟨log, hlog, ?_, ?_⟩
  · -- one step: the groups are the events of the enemies that were spared
    intro dt tally hok
    refine ⟨enemies_step hok, (hmarching.step hok).distinct, _, _, ?_,
      Trace.Log.toList_append log _, hmarching.told hok, hmarching.rootReports_eq hok⟩
    rw [trace_step hok, hlog]
    rfl
  · -- a run: `Tracked` is kept by its steps and by its end, which writes no event
    intro steps dt s hs
    obtain ⟨more, hmore⟩ := hist.run hs
    have hbegin : Tracked log 0 e.beginning :=
      ⟨⟨_, hmarching⟩, Summary.ordered_nil, [], hlog, fun id => ⟨rfl, Nat.le_refl 0⟩⟩
    obtain ⟨m, hm, p, hp, hencounter, -, rfl⟩ := run_rule (P := Tracked log)
      (fun _ _ _ hp hok => hp.next hok) (fun _ _ hp _ => ⟨hp.marching, hp.ordered, hp.logged⟩)
      hbegin hs
    obtain ⟨events, htrace, hevents⟩ := hp.logged
    refine ⟨more, _, events, hmore, hencounter ▸ htrace, Trace.Log.toList_append log events, ?_⟩
    intro id
    refine ⟨?_, ?_⟩
    · rw [(hevents id).1]
      exact Summary.entryFor_eq_none_iff
    · intro n hn
      -- the count fits, for it is at most the number of steps
      have hfits : seekReports id events < UInt64.size :=
        Nat.lt_of_le_of_lt (Nat.le_trans (hevents id).2 hm) steps.toNat_lt
      exact Summary.toNat_of_entryFor ((hevents id).1.symm.trans hn) hfits

/-- A lone enemy that appears right at the target and is too strong for its weapon. -/
def sturdyOne : Setup :=
  { pointBlank with
    tuning := { Tuning.usual with archetype := { Tuning.usual.archetype with health := 5000 } } }

set_option maxRecDepth 8000 in
/-- The first step of the lone enemy, and a run of one step, agree with the log. -/
theorem trace_agrees_sturdyOne :
    (∃ log groups,
      ((spawn sturdyOne 1 7 true).step (Enemy.labeledTree .usual) 1).encounter.trace = some log ∧
      log.events.toList = groups.flatten ∧ log.events.size = 2 ∧
      List.Forall₂ (fun a group => Told 1 a.board group)
        ((spawn sturdyOne 1 7 true).step (Enemy.labeledTree .usual) 1).encounter.enemies groups ∧
      rootReports .success groups.flatten = 1 ∧ rootReports .running groups.flatten = 0) ∧
    ∃ log,
      ((spawn sturdyOne 1 7 true).run (Enemy.labeledTree .usual) 1 1).encounter.trace = some log ∧
      seekReports 0 log.events.toList = 1 := by
  have htally : ((spawn sturdyOne 1 7 true).step (Enemy.labeledTree .usual) 1).tally =
      .ok ⟨1, 0, 1, 0, 0⟩ := rfl
  have hrun : ((spawn sturdyOne 1 7 true).run (Enemy.labeledTree .usual) 1 1).summary =
      .ok ⟨1, 1, 1, 0, [(0, 1)]⟩ := by
    rw [run, show (1 : UInt64).toNat = 0 + 1 from rfl]
    rw [runMore_succ (p := ⟨spawn sturdyOne 1 7 true, _, _⟩) htally]
    rfl
  obtain ⟨log, hlog, hstep, hruns⟩ := trace_agrees .usual .empty sturdyOne 1 7 .start
  obtain rfl := Option.some.inj hlog
  obtain ⟨-, -, log₁, groups, htrace, hlogged, htold, hroot⟩ := hstep 1 _ htally
  obtain ⟨more, log₂, events, -, htrace', hlogged', hseek⟩ := hruns 1 1 _ hrun
  -- both began with the empty log
  rw [Trace.Log.empty, List.nil_append] at hlogged hlogged'
  have htwo : log₁.events.size = 2 := by
    obtain rfl := Option.some.inj htrace
    rfl
  exact ⟨⟨log₁, groups, htrace, hlogged, htwo, htold, hroot .success, hroot .running⟩,
    log₂, htrace', hlogged' ▸ ((hseek 0).2 1 rfl).symm⟩

end Encounter

end Skirmish

/-! ## Clocks

An encounter keeps the time, and so does each of its enemies. The two are moved on in different
places, and only an enemy's clock looks at the duration of a frame before it takes it. On durations
that it takes they are the same sum.

* `Encounter.Paced` — the encounters that a start leads to by completed steps of known durations;
* `Encounter.InTime` — all enemies have the time of the encounter, and see the target where it is
  then;
* `Encounter.clocks_agree` — so it is after any steps that take positive finite times;
* `Enemy.Board.le_elapsed_refreshAll` — an enemy's clock never goes back, whatever the durations.

A sum may be rounded to one of its terms, or to infinity. It is never below what it was before, and
so it is never a NaN either.
-/

namespace Skirmish

/-! ### The clock of an enemy -/

namespace Enemy.Board

variable {b : Board} {dt : Float32}

/-- **A board after some frames,** each with its surroundings and its duration. -/
def refreshAll (frames : List (Surroundings × Float32)) (b : Board) : Board :=
  frames.foldl (fun b frame => b.refresh frame.1 frame.2) b

theorem elapsed_refresh_of_positive (surroundings : Surroundings) (hfinite : dt.isFinite = true)
    (hpos : 0 < dt) (b : Board) : (b.refresh surroundings dt).elapsed = b.elapsed + dt := by
  have htakes : (dt.isFinite && decide (dt > 0)) = true := by
    rw [hfinite, Bool.true_and]
    exact decide_eq_true hpos
  exact if_pos htakes

/-- **One frame** does not move the clock back. -/
theorem le_elapsed_refresh (h : 0 ≤ b.elapsed) (surroundings : Surroundings) (dt : Float32) :
    b.elapsed ≤ (b.refresh surroundings dt).elapsed := by
  by_cases htakes : (dt.isFinite && decide (dt > 0)) = true
  · -- a rounded sum is not below its first term when the second one is not negative
    obtain ⟨hfinite, hpos⟩ := Bool.and_eq_true_iff.mp htakes
    have hpos : 0 < dt := of_decide_eq_true hpos
    have hnonneg : 0 ≤ dt :=
      Numeric.le_iff.mpr (Numeric.zero_le_of_hasSign (Numeric.hasSign_of_pos hpos))
    rw [elapsed_refresh_of_positive surroundings hfinite hpos]
    exact Numeric.le_add_of_nonneg h hfinite hnonneg
  · -- the duration is not taken
    have hsame : (b.refresh surroundings dt).elapsed = b.elapsed := if_neg htakes
    rw [hsame]
    exact Numeric.single_le_refl_of_le h

theorem le_elapsed_refreshAll (h : 0 ≤ b.elapsed) (frames : List (Surroundings × Float32)) :
    b.elapsed ≤ (b.refreshAll frames).elapsed := by
  -- on the frames, for any board whose clock is not negative; the first frame keeps it so
  induction frames generalizing b with
  | nil => exact Numeric.single_le_refl_of_le h
  | cons frame frames ih =>
    have hfirst := le_elapsed_refresh h frame.1 frame.2
    exact Numeric.single_le_trans hfirst (ih (Numeric.single_le_trans h hfirst))

/-- **A new enemy's clock** is at zero, so it never is below. -/
theorem zero_le_elapsed_refreshAll (body : Body) (target : Option Target) (seed : UInt64)
    (frames : List (Surroundings × Float32)) :
    0 ≤ ((new body target seed).refreshAll frames).elapsed := by
  have hstart : 0 ≤ (new body target seed).elapsed := by
    change (0 : Float32) ≤ 0
    decide
  exact Numeric.single_le_trans hstart (le_elapsed_refreshAll hstart frames)

theorem step_refreshAll (frames : List (Surroundings × Float32)) (b : Board) :
    (b.refreshAll frames).step = b.step + UInt64.ofNat frames.length := by
  induction frames generalizing b with
  | nil => exact (UInt64.add_zero b.step).symm
  | cons frame frames ih =>
    refine (ih (b.refresh frame.1 frame.2)).trans ?_
    rw [List.length_cons, Nat.add_comm, UInt64.ofNat_add, ← UInt64.add_assoc]
    rfl

end Enemy.Board

/-! ### The clock of an encounter -/

namespace Encounter

open Skirmish.Tree (Tally)

/-- **Steps of known durations** that complete, each with a tree for enemies. -/
inductive Paced (start : Encounter) : List Float32 → Encounter → Prop
  /-- No time has passed yet. -/
  | start : Paced start [] start
  /-- One more step completes. -/
  | step {durations : List Float32} {e : Encounter} (h : Paced start durations e)
      {root : Enemy.EnemyNode}
      (hroot : Enemy.IsEnemyTree root) (dt : Float32) {tally : Tally}
      (ok : (e.step root dt).tally = .ok tally) :
    Paced start (durations ++ [dt]) (e.step root dt).encounter

variable {setup : Setup} {start e : Encounter} {durations : List Float32} {n : ℕ}
  {root : Enemy.EnemyNode} {dt : Float32} {tally : Tally}

/-- **The encounter's clock** is the sum of all durations, taken as they come. -/
theorem Paced.elapsed_eq (h : Paced start durations e) :
    e.elapsed = durations.foldl (· + ·) start.elapsed := by
  induction h with
  | start => rfl
  | step _ _ dt _ ih =>
    rw [List.foldl_append, ← ih]
    rfl

/-- **Enemies in time** with their encounter, after so many steps. -/
structure InTime (script : Setup) (n : ℕ) (e : Encounter) : Prop where
  /-- The script is the one that there was. -/
  setup : e.setup = script
  /-- Their clocks show the time of the encounter. -/
  elapsed : ∀ a ∈ e.enemies, a.board.elapsed = e.elapsed
  /-- They see the target where it is at that time. -/
  target : ∀ a ∈ e.enemies, a.board.target = some (script.scenario.targetAt e.elapsed)
  /-- They have counted the steps. -/
  steps : ∀ a ∈ e.enemies, a.board.step = UInt64.ofNat n

theorem inTime_spawn (setup : Setup) (count seed : UInt64) (traced : Bool) :
    InTime setup 0 (spawn setup count seed traced) := by
  refine ⟨rfl, ?_, ?_, ?_⟩
  all_goals
    intro a ha
    obtain ⟨i, -, rfl⟩ := List.mem_map.mp ha
    rfl

/-- **A step** keeps the enemies in time that it leaves, if it takes a positive finite time. -/
theorem InTime.step (h : InTime setup n e) (hroot : Enemy.IsEnemyTree root)
    (hfinite : dt.isFinite = true) (hpos : 0 < dt) (ok : (e.step root dt).tally = .ok tally) :
    InTime setup (n + 1) (e.step root dt).encounter := by
  -- each of them was refreshed before its tick, and the tick left the clock alone
  have hdriven : ∀ a ∈ (e.step root dt).encounter.enemies, ∃ a₀ ∈ e.enemies,
      a.board.elapsed = a₀.board.elapsed + dt ∧ a.board.target = some (e.nextTarget dt) ∧
        a.board.step = a₀.board.step + 1 := by
    intro a ha
    rw [enemies_step ok] at ha
    obtain ⟨a', ha', rfl⟩ := List.mem_map.mp ha
    obtain ⟨s, hs⟩ := driven_ok ok a' ha'
    obtain ⟨t, c, hgoes, -, -⟩ := driven_goes hroot hs
    obtain ⟨a₀, ha₀, rfl⟩ := List.mem_map.mp (List.mem_filter.mp ha').1
    refine ⟨a₀, ha₀, ?_, ?_, ?_⟩
    · rw [hgoes.board_eq, Enemy.Board.elapsed_refresh_of_positive _ hfinite hpos, struck_eq]
    · rw [hgoes.board_eq]
      rfl
    · rw [hgoes.step_eq, struck_eq]
      rfl
  have helapsed : (e.step root dt).encounter.elapsed = e.elapsed + dt := rfl
  -- the two clocks were equal and get the same term, so their sums are the same bits
  refine ⟨h.setup, ?_, ?_, ?_⟩
  · intro a ha
    obtain ⟨a₀, ha₀, helapsed', -, -⟩ := hdriven a ha
    rw [helapsed', h.elapsed a₀ ha₀, helapsed]
  · intro a ha
    obtain ⟨a₀, ha₀, -, htarget, -⟩ := hdriven a ha
    rw [htarget, nextTarget, h.setup, helapsed]
  · intro a ha
    obtain ⟨a₀, ha₀, -, -, hstep⟩ := hdriven a ha
    rw [hstep, h.steps a₀ ha₀, UInt64.ofNat_add]
    rfl

theorem Paced.inTime (h : Paced start durations e) (hstart : InTime setup 0 start)
    (hdurations : ∀ dt ∈ durations, dt.isFinite = true ∧ 0 < dt) :
    InTime setup durations.length e := by
  -- on the steps; the last duration is the one that the last step takes
  induction h with
  | start => exact hstart
  | step _ hroot dt ok ih =>
    obtain ⟨hbefore, hlast⟩ := List.forall_mem_append.mp hdurations
    obtain ⟨hfinite, hpos⟩ := hlast dt (List.mem_singleton_self dt)
    rw [List.length_append, List.length_singleton]
    exact (ih hbefore).step hroot hfinite hpos ok

/-- **The clocks agree.** After any steps of a new wave that take positive finite times, the
encounter's clock is the sum of these times. All enemies that are left have the same time on theirs,
see the target where it is at that time, and have counted the steps. And whatever the durations,
finite or not, the clock of a new enemy never shows a NaN and never goes back, while its steps are
counted all the same. -/
theorem clocks_agree :
    (∀ (setup : Setup) (count seed : UInt64) (traced : Bool) (durations : List Float32)
      (e : Encounter),
      Paced (spawn setup count seed traced) durations e →
      (∀ dt ∈ durations, dt.isFinite = true ∧ 0 < dt) →
      e.elapsed = durations.foldl (· + ·) 0 ∧
      ∀ a ∈ e.enemies, a.board.elapsed = e.elapsed ∧
        a.board.target = some (setup.scenario.targetAt e.elapsed) ∧
        a.board.step = UInt64.ofNat durations.length) ∧
    ∀ (body : Enemy.Body) (target : Option Enemy.Target) (seed : UInt64)
      (frames later : List (Enemy.Surroundings × Float32)),
      let b := (Enemy.Board.new body target seed).refreshAll frames
      b.elapsed.isNaN = false ∧ b.elapsed ≤ (b.refreshAll later).elapsed ∧
        b.step = UInt64.ofNat frames.length := by
  refine ⟨?_, ?_⟩
  · intro setup count seed traced durations e h hdurations
    have hintime := h.inTime (inTime_spawn setup count seed traced) hdurations
    exact ⟨h.elapsed_eq, fun a ha => ⟨hintime.elapsed a ha, hintime.target a ha,
      hintime.steps a ha⟩⟩
  · -- for any durations, what is not negative is no NaN
    intro body target seed frames later b
    have hclock : 0 ≤ b.elapsed := Enemy.Board.zero_le_elapsed_refreshAll body target seed frames
    refine ⟨Numeric.isNaN_of_le hclock, Enemy.Board.le_elapsed_refreshAll hclock later, ?_⟩
    refine (Enemy.Board.step_refreshAll frames _).trans ?_
    exact UInt64.zero_add _

/-- A lone enemy after two steps of different durations and with different trees. -/
theorem clocks_agree_sturdyOne :
    ∃ e a, Paced (spawn sturdyOne 1 7 true) [1, 0.25] e ∧ a ∈ e.enemies ∧ e.elapsed = 1.25 ∧
      a.board.elapsed = 1.25 ∧ a.board.target = some (sturdyOne.scenario.targetAt 1.25) ∧
      a.board.step = 2 := by
  let e := ((spawn sturdyOne 1 7 true).step (Enemy.tree .usual) 1).encounter
  have hfirst : ((spawn sturdyOne 1 7 true).step (Enemy.tree .usual) 1).tally =
      .ok ⟨1, 0, 1, 0, 0⟩ :=
    ok_of_toOption (by decide +kernel)
  have hsecond : (e.step (Enemy.labeledTree .usual) 0.25).tally = .ok ⟨1, 0, 1, 0, 0⟩ :=
    ok_of_toOption (by decide +kernel)
  have hone : (e.step (Enemy.labeledTree .usual) 0.25).encounter.enemies.length = 1 := by
    decide +kernel
  have hpaced : Paced (spawn sturdyOne 1 7 true) [1, 0.25]
      (e.step (Enemy.labeledTree .usual) 0.25).encounter :=
    (Paced.start.step (.plain .usual) 1 hfirst).step (.labeled .usual) 0.25 hsecond
  obtain ⟨a, ha⟩ := List.length_eq_one_iff.mp hone
  obtain ⟨helapsed, hagree⟩ := clocks_agree.1 sturdyOne 1 7 true _ _ hpaced (by decide)
  have hsum : [1, 0.25].foldl (· + ·) (0 : Float32) = 1.25 := by decide
  have hmem : a ∈ (e.step (Enemy.labeledTree .usual) 0.25).encounter.enemies := by
    rw [ha]
    exact List.mem_singleton_self a
  obtain ⟨hclock, htarget, hsteps⟩ := hagree a hmem
  rw [helapsed, hsum] at hclock htarget
  exact ⟨_, a, hpaced, hmem, helapsed.trans hsum, hclock, htarget, hsteps⟩

end Encounter

end Skirmish
