import Skirmish.Proofs.Encounter.Accounting

/-!
# Detachments

Enemies never influence one another. A part of a wave that is run alone, a detachment, does what it
does within the wave, and leaves the records that are left of it there.

The two runs are compared step by step. As long as both go on they have the same clock, so every
enemy is struck and driven alike in both (`Encounter.Part.step`). The detachment may be destroyed
first. Its run then ends, and the rest of the wave adds nothing that concerns it
(`Encounter.Part.idle`).

* `Encounter.Part` — one encounter is a part of another;
* `Encounter.Progress.Mirrors` — one run has counted of another what concerns some of the enemies;
* `Encounter.run_detachment` — the run of a detachment.
-/

namespace Skirmish

open Skirmish.Tree (Agent Fault Record Remark Tally)

namespace Encounter

/-- The enemies with some numbers, in the order of the wave. -/
def detached (ids : List UInt64) (enemies : List (Agent Enemy.Board)) : List (Agent Enemy.Board) :=
  enemies.filter fun a => enemyId a ∈ ids

/-- **A part of an encounter:** the enemies with some numbers, and their events. -/
structure Part (ids : List UInt64) (e' e : Encounter) : Prop where
  /-- The enemies are those with the numbers. -/
  enemies : e'.enemies = detached ids e.enemies
  /-- The shared log holds the events of those. -/
  logged : ∃ log' log, e'.trace = some log' ∧ e.trace = some log ∧
    log'.events.toList = log.events.toList.filter (·.agent ∈ ids)

/-- **The same script at the same time.** -/
structure InStep (e' e : Encounter) : Prop where
  /-- The script and the tuning are the same. -/
  setup : e'.setup = e.setup
  /-- The clock is the same. -/
  elapsed : e'.elapsed = e.elapsed

variable {ids : List UInt64} {root : Enemy.EnemyNode} {dt : Float32} {e e' : Encounter}
  {tally : Tally} {a : Agent Enemy.Board}

/-! ### Detaching -/

theorem mem_detached {enemies : List (Agent Enemy.Board)} :
    a ∈ detached ids enemies ↔ a ∈ enemies ∧ enemyId a ∈ ids := by
  simp [detached]

theorem detached_cons_of_mem {rest : List (Agent Enemy.Board)} (ha : enemyId a ∈ ids) :
    detached ids (a :: rest) = a :: detached ids rest :=
  List.filter_cons_of_pos (decide_eq_true ha)

theorem detached_cons_of_not_mem {rest : List (Agent Enemy.Board)} (ha : enemyId a ∉ ids) :
    detached ids (a :: rest) = detached ids rest :=
  List.filter_cons_of_neg (by simpa using ha)

theorem detached_map {f : Agent Enemy.Board → Agent Enemy.Board}
    {enemies : List (Agent Enemy.Board)} (hf : ∀ a ∈ enemies, enemyId (f a) = enemyId a) :
    detached ids (enemies.map f) = (detached ids enemies).map f := by
  rw [detached, List.filter_map]
  refine congrArg (List.map f) (List.filter_congr ?_)
  intro a ha
  rw [Function.comp_apply, hf a ha]

theorem detached_filter (p : Agent Enemy.Board → Bool) (enemies : List (Agent Enemy.Board)) :
    detached ids (enemies.filter p) = (detached ids enemies).filter p := by
  rw [detached, detached, List.filter_filter, List.filter_filter]
  exact List.filter_congr fun a _ => Bool.and_comm _ _

theorem filter_flatMap_detached {ε : Type} {f : Agent Enemy.Board → List ε} {owner : ε → UInt64}
    {enemies : List (Agent Enemy.Board)}
    (howner : ∀ a ∈ enemies, ∀ x ∈ f a, owner x = enemyId a) :
    (enemies.flatMap f).filter (fun x => owner x ∈ ids) = (detached ids enemies).flatMap f := by
  -- on the wave; all of an enemy's contributions are kept, or none
  induction enemies with
  | nil => rfl
  | cons a rest ih =>
    have hrest := ih fun a' ha' => howner a' (List.mem_cons_of_mem a ha')
    rw [List.flatMap_cons, List.filter_append, hrest]
    by_cases ha : enemyId a ∈ ids
    · -- all that the first enemy contributes is its own, and kept
      have hkeep : (f a).filter (fun x => owner x ∈ ids) = f a := by
        refine List.filter_eq_self.mpr ?_
        intro x hx
        rw [howner a List.mem_cons_self x hx]
        exact decide_eq_true ha
      rw [hkeep, detached_cons_of_mem ha, List.flatMap_cons]
    · -- nothing that it contributes is kept
      have hdrop : (f a).filter (fun x => owner x ∈ ids) = [] := by
        refine List.filter_eq_nil_iff.mpr ?_
        intro x hx
        rw [howner a List.mem_cons_self x hx]
        simpa using ha
      rw [hdrop, detached_cons_of_not_mem ha, List.nil_append]

/-- **A part that keeps the order is detached by its numbers,** if these are distinct. -/
theorem eq_detached_of_sublist {sub full : List (Agent Enemy.Board)} (h : sub.Sublist full)
    (distinct : (full.map enemyId).Nodup) : sub = detached (sub.map enemyId) full := by
  -- along the choice of the part from the whole
  induction h with
  | slnil => rfl
  | @cons sub full a h ih =>
    obtain ⟨hnot, hrest⟩ := List.nodup_cons.mp distinct
    -- an enemy left out shares its number with none of the part
    have ha : enemyId a ∉ sub.map enemyId := by
      intro hmem
      exact hnot ((h.map enemyId).subset hmem)
    rw [detached_cons_of_not_mem ha]
    exact ih hrest
  | @cons_cons sub full a h ih =>
    obtain ⟨hnot, hrest⟩ := List.nodup_cons.mp distinct
    have hmem : enemyId a ∈ (a :: sub).map enemyId := List.mem_map_of_mem List.mem_cons_self
    rw [detached_cons_of_mem hmem]
    refine congrArg (List.cons a) ((ih hrest).trans (List.filter_congr ?_))
    intro b hb
    -- the first enemy's number is met nowhere else
    have hne : enemyId b ≠ enemyId a := by
      intro heq
      exact hnot (heq ▸ List.mem_map_of_mem hb)
    simp [hne]

/-! ### One step -/

theorem InStep.struck_eq (h : InStep e' e) (dt : Float32) : e'.struck dt = e.struck dt := by
  funext a
  rw [struck, struck, nextTarget, nextTarget, h.setup, h.elapsed]

theorem InStep.driven_eq (h : InStep e' e) (root : Enemy.EnemyNode) (dt : Float32) :
    e'.driven root dt = e.driven root dt := by
  funext a
  rw [driven, driven, surroundings, surroundings, nextTarget, nextTarget, h.setup, h.elapsed]

theorem InStep.step (h : InStep e' e) :
    InStep (e'.step root dt).encounter (e.step root dt).encounter := by
  rw [step_eq_updated, step_eq_updated]
  refine ⟨h.setup, ?_⟩
  change e'.elapsed + dt = e.elapsed + dt
  rw [h.elapsed]

theorem detached_struck (enemies : List (Agent Enemy.Board)) :
    (detached ids enemies).map (e.struck dt) = detached ids (enemies.map (e.struck dt)) :=
  (detached_map fun a _ => enemyId_struck dt e a).symm

theorem Part.spared_eq (h : Part ids e' e) (clock : InStep e' e) (dt : Float32) :
    e'.spared dt = detached ids (e.spared dt) := by
  rw [spared, spared, h.enemies, clock.struck_eq, detached_struck, Tree.living, Tree.living,
    detached_filter]

theorem Part.slain_eq (h : Part ids e' e) (clock : InStep e' e) (dt : Float32) :
    e'.slain dt = detached ids (e.slain dt) := by
  rw [slain, slain, h.enemies, clock.struck_eq, detached_struck, Tree.fallen, Tree.fallen,
    detached_filter]

section Completed

variable (hroot : Enemy.IsEnemyTree root) (hok : (e.step root dt).tally = .ok tally)
include hroot hok

theorem length_detached_slain :
    (detached ids (e.slain dt)).length =
      (reapedIds (e.step root dt).journal).countP (· ∈ ids) := by
  rw [reapedIds_step hroot hok, List.countP_map, List.countP_eq_length_filter]
  rfl

/-- A step of a part logs what the step of the whole logs of it. -/
theorem Part.events_eq (h : Part ids e' e) (clock : InStep e' e) :
    e'.events root dt = (e.events root dt).filter (·.agent ∈ ids) := by
  rw [events, events, h.spared_eq clock dt, clock.driven_eq root dt]
  refine (filter_flatMap_detached ?_).symm
  -- the events of a tick are those of the enemy that is ticked
  intro a ha ev hev
  obtain ⟨s, hs⟩ := driven_ok hok a ha
  exact agent_of_mem_events hroot hs hev

/-- **A part stays a part.** If the step of the whole completes, so does the step of the part, and
it removes those that the whole removes of it. -/
theorem Part.step (h : Part ids e' e) (clock : InStep e' e) :
    ∃ tally', (e'.step root dt).tally = .ok tally' ∧
      tally'.reaped = (reapedIds (e.step root dt).journal).countP (· ∈ ids) ∧
      Part ids (e'.step root dt).encounter (e.step root dt).encounter := by
  have hspared := h.spared_eq clock dt
  have hdriven := clock.driven_eq root dt
  -- whoever the part drives the whole drives too, and that ended well
  have hok' : ∀ a ∈ e'.spared dt, ∃ s, (e'.driven root dt a).result = .ok s := by
    intro a ha
    rw [hspared, mem_detached] at ha
    rw [hdriven]
    exact driven_ok hok a ha.1
  have htally : (e'.step root dt).tally = .ok _ := congrArg Stepped.tally (step_eq hok')
  -- what is slain, driven and logged of the part is detached from what the whole slays, drives and
  -- logs
  refine ⟨_, htally, ?_, ?_, ?_⟩
  · rw [← length_detached_slain hroot hok, ← h.slain_eq clock dt]
  · -- to be driven does not change a number
    rw [enemies_step htally, enemies_step hok, hspared, hdriven, detached_map]
    intro a ha
    obtain ⟨s, hs⟩ := driven_ok hok a ha
    exact enemyId_driven hroot hs
  · obtain ⟨log', log, htrace', htrace, hlog⟩ := h.logged
    refine ⟨_, _, by rw [trace_step htally, htrace', Option.map_some],
      by rw [trace_step hok, htrace, Option.map_some], ?_⟩
    rw [Trace.Log.toList_append, Trace.Log.toList_append, List.filter_append, hlog,
      h.events_eq hroot hok clock]

/-- **Without enemies a part is a part for good.** The whole then removes nobody of it. -/
theorem Part.idle (h : Part ids e' e) (hnone : e'.enemies = []) :
    Part ids e' (e.step root dt).encounter ∧
      (reapedIds (e.step root dt).journal).countP (· ∈ ids) = 0 := by
  -- a step of nobody at the clock of the whole leaves nobody, and the same log
  let e₀ : Encounter := { e with enemies := [], trace := e'.trace }
  have hpart : Part ids e₀ e := ⟨by rw [← h.enemies, hnone], h.logged⟩
  -- the clock of the part may be behind, so `Part.step` is applied to this one
  obtain ⟨tally', htally', hreaped, hnext⟩ := hpart.step hroot hok ⟨rfl, rfl⟩
  refine ⟨⟨?_, ?_⟩, ?_⟩
  · rw [hnone, ← hnext.enemies, enemies_step htally']
    rfl
  · obtain ⟨log', log, htrace', htrace, hlog⟩ := hnext.logged
    refine ⟨log', log, ?_, htrace, hlog⟩
    rw [← htrace', trace_step htally']
    exact Option.map_id'.symm
  · rw [← hreaped, tally_step htally']
    rfl

end Completed

/-! ### Whole runs -/

/-- **A run has counted of another run** what concerns the enemies with some numbers. -/
structure Progress.Mirrors (ids : List UInt64) (p' p : Progress) : Prop where
  /-- One encounter is a part of the other. -/
  part : Part ids p'.encounter p.encounter
  /-- The other's table is in order. -/
  ordered : Summary.Ordered p.summary.seekSteps
  /-- The table has the entries of those enemies. -/
  seekSteps : p'.summary.seekSteps = Summary.restrict (· ∈ ids) p.summary.seekSteps
  /-- The count of removals is that of those enemies. -/
  reaped : p'.summary.reaped = (reapedIds p.journal.toList).countP (· ∈ ids)

theorem seekers_detached (enemies : List (Agent Enemy.Board)) :
    Summary.seekers (detached ids enemies) = (Summary.seekers enemies).filter (· ∈ ids) := by
  rw [Summary.seekers, Summary.seekers, detached, ← detached, ← detached_filter, List.filter_map]
  rfl

theorem reapedIds_periodicReport (e : Encounter) (step : UInt64) (reaped : Nat) :
    reapedIds (periodicReport e step reaped) = [] := by
  simp only [periodicReport]
  split <;> rfl

theorem reapedIds_next (root : Enemy.EnemyNode) (dt : Float32) (tally : Tally) (p : Progress) :
    reapedIds (p.next root dt tally).journal.toList =
      reapedIds p.journal.toList ++ reapedIds (p.encounter.step root dt).journal := by
  rw [Progress.toList_journal_next, reapedIds_append, reapedIds_append, reapedIds_periodicReport,
    List.append_nil]

theorem reapedIds_concluded (p : Progress) :
    reapedIds p.concluded.journal.toList = reapedIds p.journal.toList := by
  simp [Progress.concluded, reapedIds, Happening.reaped?]

namespace Progress.Mirrors

variable {p p' q' : Progress}

/-- One more step of the other run is counted if its seekers and its removals are. -/
theorem extend (h : Mirrors ids p' p)
    (part : Part ids q'.encounter (p.encounter.step root dt).encounter)
    (seekSteps : q'.summary.seekSteps =
      Summary.creditAll (Summary.seekers q'.encounter.enemies) p'.summary.seekSteps)
    (reaped : q'.summary.reaped =
      p'.summary.reaped + (reapedIds (p.encounter.step root dt).journal).countP (· ∈ ids)) :
    Mirrors ids q' (p.next root dt tally) where
  part := part
  ordered := h.ordered.creditAll _
  seekSteps := by
    -- the other run credits all its seekers, of which those of the part are seen
    have hnext : (p.next root dt tally).summary.seekSteps =
        Summary.creditAll (Summary.seekers (p.encounter.step root dt).encounter.enemies)
          p.summary.seekSteps := Summary.seekSteps_afterStep _ _ _ _
    rw [hnext, Summary.restrict_creditAll h.ordered, ← seekers_detached, ← part.enemies,
      ← h.seekSteps, seekSteps]
  reaped := by rw [reapedIds_next, List.countP_append, ← h.reaped, reaped]

/-- **Both runs make a step.** -/
theorem next (h : Mirrors ids p' p) (hroot : Enemy.IsEnemyTree root)
    (clock : InStep p'.encounter p.encounter)
    (hok : (p.encounter.step root dt).tally = .ok tally) :
    ∃ tally', (p'.encounter.step root dt).tally = .ok tally' ∧
      Mirrors ids (p'.next root dt tally') (p.next root dt tally) := by
  obtain ⟨tally', htally', hreaped, hpart⟩ := h.part.step hroot hok clock
  refine ⟨tally', htally', h.extend hpart rfl ?_⟩
  rw [← hreaped]
  rfl

/-- **Only the other run makes a step.** -/
theorem idle (h : Mirrors ids p' p) (hroot : Enemy.IsEnemyTree root)
    (hnone : p'.encounter.enemies = []) (hok : (p.encounter.step root dt).tally = .ok tally) :
    Mirrors ids p' (p.next root dt tally) := by
  obtain ⟨hpart, hreaped⟩ := h.part.idle hroot hok hnone
  refine h.extend hpart ?_ ?_
  · rw [hnone]
    rfl
  · rw [hreaped, Nat.add_zero]

theorem concluded_left (h : Mirrors ids p' p) : Mirrors ids p'.concluded p :=
  ⟨h.part, h.ordered, h.seekSteps, h.reaped⟩

theorem concluded_right (h : Mirrors ids p' p) : Mirrors ids p' p.concluded :=
  ⟨h.part, h.ordered, h.seekSteps, by rw [reapedIds_concluded]; exact h.reaped⟩

/-- **The runs as wholes.** If one ends well so does the other, and it has counted what concerns it.
-/
theorem runMore {n : Nat} (h : Mirrors ids p' p) (hroot : Enemy.IsEnemyTree root)
    (clock : InStep p'.encounter p.encounter) (hrun : (runMore root dt n p).2 = none) :
    (Encounter.runMore root dt n p').2 = none ∧
      Mirrors ids (Encounter.runMore root dt n p').1 (Encounter.runMore root dt n p).1 := by
  -- on the steps left; the part can lose its last enemy in an earlier step than the whole, never in
  -- a later one
  induction n generalizing p p' with
  | zero => exact ⟨rfl, h⟩
  | succ n ih =>
    obtain ⟨tally, hok⟩ := exists_tally_of_runMore hrun
    obtain ⟨tally', hok', hnext⟩ := h.next hroot clock hok
    have hclock : InStep (p'.next root dt tally').encounter (p.next root dt tally).encounter :=
      clock.step
    rw [runMore_succ hok] at hrun ⊢
    rw [runMore_succ hok']
    by_cases hempty : (p.next root dt tally).encounter.enemies = []
    · -- the whole wave is destroyed, and the detachment with it
      have hempty' : (p'.next root dt tally').encounter.enemies = [] := by
        rw [hnext.part.enemies, hempty]
        rfl
      rw [if_pos (List.isEmpty_iff.mpr hempty), if_pos (List.isEmpty_iff.mpr hempty')]
      exact ⟨rfl, hnext.concluded_left.concluded_right⟩
    rw [if_neg (mt List.isEmpty_iff.mp hempty)] at hrun ⊢
    by_cases hempty' : (p'.next root dt tally').encounter.enemies = []
    · -- the detachment is destroyed, and its run does not see how the wave's goes on
      rw [if_pos (List.isEmpty_iff.mpr hempty')]
      obtain ⟨m, -, hmirrors⟩ := runMore_rule
        (P := fun _ q => Mirrors ids (p'.next root dt tally').concluded q)
        (fun _ _ _ hq hok => hq.idle hroot hempty' hok) (fun _ _ hq _ => hq.concluded_right)
        (k := 0) hnext.concluded_left hrun
      exact ⟨rfl, hmirrors⟩
    · -- both go on, at the same clock
      rw [if_neg (mt List.isEmpty_iff.mp hempty')]
      exact ih hnext hclock hrun

end Progress.Mirrors

/-- **A detachment run alone** does what it does within its wave. If the wave's run ends well so
does the detachment's. The same enemies are left, with the same boards. The summary and the log have
what the wave's have of these enemies. -/
theorem run_detachment {root : Enemy.EnemyNode} (hroot : Enemy.IsEnemyTree root)
    {wave detachment : Encounter} (distinct : (wave.enemies.map enemyId).Nodup)
    (part : detachment.enemies.Sublist wave.enemies) (clock : InStep detachment wave)
    (traced : wave.trace = some .empty) (traced' : detachment.trace = some .empty)
    (steps : UInt64) (dt : Float32) {s : Summary} (ok : (wave.run root steps dt).summary = .ok s) :
    ∃ s', (detachment.run root steps dt).summary = .ok s' ∧
      (detachment.run root steps dt).encounter.enemies =
        (wave.run root steps dt).encounter.enemies.filter
          (enemyId · ∈ detachment.enemies.map enemyId) ∧
      s'.seekSteps = s.seekSteps.filter (·.1 ∈ detachment.enemies.map enemyId) ∧
      s'.reaped = (reapedIds (wave.run root steps dt).journal.toList).countP
        (· ∈ detachment.enemies.map enemyId) ∧
      ∃ log' log, (detachment.run root steps dt).encounter.trace = some log' ∧
        (wave.run root steps dt).encounter.trace = some log ∧
        ∀ id ∈ detachment.enemies.map enemyId, log'.forAgent id = log.forAgent id := by
  obtain ⟨p, hrun, hencounter, hjournal, rfl⟩ := run_eq_of_ok ok
  have hbegin : Progress.Mirrors (detachment.enemies.map enemyId) detachment.beginning
      wave.beginning :=
    { part := ⟨eq_detached_of_sublist part distinct, .empty, .empty, traced', traced, rfl⟩
      ordered := Summary.ordered_nil
      seekSteps := rfl
      reaped := rfl }
  -- both begin with nothing counted and an empty log
  have hended : (runMore root dt steps.toNat wave.beginning).2 = none := by rw [hrun]
  have hend := hbegin.runMore hroot clock hended
  rcases hrun' : runMore root dt steps.toNat detachment.beginning with ⟨p', fault⟩
  rw [hrun, hrun'] at hend
  obtain ⟨rfl, hmirrors⟩ : fault = none ∧ Progress.Mirrors _ p' p := hend
  rw [run_of_runMore hrun', hencounter, hjournal]
  obtain ⟨log', log, htrace', htrace, hlog⟩ := hmirrors.part.logged
  refine ⟨_, rfl, hmirrors.part.enemies, hmirrors.seekSteps, hmirrors.reaped, log', log, htrace',
    htrace, ?_⟩
  intro id hid
  rw [Trace.Log.forAgent, Trace.Log.forAgent, hlog, List.filter_filter]
  refine List.filter_congr ?_
  intro ev _
  -- an event of the enemy is an event of the detachment
  by_cases hev : ev.agent = id
  · rw [hev, decide_eq_true hid, Bool.and_true]
  · rw [beq_false_of_ne hev, Bool.false_and]

/-- Two enemies right at the target, of which the second one is too strong for the weapon. -/
def unequalPair : Encounter :=
  let weak := spawnEnemy pointBlank 1 7 true 0
  let body := { weak.board.body with id := 1, health := 5000 }
  { spawn pointBlank 0 7 true with
    enemies := [weak, { weak with board := { weak.board with body := body } }] }

/-- The second enemy alone. -/
def strongOne : Encounter :=
  { unequalPair with enemies := unequalPair.enemies.tail }

set_option maxRecDepth 8000 in
/-- The second enemy alone survives, as it does beside the first one. -/
theorem run_strongOne :
    ∃ s', (strongOne.run (Enemy.labeledTree .usual) 1 1).summary = .ok s' ∧
      s'.seekSteps = [(1, 1)] ∧ s'.reaped = 0 ∧
      ∃ log' log, (strongOne.run (Enemy.labeledTree .usual) 1 1).encounter.trace = some log' ∧
        (unequalPair.run (Enemy.labeledTree .usual) 1 1).encounter.trace = some log ∧
        log'.forAgent 1 = log.forAgent 1 := by
  have htally : (unequalPair.step (Enemy.labeledTree .usual) 1).tally = .ok ⟨1, 1, 1, 0, 0⟩ := rfl
  -- the first enemy falls in the only step, and the second one seeks
  have hrun : (unequalPair.run (Enemy.labeledTree .usual) 1 1).summary =
      .ok ⟨1, 2, 1, 1, [(1, 1)]⟩ := by
    rw [run, show (1 : UInt64).toNat = 0 + 1 from rfl]
    rw [runMore_succ (p := ⟨unequalPair, _, _⟩) htally]
    rfl
  have hdistinct : (unequalPair.enemies.map enemyId).Nodup := by decide
  have hpart : strongOne.enemies.Sublist unequalPair.enemies :=
    List.tail_sublist unequalPair.enemies
  have hclock : InStep strongOne unequalPair := ⟨rfl, rfl⟩
  obtain ⟨s', hs', -, hseek, hreaped, log', log, htrace', htrace, hlog⟩ :=
    run_detachment (.labeled .usual) hdistinct hpart hclock rfl rfl 1 1 hrun
  refine ⟨s', hs', hseek, ?_, log', log, htrace', htrace, hlog 1 (by decide)⟩
  rw [hreaped]
  rw [run, show (1 : UInt64).toNat = 0 + 1 from rfl]
  rw [runMore_succ (p := ⟨unequalPair, _, _⟩) htally]
  rfl

end Encounter

end Skirmish
