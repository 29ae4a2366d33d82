import Skirmish.Proofs.Encounter.Detachment

/-!
# Runs one after another

A run is nothing but steps, so it can be interrupted and taken up again, as long as somebody is
left. A run that has emptied the encounter is not taken up: the next one would make a step before it
finds that nobody is left.

* `Encounter.afterSteps` — the encounter after so many steps;
* `Encounter.StopsAfter` — where a run stops;
* `Summary.Gain` — what the steps of a run add to a summary, whatever it said before;
* `Encounter.runMore_cases` — a run is given by where it stops and by its gain;
* `Encounter.runMore_add` — a run goes on where a shorter one ended, and so `Encounter.run_add`;
* `Summary.Joins` — a summary that counts what two others count;
* `Encounter.run_composes` — both facts, for whole runs.

That the gain does not depend on the summary it is added to carries the second half: the longer run
adds it to what the first run has counted, and the second run adds the same to nothing.
-/

namespace Skirmish

/-! ### Summaries -/

namespace Summary

/-- What some steps add to a summary. -/
structure Gain where
  /-- The steps made. -/
  steps : Nat
  /-- The enemies removed. -/
  reaped : Nat
  /-- The enemies after the target, once for each step that they spent so. -/
  seekers : List UInt64

/-- A summary with what was gained. -/
def gaining (g : Gain) (s : Summary) : Summary :=
  { s with
    steps := s.steps + UInt64.ofNat g.steps
    reaped := s.reaped + g.reaped
    seekSteps := creditAll g.seekers s.seekSteps }

theorem gaining_nothing (s : Summary) : s.gaining ⟨0, 0, []⟩ = s := by
  have hsteps : s.steps + UInt64.ofNat 0 = s.steps := UInt64.add_zero _
  unfold gaining
  rw [hsteps]
  rfl

/-- What a step gains, and what is gained after it. -/
theorem gaining_afterStep (g : Gain) (s : Summary) (reaped : Nat)
    (enemies : List (Tree.Agent Enemy.Board)) :
    (s.afterStep (s.steps + 1) reaped enemies).gaining g =
      s.gaining ⟨g.steps + 1, reaped + g.reaped, seekers enemies ++ g.seekers⟩ := by
  have hsteps : s.steps + 1 + UInt64.ofNat g.steps = s.steps + UInt64.ofNat (g.steps + 1) := by
    rw [UInt64.ofNat_add, UInt64.add_assoc, UInt64.add_comm 1]
    rfl
  have hseek : creditAll g.seekers (creditAll (seekers enemies) s.seekSteps) =
      creditAll (seekers enemies ++ g.seekers) s.seekSteps :=
    List.foldl_append.symm
  unfold gaining
  rw [seekSteps_afterStep, hseek, ← hsteps, ← Nat.add_assoc]
  rfl

/-- **A summary of two runs together.** An enemy that both found after the target has the sum of its
two entries, and one that only one of them found so has that entry. -/
structure Joins (first second both : Summary) : Prop where
  /-- The steps of both were made. -/
  steps : both.steps = first.steps + second.steps
  /-- It began as the first one did. -/
  spawned : both.spawned = first.spawned
  /-- It ended as the second one did. -/
  survivors : both.survivors = second.survivors
  /-- What either removed was removed. -/
  reaped : both.reaped = first.reaped + second.reaped
  /-- The table is in order, so an enemy has one entry. -/
  ordered : Ordered both.seekSteps
  /-- The entries are added up. -/
  seekSteps : ∀ id, both.seekSteps.lookup id =
    Option.merge (· + ·) (first.seekSteps.lookup id) (second.seekSteps.lookup id)

/-- The entry for two stretches is the sum of the entries, where there are two. -/
theorem entryFor_add (n m : Nat) :
    entryFor (n + m) = Option.merge (· + ·) (entryFor n) (entryFor m) := by
  -- no entry is the count zero, which adds nothing
  cases n with
  | zero =>
    rw [Nat.zero_add]
    cases m <;> rfl
  | succ n =>
    cases m with
    | zero => rfl
    | succ m =>
      rw [show n + 1 + (m + 1) = n + 1 + m + 1 from rfl, entryFor, entryFor, entryFor,
        Option.merge, ← UInt64.ofNat_add]
      rfl

/-- What one run gained and then another gains is what they gain in summaries of their own. -/
theorem joins_gaining (spawned between survivors : Nat) (g₁ g₂ : Gain) :
    Joins { (start spawned).gaining g₁ with survivors := between }
      { (start between).gaining g₂ with survivors := survivors }
      { ((start spawned).gaining g₁).gaining g₂ with survivors := survivors } := by
  have hstart : ∀ g : Gain, ∀ n, ((start n).gaining g).steps = UInt64.ofNat g.steps :=
    fun g n => UInt64.zero_add _
  have hlookup : ∀ (g : Gain) (id : UInt64),
      (creditAll g.seekers []).lookup id = entryFor (g.seekers.count id) := by
    intro g id
    rw [lookup_creditAll (n := 0) ordered_nil rfl, Nat.zero_add]
  refine ⟨?_, rfl, rfl, ?_, (ordered_nil.creditAll g₁.seekers).creditAll g₂.seekers, ?_⟩
  · change ((start spawned).gaining g₁).steps + UInt64.ofNat g₂.steps = _
    rw [← hstart g₂ between]
  · change 0 + g₁.reaped + g₂.reaped = 0 + g₁.reaped + (0 + g₂.reaped)
    omega
  · intro id
    change (creditAll g₂.seekers (creditAll g₁.seekers [])).lookup id =
      Option.merge (· + ·) ((creditAll g₁.seekers []).lookup id)
        ((creditAll g₂.seekers []).lookup id)
    rw [lookup_creditAll (ordered_nil.creditAll g₁.seekers) (hlookup g₁ id), hlookup, hlookup,
      entryFor_add]

end Summary

namespace Encounter

open Skirmish.Tree (Fault Tally)

variable {root : Enemy.EnemyNode} {dt : Float32} {e : Encounter} {n m k : Nat} {p : Progress}

/-! ### Steps -/

/-- **The encounter after some steps** of the same duration. -/
def afterSteps (root : Enemy.EnemyNode) (dt : Float32) : Nat → Encounter → Encounter
  | 0, e => e
  | k + 1, e => afterSteps root dt k (e.step root dt).encounter

/-- **Where a run of at most `n` steps stops:** after the first step that leaves nobody, or after
all steps. The steps are counted from one, so an encounter that is empty from the start does not
count. -/
structure StopsAfter (root : Enemy.EnemyNode) (dt : Float32) (e : Encounter) (n k : Nat) :
    Prop where
  /-- No more steps are made than were asked for. -/
  within : k ≤ n
  /-- Every step that is made completes. -/
  completed : ∀ j < k, ∃ tally, ((e.afterSteps root dt j).step root dt).tally = .ok tally
  /-- Somebody is left after each of them but the last. -/
  populated : ∀ j, 0 < j → j < k → (e.afterSteps root dt j).enemies ≠ []
  /-- After the last one nobody is left, unless all steps were made. -/
  ended : k = n ∨ 0 < k ∧ (e.afterSteps root dt k).enemies = []

theorem stopsAfter_zero : StopsAfter root dt e 0 0 :=
  ⟨Nat.le_refl 0, fun _ h => absurd h (Nat.not_lt_zero _),
    fun _ _ h => absurd h (Nat.not_lt_zero _), .inl rfl⟩

theorem stopsAfter_one {tally : Tally} (h : (e.step root dt).tally = .ok tally)
    (empty : (e.step root dt).encounter.enemies = []) : StopsAfter root dt e (n + 1) 1 := by
  refine ⟨by omega, ?_, fun j _ _ => by omega, .inr ⟨Nat.one_pos, empty⟩⟩
  intro j hj
  obtain rfl : j = 0 := by omega
  exact ⟨tally, h⟩

/-- After a step that leaves somebody, the rest of the run decides. -/
theorem StopsAfter.succ {tally : Tally} (h : (e.step root dt).tally = .ok tally)
    (left : (e.step root dt).encounter.enemies ≠ [])
    (hrest : StopsAfter root dt (e.step root dt).encounter n k) :
    StopsAfter root dt e (n + 1) (k + 1) := by
  refine ⟨Nat.succ_le_succ hrest.within, ?_, ?_, ?_⟩
  · intro j hj
    cases j with
    | zero => exact ⟨tally, h⟩
    | succ j => exact hrest.completed j (Nat.lt_of_succ_lt_succ hj)
  · intro j _ hj
    -- the step after which somebody is left is the first one here, and none of the rest
    match j with
    | 1 => exact left
    | j + 2 => exact hrest.populated (j + 1) (Nat.succ_pos j) (Nat.lt_of_succ_lt_succ hj)
  · obtain rfl | ⟨-, hempty⟩ := hrest.ended
    · exact .inl rfl
    · exact .inr ⟨Nat.succ_pos k, hempty⟩

theorem StopsAfter.exists_succ (h : StopsAfter root dt e (n + 1) k) : ∃ j, k = j + 1 := by
  obtain rfl | ⟨hpos, -⟩ := h.ended
  · exact ⟨n, rfl⟩
  · exact Nat.exists_eq_add_one.mpr hpos

/-- The rest of a run stops where the run stops. -/
theorem StopsAfter.tail (h : StopsAfter root dt e (n + 1) (k + 1))
    (left : (e.step root dt).encounter.enemies ≠ []) :
    StopsAfter root dt (e.step root dt).encounter n k := by
  refine ⟨Nat.le_of_succ_le_succ h.within, fun j hj => h.completed (j + 1) (Nat.succ_lt_succ hj),
    fun j _ hj => h.populated (j + 1) (Nat.succ_pos j) (Nat.succ_lt_succ hj), ?_⟩
  obtain hk | ⟨-, hempty⟩ := h.ended
  · exact .inl (Nat.succ.inj hk)
  · -- somebody was left after the first step, so it was not the last
    refine .inr ⟨Nat.pos_of_ne_zero ?_, hempty⟩
    rintro rfl
    exact left hempty

/-! ### Runs -/

theorem runMore_of_nobody {tally : Tally} (h : (p.encounter.step root dt).tally = .ok tally)
    (nobody : (p.encounter.step root dt).encounter.enemies = []) :
    runMore root dt (n + 1) p = ((p.next root dt tally).concluded, none) := by
  rw [runMore_succ h]
  exact if_pos (List.isEmpty_iff.mpr nobody)

theorem runMore_of_somebody {tally : Tally} (h : (p.encounter.step root dt).tally = .ok tally)
    (somebody : (p.encounter.step root dt).encounter.enemies ≠ []) :
    runMore root dt (n + 1) p = runMore root dt n (p.next root dt tally) := by
  rw [runMore_succ h]
  exact if_neg (mt List.isEmpty_iff.mp somebody)

/-- **A run is where it stops and what it gains,** or else it ends with a fault. Neither depends on
the summary and the journal that it goes on with. -/
theorem runMore_cases (root : Enemy.EnemyNode) (dt : Float32) (n : Nat) (e : Encounter) :
    ((∃ fault, ∀ p : Progress, p.encounter = e → (runMore root dt n p).2 = some fault) ∧
      ∀ k, ¬ StopsAfter root dt e n k) ∨
    ∃ k reaped seekers, StopsAfter root dt e n k ∧ ∀ p : Progress, p.encounter = e →
      (runMore root dt n p).2 = none ∧
      (runMore root dt n p).1.encounter = e.afterSteps root dt k ∧
      (runMore root dt n p).1.summary = p.summary.gaining ⟨k, reaped, seekers⟩ := by
  -- on the steps asked for, for every encounter; the first step decides whether the run fails,
  -- stops or goes on
  induction n generalizing e with
  | zero =>
    refine .inr ⟨0, 0, [], stopsAfter_zero, ?_⟩
    rintro p rfl
    exact ⟨rfl, rfl, (Summary.gaining_nothing _).symm⟩
  | succ n ih =>
    cases htally : (e.step root dt).tally with
    | error fault =>
      refine .inl ⟨⟨fault, ?_⟩, ?_⟩
      · rintro p rfl
        exact runMore_fault htally
      · -- the step would have to be made
        intro k hk
        obtain ⟨j, rfl⟩ := hk.exists_succ
        obtain ⟨tally, hok⟩ := hk.completed 0 (Nat.succ_pos j)
        exact absurd (htally.symm.trans hok) (by simp)
    | ok tally =>
      by_cases hempty : (e.step root dt).encounter.enemies = []
      · -- the first step is the last
        refine .inr ⟨1, tally.reaped, Summary.seekers (e.step root dt).encounter.enemies,
          stopsAfter_one htally hempty, ?_⟩
        rintro p rfl
        have hgain := Summary.gaining_afterStep ⟨0, 0, []⟩ p.summary tally.reaped
          (p.encounter.step root dt).encounter.enemies
        rw [Summary.gaining_nothing, List.append_nil] at hgain
        rw [runMore_of_nobody htally hempty]
        exact ⟨rfl, rfl, hgain⟩
      · -- what the others gain is gained on top of it
        obtain ⟨⟨fault, hfault⟩, hnever⟩ | ⟨k, reaped, seekers, hstops, hrun⟩ :=
          ih (e.step root dt).encounter
        · refine .inl ⟨⟨fault, ?_⟩, ?_⟩
          · rintro p rfl
            rw [runMore_of_somebody htally hempty]
            exact hfault _ rfl
          · intro k hk
            obtain ⟨j, rfl⟩ := hk.exists_succ
            exact hnever j (hk.tail hempty)
        · refine .inr ⟨k + 1, tally.reaped + reaped,
            Summary.seekers (e.step root dt).encounter.enemies ++ seekers,
            hstops.succ htally hempty, ?_⟩
          rintro p rfl
          obtain ⟨hnone, hencounter, hsummary⟩ := hrun (p.next root dt tally) rfl
          rw [runMore_of_somebody htally hempty]
          exact ⟨hnone, hencounter, hsummary.trans (Summary.gaining_afterStep _ _ _ _)⟩

theorem runMore_add (h : (runMore root dt n p).2 = none)
    (left : m = 0 ∨ (runMore root dt n p).1.encounter.enemies ≠ []) :
    runMore root dt (n + m) p = runMore root dt m (runMore root dt n p).1 := by
  obtain rfl | left := left
  · exact Prod.ext rfl h
  -- on the steps of the shorter run, which the longer one makes too
  induction n generalizing p with
  | zero => rw [Nat.zero_add, runMore]
  | succ n ih =>
    obtain ⟨tally, htally⟩ := exists_tally_of_runMore h
    rw [Nat.add_right_comm]
    by_cases hempty : (p.encounter.step root dt).encounter.enemies = []
    · -- the shorter run ended here because nobody was left
      rw [runMore_of_nobody htally hempty] at left
      exact absurd hempty left
    · rw [runMore_of_somebody htally hempty] at h left ⊢
      rw [runMore_of_somebody htally hempty]
      exact ih h left

theorem runMore_add_fault {fault : Fault} (h : (runMore root dt n p).2 = some fault) (m : Nat) :
    (runMore root dt (n + m) p).2 = some fault := by
  induction n generalizing p with
  | zero => cases h
  | succ n ih =>
    rw [Nat.add_right_comm]
    -- the fault is met in this step by both, or in a later one by induction
    cases htally : (p.encounter.step root dt).tally with
    | error fault' =>
      rw [← h, runMore_fault htally, runMore_fault htally]
    | ok tally =>
      by_cases hempty : (p.encounter.step root dt).encounter.enemies = []
      · rw [runMore_of_nobody htally hempty] at h
        cases h
      · rw [runMore_of_somebody htally hempty] at h ⊢
        exact ih h

/-- A run with its summary is a run of its steps that ends well. -/
theorem run_ok_iff {steps : UInt64} :
    (∃ s, (e.run root steps dt).summary = .ok s) ↔
      (runMore root dt steps.toNat e.beginning).2 = none := by
  refine ⟨?_, ?_⟩
  · rintro ⟨s, hs⟩
    obtain ⟨p, hrun, -⟩ := run_eq_of_ok hs
    rw [hrun]
  · intro hnone
    exact ⟨_, congrArg Ran.summary (run_of_runMore (Prod.ext rfl hnone))⟩

theorem not_exists_ok_of_fault {steps : UInt64} {fault : Fault}
    (h : (runMore root dt steps.toNat e.beginning).2 = some fault) :
    ¬ ∃ s, (e.run root steps dt).summary = .ok s := by
  rw [run_ok_iff, h]
  exact nofun

theorem run_eq_of_none {steps : UInt64}
    (h : (runMore root dt steps.toNat e.beginning).2 = none) :
    e.run root steps dt =
      ⟨(runMore root dt steps.toNat e.beginning).1.encounter,
        (runMore root dt steps.toNat e.beginning).1.journal,
        .ok { (runMore root dt steps.toNat e.beginning).1.summary with
          survivors := (runMore root dt steps.toNat e.beginning).1.encounter.enemies.length }⟩ :=
  run_of_runMore (Prod.ext rfl h)

/-- **A run makes the steps up to the first one that leaves nobody,** or all steps, and counts them.
It gives a summary exactly if these steps complete. -/
theorem run_stops (root : Enemy.EnemyNode) (dt : Float32) (e : Encounter) (n : UInt64) :
    ((∃ s, (e.run root n dt).summary = .ok s) ↔ ∃ k, StopsAfter root dt e n.toNat k) ∧
      ∀ s, (e.run root n dt).summary = .ok s →
        StopsAfter root dt e n.toNat s.steps.toNat ∧
        (e.run root n dt).encounter = e.afterSteps root dt s.steps.toNat := by
  -- either the run fails and stops nowhere, or it stops after `k` steps
  obtain ⟨⟨fault, hfault⟩, hnever⟩ | ⟨k, reaped, seekers, hstops, hrun⟩ :=
    runMore_cases root dt n.toNat e
  · have hnot := not_exists_ok_of_fault (hfault e.beginning rfl)
    exact ⟨iff_of_false hnot fun ⟨k, hk⟩ => hnever k hk, fun s hs => absurd ⟨s, hs⟩ hnot⟩
  · obtain ⟨hnone, hencounter, hsummary⟩ := hrun e.beginning rfl
    refine ⟨iff_of_true (run_ok_iff.mpr hnone) ⟨k, hstops⟩, ?_⟩
    intro s hs
    rw [run_eq_of_none hnone] at hs ⊢
    -- the steps are counted in 64 bits, which is enough for those that were asked for
    have hsteps : s.steps.toNat = k := by
      rw [← Except.ok.inj hs, hsummary]
      change (0 + UInt64.ofNat k).toNat = k
      rw [UInt64.zero_add, UInt64.toNat_ofNat']
      exact Nat.mod_eq_of_lt (Nat.lt_of_le_of_lt hstops.within n.toNat_lt)
    rw [hsteps]
    exact ⟨hstops, hencounter⟩

/-- **A run that is taken up again.** The two runs are one of all the steps, and they complete
exactly if that one does. -/
theorem run_add {n m : UInt64} (fits : n.toNat + m.toNat < UInt64.size)
    (left : m = 0 ∨ (e.run root n dt).encounter.enemies ≠ []) :
    ((∃ s, (e.run root (n + m) dt).summary = .ok s) ↔
      (∃ s₁, (e.run root n dt).summary = .ok s₁) ∧
        ∃ s₂, ((e.run root n dt).encounter.run root m dt).summary = .ok s₂) ∧
    ∀ s₁ s₂, (e.run root n dt).summary = .ok s₁ →
      ((e.run root n dt).encounter.run root m dt).summary = .ok s₂ →
      (e.run root (n + m) dt).encounter =
        ((e.run root n dt).encounter.run root m dt).encounter ∧
      ∃ s, (e.run root (n + m) dt).summary = .ok s ∧ Summary.Joins s₁ s₂ s := by
  have hsum : (n + m).toNat = n.toNat + m.toNat := by
    rw [UInt64.toNat_add]
    exact Nat.mod_eq_of_lt fits
  obtain ⟨⟨fault, hfault⟩, -⟩ | ⟨k₁, reaped₁, seekers₁, -, hrun₁⟩ :=
    runMore_cases root dt n.toNat e
  · -- the first run ends with a fault, and so does the one of all steps
    have hended := hfault e.beginning rfl
    have hnot := not_exists_ok_of_fault hended
    have hwhole : ¬ ∃ s, (e.run root (n + m) dt).summary = .ok s :=
      not_exists_ok_of_fault (hsum ▸ runMore_add_fault hended m.toNat)
    exact ⟨iff_of_false hwhole fun h => hnot h.1, fun s₁ _ h => absurd ⟨s₁, h⟩ hnot⟩
  obtain ⟨hnone₁, -, hsummary₁⟩ := hrun₁ e.beginning rfl
  rw [run_eq_of_none hnone₁] at left ⊢
  -- the run of all steps goes on where the first one ended
  have hwhole := runMore_add hnone₁ (left.imp_left (congrArg UInt64.toNat))
  rw [← hsum] at hwhole
  -- only what the first run has come to matters from here on
  revert hsummary₁ hwhole
  generalize (runMore root dt n.toNat e.beginning).1 = p
  intro hsummary₁ hwhole
  obtain ⟨⟨fault, hfault⟩, -⟩ | ⟨k₂, reaped₂, seekers₂, -, hrun₂⟩ :=
    runMore_cases root dt m.toNat p.encounter
  · have hnot := not_exists_ok_of_fault (hfault p.encounter.beginning rfl)
    have hwhole : ¬ ∃ s, (e.run root (n + m) dt).summary = .ok s :=
      not_exists_ok_of_fault (hwhole ▸ hfault p rfl)
    exact ⟨iff_of_false hwhole fun h => hnot h.2, fun _ s₂ _ h => absurd ⟨s₂, h⟩ hnot⟩
  · -- the second run gains the same, whether it counts on or from the beginning
    obtain ⟨hnone₂, hencounter₂, hsummary₂⟩ := hrun₂ p.encounter.beginning rfl
    obtain ⟨hnone, hencounter, hsummary⟩ := hrun₂ p rfl
    rw [← hwhole] at hnone hencounter hsummary
    rw [run_eq_of_none hnone, run_eq_of_none hnone₂, hencounter, hencounter₂]
    refine ⟨⟨fun _ => ⟨⟨_, rfl⟩, _, rfl⟩, fun _ => ⟨_, rfl⟩⟩, ?_⟩
    intro s₁ s₂ h₁ h₂
    refine ⟨rfl, _, rfl, ?_⟩
    rw [← Except.ok.inj h₁, ← Except.ok.inj h₂, hsummary, hsummary₂, hsummary₁]
    exact Summary.joins_gaining _ _ _ _ _

/-- **Runs compose.** A run makes the steps up to the first one that leaves nobody, or all steps,
and counts them; it gives a summary exactly if these steps complete. If somebody is left after it,
or nothing more is to be done, then another run leaves the encounter as one run of all the steps
does, and the two summaries together are the summary of that run. -/
theorem run_composes (root : Enemy.EnemyNode) (dt : Float32) (e : Encounter) :
    (∀ n, ((∃ s, (e.run root n dt).summary = .ok s) ↔ ∃ k, StopsAfter root dt e n.toNat k) ∧
      ∀ s, (e.run root n dt).summary = .ok s →
        StopsAfter root dt e n.toNat s.steps.toNat ∧
        (e.run root n dt).encounter = e.afterSteps root dt s.steps.toNat) ∧
    ∀ n m, n.toNat + m.toNat < UInt64.size →
      m = 0 ∨ (e.run root n dt).encounter.enemies ≠ [] →
      ((∃ s, (e.run root (n + m) dt).summary = .ok s) ↔
        (∃ s₁, (e.run root n dt).summary = .ok s₁) ∧
          ∃ s₂, ((e.run root n dt).encounter.run root m dt).summary = .ok s₂) ∧
      ∀ s₁ s₂, (e.run root n dt).summary = .ok s₁ →
        ((e.run root n dt).encounter.run root m dt).summary = .ok s₂ →
        (e.run root (n + m) dt).encounter =
          ((e.run root n dt).encounter.run root m dt).encounter ∧
        ∃ s, (e.run root (n + m) dt).summary = .ok s ∧ Summary.Joins s₁ s₂ s :=
  ⟨run_stops root dt e, fun _ _ fits left => run_add fits left⟩

/-- Of two enemies one is destroyed in the first run, and the other one is left for the second. -/
theorem run_composes_unequalPair :
    (1 : UInt64).toNat + (1 : UInt64).toNat < UInt64.size ∧
    (unequalPair.run (Enemy.tree .usual) 1 1).encounter.enemies ≠ [] ∧
    (unequalPair.run (Enemy.tree .usual) (1 + 1) 1).encounter =
      ((unequalPair.run (Enemy.tree .usual) 1 1).encounter.run (Enemy.tree .usual) 1 1).encounter ∧
    ∃ s, (unequalPair.run (Enemy.tree .usual) (1 + 1) 1).summary = .ok s ∧
      Summary.Joins ⟨1, 2, 1, 1, [(1, 1)]⟩ ⟨1, 1, 1, 0, [(1, 1)]⟩ s := by
  have hfirst : (unequalPair.run (Enemy.tree .usual) 1 1).summary =
      .ok ⟨1, 2, 1, 1, [(1, 1)]⟩ := ok_of_toOption (by decide +kernel)
  -- the entries of the survivor are added up in the end
  have hsecond : ((unequalPair.run (Enemy.tree .usual) 1 1).encounter.run
      (Enemy.tree .usual) 1 1).summary = .ok ⟨1, 1, 1, 0, [(1, 1)]⟩ :=
    ok_of_toOption (by decide +kernel)
  have hleft : (unequalPair.run (Enemy.tree .usual) 1 1).encounter.enemies ≠ [] := by
    have hsome : (unequalPair.run (Enemy.tree .usual) 1 1).encounter.enemies.isEmpty = false := by
      decide +kernel
    simpa using hsome
  have hfits : (1 : UInt64).toNat + (1 : UInt64).toNat < UInt64.size := by decide
  obtain ⟨-, hcomposes⟩ := run_composes (Enemy.tree .usual) 1 unequalPair
  obtain ⟨-, hjoins⟩ := hcomposes 1 1 hfits (.inr hleft)
  exact ⟨hfits, hleft, hjoins _ _ hfirst hsecond⟩

end Encounter

end Skirmish
