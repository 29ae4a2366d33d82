import Skirmish.Proofs.Enemy.Lives
import Skirmish.Proofs.Numeric.Sums

/-!
# Coming into view and going out of it

Whether the target is in view is a flag that every tick of a living enemy reads and writes. Which
limit counts depends on the flag, and between the limits it stays as it was.

* `Moment.Looks` — what a tick does to the flag, and what it notes;
* `looks_of_run` — every tick that ends with a status does this;
* `Life.looks` and `Life.flag_eq_of_band` — a whole life, tick after tick;
* `detects_of_detects` — the limit for what was seen is not below the other one;
* `Life.flips` — the changes are noted as they occur, so they take turns;
* `dead_band` — all of this together.

The flag is written by ticks and by nothing else, so from one tick to the next it is what the last
one left. That the limits are in order is a fact about sums: adding a hysteresis that is not
negative does not lower a vision radius, rounded or not.
-/

namespace Skirmish.Enemy

open Skirmish.Tree (Record Status)

/-- The change of view that a note is about: whose it is, and to what. -/
def Note.change? : Note → Option (UInt64 × Bool)
  | detectionChanged enemy detected => some (enemy, detected)
  | waypointChosen .. => none

/-- The changes that were noted in a tick. -/
def Moment.changes (m : Moment) : List (UInt64 × Bool) :=
  m.notes.filterMap Note.change?

/-- **The changes that were noted so far,** in order. -/
def changes (past : List Moment) : List (UInt64 × Bool) :=
  past.flatMap Moment.changes

theorem changes_concat (past : List Moment) (m : Moment) :
    changes (past ++ [m]) = changes past ++ m.changes := by
  rw [changes, List.flatMap_append, List.flatMap_singleton, changes]

/-! ### One tick -/

/-- **What a tick does to the flag.** A living enemy looks, a dead one does not, and a change is
noted. -/
structure Moment.Looks (m : Moment) : Prop where
  /-- The flag afterwards is what the enemy found, if it lives. -/
  flag : m.after.memory.detected =
    if m.before.body.isAlive then m.before.sees else m.before.memory.detected
  /-- It is noted if it is new. -/
  changes : m.changes =
    if m.after.memory.detected = m.before.memory.detected then []
    else [(m.before.body.id, m.after.memory.detected)]

section Tick

variable {t : Tuning.Behavior} {dt : Float32} {b b' : Board} {c : Course} {m : Moment}

theorem Goes.detected_eq (h : Goes t dt b c b') :
    b'.memory.detected = if b.body.isAlive then b.sees else b.memory.detected := by
  -- what was found is written before the waypoint is chosen, and stays
  have hunseen : (b.patrolling t).memory.detected = false := Board.headed_detected _ _
  cases h with
  | dead dead =>
    rw [isAlive_eq_false_iff.mpr dead]
    rfl
  | seek alive seen =>
    rw [isAlive_iff.mpr alive, b.sees_iff.mpr seen]
    rfl
  | turning alive unseen =>
    rw [isAlive_iff.mpr alive, b.sees_eq_false_iff.mpr unseen]
    exact hunseen
  | travelling alive unseen _ _ _ hb' | arrived alive unseen _ _ _ hb' =>
    subst hb'
    rw [isAlive_iff.mpr alive, b.sees_eq_false_iff.mpr unseen]
    exact hunseen

theorem changes_headingNotes (t : Tuning.Behavior) (b : Board) (c : Course) :
    (c.headingNotes t b).filterMap Note.change? = [] := by
  have hheading : (b.headingNotes t.patrol).filterMap Note.change? = [] := by
    unfold Board.headingNotes
    split <;> rfl
  cases c with
  | dead | seek => rfl
  | turning | travelling | arrived => exact hheading

theorem changes_sightNotes (b : Board) :
    b.sightNotes.filterMap Note.change? =
      if b.sees = b.memory.detected then [] else [(b.body.id, b.sees)] := by
  unfold Board.sightNotes
  -- there is a note exactly if the answer is new
  by_cases h : b.sees = b.memory.detected
  · rw [if_neg (not_not_intro h), if_pos h]
    rfl
  · rw [if_pos h, if_neg h]
    rfl

theorem Goes.looks (h : Goes t dt b c b') :
    (⟨b, b', c.sightNotes b ++ c.headingNotes t b⟩ : Moment).Looks := by
  refine ⟨h.detected_eq, ?_⟩
  -- only the first branch notes that something came into view or went out of it
  have hchanges : (⟨b, b', c.sightNotes b ++ c.headingNotes t b⟩ : Moment).changes =
      (c.sightNotes b).filterMap Note.change? := by
    rw [Moment.changes, List.filterMap_append, changes_headingNotes, List.append_nil]
  rw [hchanges]
  cases hb : b.body.isAlive with
  | false =>
    -- the dead find nothing and note nothing
    have hflag : b'.memory.detected = b.memory.detected := by
      rw [h.detected_eq, hb]
      rfl
    -- all other courses are for the living
    obtain rfl : c = .dead := by
      cases h with
      | dead => rfl
      | seek alive | turning alive | travelling alive | arrived alive =>
        exact absurd alive (isAlive_eq_false_iff.mp hb)
    rw [if_pos hflag]
    rfl
  | true =>
    have hflag : b'.memory.detected = b.sees := by
      rw [h.detected_eq, hb]
      rfl
    have hnotes : c.sightNotes b = b.sightNotes := by
      cases c with
      | dead => exact absurd rfl (h.ne_dead hb)
      | seek | turning | travelling | arrived => rfl
    rw [hnotes, changes_sightNotes, hflag]

theorem looks_of_run {root : EnemyNode} {trail : List (Record Note)} {s : Status}
    (hroot : root = tree t ∨ root = labeledTree t)
    (hrun : (root.tick dt).run b = ⟨b', trail, .ok s⟩) :
    (⟨b, b', trail.filterMap Record.note?⟩ : Moment).Looks := by
  obtain ⟨c, hgoes, hnotes⟩ := exists_goes_of_run hroot hrun
  rw [hnotes]
  exact hgoes.looks

/-! ### The two limits -/

/-- The target is at a distance that an enemy who sees it still sees, and one who does not see it
does not see yet. -/
def Board.InBand (b : Board) : Prop :=
  ∃ d, b.targetDistance? = some d ∧ ¬ d ≤ b.body.visionRadius ∧
    d ≤ b.body.visionRadius + b.body.visionHysteresis

theorem Board.InBand.sees_eq (h : b.InBand) : b.sees = b.memory.detected := by
  obtain ⟨d, hd, hfar, hnear⟩ := h
  unfold Board.sees
  rw [hd]
  -- the flag picks the limit, and the distance is above the one and below the other
  cases b.memory.detected with
  | false => exact decide_eq_false hfar
  | true => exact decide_eq_true hnear

theorem Moment.Looks.flag_eq_of_band (h : m.Looks) (hband : m.before.InBand) :
    m.after.memory.detected = m.before.memory.detected := by
  rw [h.flag, hband.sees_eq, ite_self]

theorem Moment.Looks.flag_eq_of_dead (h : m.Looks) (hdead : ¬ m.before.body.health > 0) :
    m.after.memory.detected = m.before.memory.detected := by
  rw [h.flag, isAlive_eq_false_iff.mpr hdead]
  rfl

/-- **The flag is raised** exactly if the enemy lives and the target is within the vision radius. -/
theorem Moment.Looks.raises_iff (h : m.Looks) (hbefore : m.before.memory.detected = false) :
    m.after.memory.detected = true ↔
      m.before.body.health > 0 ∧
        ∃ d, m.before.targetDistance? = some d ∧ d ≤ m.before.body.visionRadius := by
  by_cases halive : m.before.body.health > 0
  · -- the flag is down, so the narrow limit counts
    rw [h.flag, isAlive_iff.mpr halive, if_pos rfl, Board.sees_iff, Board.Sees, hbefore]
    exact (and_iff_right halive).symm
  · -- the dead raise nothing
    rw [h.flag_eq_of_dead halive, hbefore]
    exact ⟨nofun, fun ⟨hpos, _⟩ => absurd hpos halive⟩

/-- **It is lowered** exactly if the enemy lives and there is no target within the wider limit. -/
theorem Moment.Looks.lowers_iff (h : m.Looks) (hbefore : m.before.memory.detected = true) :
    m.after.memory.detected = false ↔
      m.before.body.health > 0 ∧ ∀ d, m.before.targetDistance? = some d →
        ¬ d ≤ m.before.body.visionRadius + m.before.body.visionHysteresis := by
  by_cases halive : m.before.body.health > 0
  · rw [h.flag, isAlive_iff.mpr halive, if_pos rfl, Board.sees_eq_false_iff, Board.Sees, hbefore]
    -- the flag is up, so the wide limit counts; not to be seen is to have no distance within it
    refine Iff.trans ?_ (and_iff_right halive).symm
    exact ⟨fun hnot d hd hle => hnot ⟨d, hd, hle⟩, fun hall ⟨d, hd, hle⟩ => hall d hd hle⟩
  · rw [h.flag_eq_of_dead halive, hbefore]
    exact ⟨nofun, fun ⟨hpos, _⟩ => absurd hpos halive⟩

theorem detects_of_detects {body : Body} (hradius : body.visionRadius.isFinite = true)
    (hhysteresis : 0 ≤ body.visionHysteresis) {d : Float32}
    (h : detects body false (some d) = true) : detects body true (some d) = true := by
  have hnear : d ≤ body.visionRadius := of_decide_eq_true h
  -- a sum with a hysteresis that is not negative is not below the radius, rounded or not
  exact decide_eq_true (Numeric.single_le_trans hnear (Numeric.le_add hradius hhysteresis))

end Tick

/-! ### A whole life -/

section Whole

variable {Kind : Tuning.Behavior → Prop} {start b : Board} {past : List Moment} {m : Moment}

theorem Life.looks (h : Life Kind start past b) (hm : m ∈ past) : m.Looks := by
  obtain ⟨-, t, dt, c, -, hgoes, hnotes⟩ := h.exists_goes hm
  obtain ⟨b₁, b₂, notes⟩ := m
  obtain rfl : notes = c.sightNotes b₁ ++ c.headingNotes t b₁ := hnotes
  exact hgoes.looks

theorem Life.flag_eq_of_band (h : Life Kind start past b) (hband : ∀ m ∈ past, m.before.InBand) :
    b.memory.detected = start.memory.detected := by
  -- nothing but a tick writes the flag
  induction h with
  | start => rfl
  | refresh _ _ _ ih => exact ih hband
  | write _ _ _ ih => exact ih hband
  | tick _ _ hroot hrun ih =>
    have hbefore := ih fun m hm => hband m (List.mem_append_left _ hm)
    have hlast := hband _ (List.mem_append_right _ (List.mem_singleton_self _))
    exact ((looks_of_run hroot hrun).flag_eq_of_band hlast).trans hbefore

theorem Life.append {b' : Board} {stretch : List Moment} (h : Life Kind start past b)
    (hstretch : Life Kind b stretch b') : Life Kind start (past ++ stretch) b' := by
  -- by induction on the second life, which goes on where the first one ended
  induction hstretch with
  | start => exact (List.append_nil past).symm ▸ h
  | refresh _ surroundings dt ih => exact ih.refresh surroundings dt
  | write _ body target ih => exact ih.write body target
  | tick _ ht hroot hrun ih =>
    rw [← List.append_assoc]
    exact ih.tick ht hroot hrun

/-- **Changes take turns,** beginning with the target coming into view. The flag is raised after an
odd number of them. -/
theorem Life.flips (h : Life Kind start past b) (hstart : start.memory.detected = false) :
    ∃ n, (changes past).map Prod.snd = (List.range n).map (fun i => decide (i % 2 = 0)) ∧
      b.memory.detected = decide (n % 2 = 1) := by
  -- the invariant counts the changes: their values alternate, and the parity of the count is the
  -- flag
  induction h with
  | start => exact ⟨0, rfl, hstart⟩
  | refresh _ _ _ ih => exact ih
  | write _ _ _ ih => exact ih
  | @tick past b _ _ _ _ hroot _ b' _ _ hrun ih =>
    obtain ⟨n, hturns, hflag⟩ := ih
    have hlooks := looks_of_run hroot hrun
    have hchanges := hlooks.changes
    rw [changes_concat, List.map_append, hturns]
    by_cases hsame : b'.memory.detected = b.memory.detected
    · -- no change, no note
      rw [if_pos hsame] at hchanges
      refine ⟨n, ?_, hsame.trans hflag⟩
      rw [hchanges, List.map_nil, List.append_nil]
    · -- the new flag is the other one, and so is the parity
      rw [if_neg hsame] at hchanges
      have hnext : b'.memory.detected = decide (n % 2 = 0) := by
        rw [hflag] at hsame
        cases hb' : b'.memory.detected <;> rw [hb'] at hsame <;> grind
      refine ⟨n + 1, ?_, ?_⟩
      · rw [hchanges, List.range_succ, List.map_append, List.map_singleton, List.map_singleton]
        exact congrArg (_ ++ [·]) hnext
      · rw [hnext]
        grind

/-- **Detection is a dead-band filter.** Take any life of a new enemy, with ticks for any tunings.
In a tick the flag is raised exactly if the enemy lives and the target is within the vision radius,
and lowered exactly if the enemy lives and there is no target within the radius and the hysteresis
together. While the target is between the two limits, the flag stays, and the dead never change it.
If the radii are finite and the hysteresis is not negative, then any distance at which a target
comes into view is one at which it stays in view. A tick notes a change under the enemy's number
exactly if there is one. So the changes take turns, beginning with the target coming into view, and
the last one tells the flag. -/
theorem dead_band (body : Body) (target : Option Target) (seed : UInt64) (past : List Moment)
    (b : Board) (h : Life (fun _ => True) (Board.new body target seed) past b) :
    (∀ m ∈ past,
      (m.before.memory.detected = false →
        (m.after.memory.detected = true ↔ m.before.body.health > 0 ∧
          ∃ d, m.before.targetDistance? = some d ∧ d ≤ m.before.body.visionRadius)) ∧
      (m.before.memory.detected = true →
        (m.after.memory.detected = false ↔ m.before.body.health > 0 ∧
          ∀ d, m.before.targetDistance? = some d →
            ¬ d ≤ m.before.body.visionRadius + m.before.body.visionHysteresis)) ∧
      (¬ m.before.body.health > 0 → m.after.memory.detected = m.before.memory.detected) ∧
      m.changes = if m.after.memory.detected = m.before.memory.detected then []
        else [(m.before.body.id, m.after.memory.detected)]) ∧
    (∀ body : Body, body.visionRadius.isFinite = true → body.visionHysteresis.isFinite = true →
      0 ≤ body.visionHysteresis → ∀ d,
        detects body false (some d) = true → detects body true (some d) = true) ∧
    (∀ stretch b', Life (fun _ => True) b stretch b' →
      (∀ m ∈ stretch, ∃ d, m.before.targetDistance? = some d ∧ ¬ d ≤ m.before.body.visionRadius ∧
        d ≤ m.before.body.visionRadius + m.before.body.visionHysteresis) →
      b'.memory.detected = b.memory.detected) ∧
    (changes past).map Prod.snd =
      (List.range (changes past).length).map (fun i => decide (i % 2 = 0)) ∧
    b.memory.detected = ((changes past).map Prod.snd).getLast?.getD false := by
  refine ⟨?_, fun _ hradius _ hhysteresis _ => detects_of_detects hradius hhysteresis,
    fun _ _ hstretch hband => hstretch.flag_eq_of_band hband, ?_⟩
  · intro m hm
    have hlooks := h.looks hm
    exact ⟨hlooks.raises_iff, hlooks.lowers_iff, hlooks.flag_eq_of_dead, hlooks.changes⟩
  · obtain ⟨n, hturns, hflag⟩ := h.flips rfl
    -- the count of the invariant is the number of changes noted
    have hlength : (changes past).length = n := by
      have := congrArg List.length hturns
      rwa [List.length_map, List.length_map, List.length_range] at this
    refine ⟨by rw [hlength, hturns], ?_⟩
    rw [hflag, hturns]
    -- the last of an alternating row is told by its length
    cases n with
    | zero => rfl
    | succ n =>
      rw [List.range_succ, List.map_append, List.map_singleton, List.getLast?_concat,
        Option.getD_some]
      grind

/-- A new enemy, with a target three units ahead. -/
def watcher : Board :=
  .new (Tuning.Archetype.usual.spawn 5 ⟨0, 0⟩) (some ⟨⟨3, 0⟩, ⟨0, 0⟩⟩) 42

/-- An enemy whose target comes into view in its first tick and is gone in the second. The target is
back when the enemy is dead, which makes no difference. -/
theorem dead_band_watcher :
    ∃ past b, Life (fun _ => True) watcher past b ∧ past.length = 3 ∧
      (∃ m ∈ past, ¬ m.before.body.health > 0) ∧ b.memory.detected = false ∧
      (changes past).map Prod.snd = [true, false] := by
  have hticking : ∀ b : Board, b.body.turnSpeed ≠ Numeric.infinity →
      ∃ m, m.before = b ∧ Life (fun _ => True) b [m] m.after :=
    fun b hfinite => exists_tick (t := .usual) hfinite trivial 0.25
  have hfinite : watcher.body.turnSpeed ≠ Numeric.infinity := by decide
  obtain ⟨m₁, hbefore₁, hfirst⟩ := hticking watcher hfinite
  have hgone := hfirst.write watcher.body none
  obtain ⟨m₂, hbefore₂, hsecond⟩ :=
    hticking { m₁.after with body := watcher.body, target := none } hfinite
  have hdead := (hgone.append hsecond).write { watcher.body with health := 0 } watcher.target
  obtain ⟨m₃, hbefore₃, hthird⟩ :=
    hticking
      { m₂.after with body := { watcher.body with health := 0 }, target := watcher.target } hfinite
  obtain ⟨hticks, -⟩ := dead_band _ _ _ _ _ (hdead.append hthird)
  obtain ⟨hraises, -, -, hnoted₁⟩ := hticks m₁ (by simp)
  obtain ⟨-, hlowers, -, hnoted₂⟩ := hticks m₂ (by simp)
  obtain ⟨-, -, hstays, hnoted₃⟩ := hticks m₃ (by simp)
  rw [hbefore₁] at hraises hnoted₁
  rw [hbefore₂] at hlowers hnoted₂
  rw [hbefore₃] at hstays hnoted₃
  have halive : watcher.body.health > 0 := by decide
  have hkilled : ¬ (0 : Float32) > 0 := by decide
  -- the distance is three, and the vision radius is 700
  have hnear : ∃ d, watcher.targetDistance? = some d ∧ d ≤ watcher.body.visionRadius :=
    ⟨_, rfl, by decide +kernel⟩
  have hflag₁ : m₁.after.memory.detected = true := (hraises rfl).mpr ⟨halive, hnear⟩
  have hflag₂ : m₂.after.memory.detected = false := (hlowers hflag₁).mpr ⟨halive, nofun⟩
  have hflag₃ : m₃.after.memory.detected = false := (hstays hkilled).trans hflag₂
  have hunseen : watcher.memory.detected = false := rfl
  refine ⟨_, _, hdead.append hthird, rfl, ⟨m₃, by simp, ?_⟩, hflag₃, ?_⟩
  · rw [hbefore₃]
    exact hkilled
  · simp only [changes, List.flatMap_append, List.flatMap_singleton, hnoted₁, hnoted₂, hnoted₃,
      hflag₁, hflag₂, hflag₃, hunseen]
    rfl

end Whole

end Skirmish.Enemy
