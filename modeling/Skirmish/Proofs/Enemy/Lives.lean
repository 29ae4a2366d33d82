import Skirmish.Proofs.Enemy.Refinement

/-!
# Lives of an enemy

Between two ticks a board is refreshed, and others may write to it: the weapon takes health, a
collision moves the body, the target is replaced. A life is any sequence of all of these. What an
enemy remembers of its patrol changes in ticks only, and there in one of two ways.

* `Life` — the boards that a start leads to, with all the ticks on the way (`Moment`);
* `Board.Patrols` — whether a tick of the board is one on patrol;
* `Moment.Keeps` and `Moment.Chooses` — the waypoint stays in a tick, or a new one is chosen;
* `Life.exists_goes` — every tick of a life takes a course, whichever tree it is of;
* `Life.keeps_or_chooses` — there is nothing else, and it is chosen only on patrol and if there is
  none on the way;
* `Life.rule` — what both of them preserve holds all life long.

The rule is about the itinerary alone, that is, about the part of the memory that belongs to the
patrol and about the random numbers. Whatever is written to the rest of the board is out of its
sight.
-/

namespace Skirmish

/-- The notes of a trail. -/
def Tree.Record.note? {ν : Type} : Tree.Record ν → Option ν
  | ticked .. => none
  | noted note => some note

namespace Enemy

open Skirmish.Tree (Record Status)

/-! ### Ticks on patrol -/

/-- **A tick on patrol:** the enemy lives and does not see its target. -/
def Board.Patrols (b : Board) : Prop :=
  b.body.health > 0 ∧ ¬ b.Sees

theorem Board.patrols_iff (b : Board) :
    b.Patrols ↔ b.body.isAlive = true ∧ b.sees = false := by
  rw [Patrols, isAlive_iff, sees_eq_false_iff]

instance (b : Board) : Decidable b.Patrols :=
  decidable_of_iff _ b.patrols_iff.symm

/-- **The itinerary:** what an enemy remembers of its patrol, and the numbers that it draws from. -/
structure Itinerary where
  /-- Where the enemy is headed. -/
  waypoint : Option Waypoint
  /-- Whether it has been there. -/
  reached : Bool
  /-- Where it was when it first chose a waypoint. -/
  spawn : Option Vector2
  /-- How many waypoints it has chosen. -/
  generated : UInt32
  /-- Its random numbers. -/
  generator : Random.SplitMix

/-- The itinerary of a board. -/
def Board.itinerary (b : Board) : Itinerary :=
  ⟨b.memory.waypoint, b.memory.reached, b.memory.spawn, b.memory.generated, b.generator⟩

/-! ### Lives -/

/-- **One tick in a life.** -/
structure Moment where
  /-- The board before it. -/
  before : Board
  /-- The board after it. -/
  after : Board
  /-- What its leaves noted. -/
  notes : List Note

/-- **Lives.** Ticks with either tree, for tunings of a kind, and in between anything that happens
to a board from outside. -/
inductive Life (Kind : Tuning.Behavior → Prop) (start : Board) : List Moment → Board → Prop
  /-- Nothing has happened yet. -/
  | start : Life Kind start [] start
  /-- A frame begins. -/
  | refresh {past : List Moment} {b : Board} (h : Life Kind start past b)
      (surroundings : Surroundings) (dt : Float32) :
        Life Kind start past (b.refresh surroundings dt)
  /-- Others write to the body, and to the target. -/
  | write {past : List Moment} {b : Board} (h : Life Kind start past b) (body : Body)
      (target : Option Target) : Life Kind start past { b with body := body, target := target }
  /-- A tick ends with a status. -/
  | tick {past : List Moment} {b : Board} (h : Life Kind start past b) {t : Tuning.Behavior}
      (ht : Kind t) {root : EnemyNode} (hroot : root = tree t ∨ root = labeledTree t) {dt : Float32}
      {b' : Board} {trail : List (Record Note)} {s : Status}
      (hrun : (root.tick dt).run b = ⟨b', trail, .ok s⟩) :
    Life Kind start (past ++ [⟨b, b', trail.filterMap Record.note?⟩]) b'

/-- The waypoint that a note is about. -/
def Note.waypoint? : Note → Option Waypoint
  | detectionChanged .. => none
  | waypointChosen _ waypoint => some waypoint

/-- The waypoints that were chosen in a tick. -/
def Moment.chosen (m : Moment) : List Waypoint :=
  m.notes.filterMap Note.waypoint?

/-- **The waypoints that were chosen so far,** in order. -/
def chosen (past : List Moment) : List Waypoint :=
  past.flatMap Moment.chosen

theorem chosen_concat (past : List Moment) (m : Moment) :
    chosen (past ++ [m]) = chosen past ++ m.chosen := by
  rw [chosen, List.flatMap_append, List.flatMap_singleton, chosen]

/-! ### What a tick does to the itinerary -/

/-- **The waypoint stays.** -/
structure Moment.Keeps (m : Moment) : Prop where
  /-- On patrol, there is one on the way. -/
  headed : m.before.Patrols → m.before.memory.isUnderWay = true
  /-- The itinerary stays too, up to an arrival. -/
  itinerary : m.after.itinerary = { m.before.itinerary with reached := m.after.memory.reached }
  /-- Without a patrol there is no arrival. -/
  reached : ¬ m.before.Patrols → m.after.memory.reached = m.before.memory.reached
  /-- No waypoint is noted. -/
  chosen : m.chosen = []

/-- **The next waypoint is chosen.** -/
structure Moment.Chooses (patrol : Tuning.Patrol) (m : Moment) : Prop where
  /-- The enemy is on patrol. -/
  patrols : m.before.Patrols
  /-- It has no waypoint on the way. -/
  due : m.before.memory.isUnderWay = false
  /-- The itinerary is that of the next waypoint, up to an arrival. -/
  itinerary : m.after.itinerary =
    { (m.before.withNextWaypoint patrol).1.itinerary with reached := m.after.memory.reached }
  /-- The next waypoint is noted. -/
  chosen : m.chosen = [(m.before.withNextWaypoint patrol).2]

section Fields

variable {patrol : Tuning.Patrol} {m : Moment}

theorem Moment.Keeps.chosen_concat (h : m.Keeps) (past : List Moment) :
    Enemy.chosen (past ++ [m]) = Enemy.chosen past := by
  rw [Enemy.chosen_concat, h.chosen, List.append_nil]

theorem Moment.Chooses.chosen_concat (h : m.Chooses patrol) (past : List Moment) :
    Enemy.chosen (past ++ [m]) = Enemy.chosen past ++ [(m.before.withNextWaypoint patrol).2] := by
  rw [Enemy.chosen_concat, h.chosen]

theorem Moment.Keeps.waypoint_eq (h : m.Keeps) :
    m.after.memory.waypoint = m.before.memory.waypoint :=
  congrArg Itinerary.waypoint h.itinerary

theorem Moment.Chooses.waypoint_eq (h : m.Chooses patrol) :
    m.after.memory.waypoint = some (m.before.withNextWaypoint patrol).2 :=
  congrArg Itinerary.waypoint h.itinerary

theorem Moment.Chooses.spawn_eq (h : m.Chooses patrol) :
    m.after.memory.spawn = some (m.before.memory.spawn.getD m.before.body.position) :=
  congrArg Itinerary.spawn h.itinerary

end Fields

variable {t : Tuning.Behavior} {dt : Float32} {b b' : Board} {c : Course}

theorem itinerary_patrolling (t : Tuning.Behavior) (b : Board) :
    (b.patrolling t).itinerary = (b.headed t.patrol).itinerary := by
  unfold Board.patrolling Board.headed
  -- the flag is no part of the itinerary, and choosing a waypoint does not read it
  change (if b.memory.isUnderWay then _ else _ : Board).itinerary = _
  split <;> rfl

/-- A tick is one on patrol if its course is. -/
theorem Goes.patrols_iff (h : Goes t dt b c b') : b.Patrols ↔ c.regime = .patrol := by
  cases h with
  | dead dead => exact ⟨fun hb => absurd hb.1 dead, fun hc => absurd hc (by decide)⟩
  | seek _ seen => exact ⟨fun hb => absurd seen hb.2, fun hc => absurd hc (by decide)⟩
  | turning alive unseen | travelling alive unseen | arrived alive unseen =>
    exact ⟨fun _ => rfl, fun _ => ⟨alive, unseen⟩⟩

/-- **Without a patrol** the itinerary is frozen. -/
theorem Goes.itinerary_eq_of_not_patrols (h : Goes t dt b c b') (hb : ¬ b.Patrols) :
    b'.itinerary = b.itinerary := by
  rw [h.patrols_iff] at hb
  cases h with
  | dead => rfl
  | seek => rfl
  | turning | travelling | arrived => exact absurd rfl hb

/-- **On patrol** there is somewhere to go, and at most an arrival besides. -/
theorem Goes.itinerary_eq_of_patrols (h : Goes t dt b c b') (hb : b.Patrols) :
    b'.itinerary = { (b.headed t.patrol).itinerary with reached := b'.memory.reached } := by
  rw [h.patrols_iff] at hb
  rw [← itinerary_patrolling]
  cases h with
  | dead | seek => exact absurd hb (by decide)
  | turning => rfl
  -- thrust and movement touch the body alone, and an arrival only what is left open here
  | travelling _ _ _ _ _ hb' | arrived _ _ _ _ _ hb' =>
    rw [hb']
    rfl

/-! ### What a tick notes -/

theorem notes_noted (notes : List Note) :
    (notes.map Record.noted).filterMap Record.note? = notes := by
  rw [List.filterMap_map]
  exact List.filterMap_some

theorem notes_reported (b : Board) (reports : List (String × Status)) :
    (reports.map b.reported).filterMap Record.note? = [] := by
  rw [List.filterMap_map]
  exact List.filterMap_eq_nil_iff.mpr fun _ _ => rfl

theorem notes_trail (t : Tuning.Behavior) (b : Board) (c : Course) :
    (c.trail t b).filterMap Record.note? = c.sightNotes b ++ c.headingNotes t b := by
  unfold Course.trail
  simp only [List.filterMap_append, notes_noted, notes_reported, List.append_nil]

theorem waypoints_sightNotes (b : Board) (c : Course) :
    (c.sightNotes b).filterMap Note.waypoint? = [] := by
  have hsight : b.sightNotes.filterMap Note.waypoint? = [] := by
    unfold Board.sightNotes
    split <;> rfl
  cases c with
  | dead => rfl
  | seek | turning | travelling | arrived => exact hsight

theorem waypoints_headingNotes (hc : c.regime = .patrol) :
    (c.headingNotes t b).filterMap Note.waypoint? =
      if b.memory.isUnderWay then [] else [(b.withNextWaypoint t.patrol).2] := by
  -- on all three courses of a patrol the heading is noted in the same way
  have hnotes : c.headingNotes t b = b.headingNotes t.patrol := by
    cases c with
    | dead | seek => exact absurd hc (by decide)
    | turning | travelling | arrived => rfl
  rw [hnotes, Board.headingNotes]
  split <;> rfl

theorem headingNotes_eq_nil (hc : c.regime ≠ .patrol) : c.headingNotes t b = [] := by
  cases c with
  | dead | seek => rfl
  | turning | travelling | arrived => exact absurd rfl hc

theorem Goes.keeps_or_chooses (h : Goes t dt b c b') :
    (⟨b, b', c.sightNotes b ++ c.headingNotes t b⟩ : Moment).Keeps ∨
      (⟨b, b', c.sightNotes b ++ c.headingNotes t b⟩ : Moment).Chooses t.patrol := by
  -- of the notes of a tick only those of the second branch are about waypoints
  have hchosen : (⟨b, b', c.sightNotes b ++ c.headingNotes t b⟩ : Moment).chosen =
      (c.headingNotes t b).filterMap Note.waypoint? := by
    rw [Moment.chosen, List.filterMap_append, waypoints_sightNotes, List.nil_append]
  by_cases hb : b.Patrols
  · have hnotes := waypoints_headingNotes (t := t) (b := b) (h.patrols_iff.mp hb)
    have hgoing := h.itinerary_eq_of_patrols hb
    rw [Board.headed] at hgoing
    cases hway : b.memory.isUnderWay with
    | true =>
      -- there is a waypoint already
      rw [hway] at hnotes hgoing
      exact .inl ⟨fun _ => hway, hgoing, fun hnot => absurd hb hnot, hchosen.trans hnotes⟩
    | false =>
      -- the next one is chosen, and it is the one that is noted
      rw [hway] at hnotes hgoing
      exact .inr ⟨hb, hway, hgoing, hchosen.trans hnotes⟩
  · -- the dead and those who pursue do not go anywhere
    have hfrozen := h.itinerary_eq_of_not_patrols hb
    have hreached : b'.memory.reached = b.memory.reached := congrArg Itinerary.reached hfrozen
    have hnotes : c.headingNotes t b = [] := headingNotes_eq_nil (mt h.patrols_iff.mpr hb)
    rw [hnotes] at hchosen ⊢
    refine .inl ⟨fun hnot => absurd hnot hb, ?_, fun _ => hreached, hchosen⟩
    change b'.itinerary = { b.itinerary with reached := b'.memory.reached }
    rw [hreached]
    exact hfrozen

/-! ### A whole life -/

section Whole

variable {Kind : Tuning.Behavior → Prop} {start : Board} {past : List Moment} {m : Moment}

/-- **A tick that ends with a status takes a course,** and its leaves note what is noted on that
course. -/
theorem exists_goes_of_run {root : EnemyNode} {trail : List (Record Note)} {s : Status}
    (hroot : root = tree t ∨ root = labeledTree t)
    (hrun : (root.tick dt).run b = ⟨b', trail, .ok s⟩) :
    ∃ c, Goes t dt b c b' ∧ trail.filterMap Record.note? =
        c.sightNotes b ++ c.headingNotes t b := by
  -- labels add records to the trail, but no notes
  obtain rfl | rfl := hroot
  · obtain ⟨c, hgoes, -, htrail⟩ := goes_of_run_tree hrun rfl
    obtain rfl : trail = (c.sightNotes b ++ c.headingNotes t b).map .noted := htrail
    exact ⟨c, hgoes, notes_noted _⟩
  · obtain ⟨c, hgoes, -, htrail⟩ := goes_of_run_labeledTree hrun rfl
    obtain rfl : trail = c.trail t b := htrail
    exact ⟨c, hgoes, notes_trail t b c⟩

theorem keeps_or_chooses_of_run {root : EnemyNode} {trail : List (Record Note)} {s : Status}
    (hroot : root = tree t ∨ root = labeledTree t)
    (hrun : (root.tick dt).run b = ⟨b', trail, .ok s⟩) :
    (⟨b, b', trail.filterMap Record.note?⟩ : Moment).Keeps ∨
      (⟨b, b', trail.filterMap Record.note?⟩ : Moment).Chooses t.patrol := by
  obtain ⟨c, hgoes, hnotes⟩ := exists_goes_of_run hroot hrun
  rw [hnotes]
  exact hgoes.keeps_or_chooses

/-- **The rule for lives.** What holds of the itinerary at the start, and is preserved where a
waypoint stays and where the next one is chosen, holds all life long. -/
theorem Life.rule {Q : List Moment → Itinerary → Prop} (hstart : Q [] start.itinerary)
    (hkeeps : ∀ past m, Q past m.before.itinerary → m.Keeps → Q (past ++ [m]) m.after.itinerary)
    (hchooses : ∀ past m t, Q past m.before.itinerary → Kind t → m.Chooses t.patrol →
      Q (past ++ [m]) m.after.itinerary)
    (h : Life Kind start past b) : Q past b.itinerary := by
  -- by induction on the life: what is written from outside is not in the itinerary, and a tick does
  -- one of two things
  induction h with
  | start => exact hstart
  | refresh _ _ _ ih => exact ih
  | write _ _ _ ih => exact ih
  | tick _ ht hroot hrun ih =>
    obtain hm | hm := keeps_or_chooses_of_run hroot hrun
    · exact hkeeps _ _ ih hm
    · exact hchooses _ _ _ ih ht hm

/-- **Every tick of a life** comes after a life of its own, and takes a course for a tuning of the
life's kind. -/
theorem Life.exists_goes (h : Life Kind start past b) (hm : m ∈ past) :
    (∃ before, Life Kind start before m.before) ∧
      ∃ t dt c, Kind t ∧ Goes t dt m.before c m.after ∧
        m.notes = c.sightNotes m.before ++ c.headingNotes t m.before := by
  -- the tick is the last one, or it was there before
  induction h with
  | start => exact absurd hm List.not_mem_nil
  | refresh _ _ _ ih => exact ih hm
  | write _ _ _ ih => exact ih hm
  | tick h ht hroot hrun ih =>
    obtain hm | hm := List.mem_append.mp hm
    · exact ih hm
    · obtain rfl := List.mem_singleton.mp hm
      obtain ⟨c, hgoes, hnotes⟩ := exists_goes_of_run hroot hrun
      exact ⟨⟨_, h⟩, _, _, c, ht, hgoes, hnotes⟩

theorem Life.keeps_or_chooses (h : Life Kind start past b) (hm : m ∈ past) :
    (∃ before, Life Kind start before m.before) ∧
      (m.Keeps ∨ ∃ t, Kind t ∧ m.Chooses t.patrol) := by
  obtain ⟨hbefore, t, dt, c, ht, hgoes, hnotes⟩ := h.exists_goes hm
  -- the moment is taken apart, for its notes are those of the course
  obtain ⟨b₁, b₂, notes⟩ := m
  obtain rfl : notes = c.sightNotes b₁ ++ c.headingNotes t b₁ := hnotes
  exact ⟨hbefore, hgoes.keeps_or_chooses.imp_right fun hchooses => ⟨t, ht, hchooses⟩⟩

/-- On patrol with nowhere to go, the next waypoint is chosen. -/
theorem Life.chooses (h : Life Kind start past b) (hm : m ∈ past) (hpatrols : m.before.Patrols)
    (hdue : m.before.memory.isUnderWay = false) : ∃ t, Kind t ∧ m.Chooses t.patrol := by
  refine (h.keeps_or_chooses hm).2.resolve_left ?_
  intro hkeeps
  -- to keep the waypoint on patrol it takes one that is on the way
  have hway := hkeeps.headed hpatrols
  rw [hdue] at hway
  cases hway

/-- **There are lives** of an enemy that turns at a finite speed: a tick of any duration begins one.
-/
theorem exists_tick (hfinite : b.body.turnSpeed ≠ Numeric.infinity) {t : Tuning.Behavior}
    (ht : Kind t) (dt : Float32) : ∃ m, m.before = b ∧ Life Kind b [m] m.after := by
  obtain ⟨⟨s, hs⟩, -⟩ := completes (.plain t) hfinite dt
  -- the tick completes, so its outcome has the form that a life asks for
  cases hrun : ((tree t).tick dt).run b with
  | mk b' trail result =>
    obtain rfl : result = .ok s := by rwa [hrun] at hs
    exact ⟨_, rfl, .tick .start ht (.inl rfl) hrun⟩

end Whole

end Enemy

end Skirmish
