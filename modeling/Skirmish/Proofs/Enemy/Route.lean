import Skirmish.Proofs.Enemy.Lives

/-!
# Waypoints and routes

What an enemy's memory says of its waypoints, and that they are settled by its seed:

* `waypoint_lifecycle` — when a waypoint is chosen, kept and reached;
* `route_of_seed` — lives with the same seed, ring and spawn point have the same route.
-/

/-! ## The waypoints of a life

A waypoint is chosen by one leaf and reached by another, in ticks that may lie far apart, with
pursuit in between. All the same the memory can be read off the waypoints that were noted: the last
one is where the enemy is headed, their number is the number of waypoints, and the first tick on
patrol was at the spawn point.

* `Charted` — what a new enemy's memory says of the life behind it;
* `Life.charted` — it does so all life long;
* `Life.frozen` and `Life.spawn_eq` — what stays in a stretch without a patrol, and what stays for
  ever;
* `Life.changes_iff` — the ticks that replace the waypoint;
* `waypoint_lifecycle` — all of this together.
-/

namespace Skirmish.Enemy

variable {Kind : Tuning.Behavior → Prop} {b b' : Board} {past : List Moment} {m : Moment}
  {i : Itinerary} {w : Waypoint}

theorem isUnderWay_eq_false_iff {memory : Memory} :
    memory.isUnderWay = false ↔ memory.waypoint = none ∨ memory.reached = true := by
  unfold Memory.isUnderWay
  cases memory.waypoint <;> cases memory.reached <;> simp

/-! ### Stretches without a patrol -/

theorem Moment.Keeps.frozen (h : m.Keeps) (hm : ¬ m.before.Patrols) :
    m.after.itinerary = m.before.itinerary := by
  rw [h.itinerary, h.reached hm]
  rfl

theorem Life.frozen (h : Life Kind b past b') (hpast : ∀ m ∈ past, ¬ m.before.Patrols) :
    b'.itinerary = b.itinerary := by
  -- the hypothesis about the past is part of what is preserved, because the past grows
  refine h.rule (Q := fun past i => (∀ m ∈ past, ¬ m.before.Patrols) → i = b.itinerary)
    (fun _ => rfl) ?_ ?_ hpast
  · intro past m ih hm hpast
    rw [hm.frozen (hpast m (by simp))]
    exact ih fun m hm => hpast m (by simp [hm])
  · -- to choose a waypoint is to be on patrol
    intro past m t _ _ hm hpast
    exact absurd hm.patrols (hpast m (by simp))

theorem Life.spawn_eq (h : Life Kind b past b') {spawn : Vector2}
    (hb : b.memory.spawn = some spawn) :
    b'.memory.spawn = some spawn := by
  refine h.rule (Q := fun _ i => i.spawn = some spawn) hb ?_ ?_
  · intro past m ih hm
    rw [hm.itinerary]
    exact ih
  · intro past m t ih _ hm
    -- the next waypoint is chosen around the spawn point that there is
    have hspawn : m.before.memory.spawn = some spawn := ih
    have hafter := hm.spawn_eq
    rw [hspawn, Option.getD_some] at hafter
    exact hafter

/-! ### What the memory says -/

/-- The first tick on patrol. -/
def firstPatrol (past : List Moment) : Option Moment :=
  past.find? fun m => decide m.before.Patrols

theorem firstPatrol_concat (past : List Moment) (m : Moment) :
    firstPatrol (past ++ [m]) =
      (firstPatrol past).or (if m.before.Patrols then some m else none) := by
  unfold firstPatrol
  rw [List.find?_append]
  -- the last tick is found only if none before it is
  by_cases hm : m.before.Patrols
  · simp [hm]
  · simp [hm]

/-- **What the memory says of a life** since a new enemy's first tick. -/
structure Charted (past : List Moment) (i : Itinerary) : Prop where
  /-- The enemy is headed for the last waypoint that was chosen. -/
  waypoint : i.waypoint = (chosen past).getLast?
  /-- They are counted. -/
  generated : i.generated = UInt32.ofNat (chosen past).length
  /-- They are numbered in order. -/
  serials : (chosen past).map (·.serial) = (List.range (chosen past).length).map UInt32.ofNat
  /-- The first tick on patrol was at the spawn point. -/
  spawn : i.spawn = (firstPatrol past).map (·.before.body.position)
  /-- A waypoint was chosen in it. -/
  first : firstPatrol past = none ↔ chosen past = []
  /-- Nothing is reached before that. -/
  reached : chosen past = [] → i.reached = false

namespace Charted

theorem blank (body : Body) (target : Option Target) (seed : UInt64) :
    Charted [] (Board.new body target seed).itinerary :=
  ⟨rfl, rfl, rfl, rfl, ⟨fun _ => rfl, fun _ => rfl⟩, fun _ => rfl⟩

/-- **A tick that keeps the waypoint** is not the first one on patrol. -/
theorem keeps (h : Charted past m.before.itinerary) (hm : m.Keeps) :
    Charted (past ++ [m]) m.after.itinerary := by
  have hchosen : chosen (past ++ [m]) = chosen past := hm.chosen_concat past
  -- an enemy without a waypoint has none on the way
  have hidle : chosen past = [] → ¬ m.before.Patrols := by
    intro hnone hpatrols
    have hway := hm.headed hpatrols
    have hwaypoint : m.before.memory.waypoint = (chosen past).getLast? := h.waypoint
    rw [hnone] at hwaypoint
    rw [isUnderWay_eq_false_iff.mpr (.inl hwaypoint)] at hway
    cases hway
  have hfirst : firstPatrol (past ++ [m]) = firstPatrol past := by
    rw [firstPatrol_concat]
    cases hpatrol : firstPatrol past with
    | some first => rfl
    | none => rw [if_neg (hidle (h.first.mp hpatrol)), Option.or_none]
  rw [hm.itinerary]
  refine ⟨?_, ?_, ?_, ?_, ?_, ?_⟩
  · rw [hchosen]
    exact h.waypoint
  · rw [hchosen]
    exact h.generated
  · rw [hchosen]
    exact h.serials
  · rw [hfirst]
    exact h.spawn
  · rw [hchosen, hfirst]
    exact h.first
  · intro hnone
    rw [hchosen] at hnone
    exact (hm.reached (hidle hnone)).trans (h.reached hnone)

/-- **A tick that chooses the next waypoint** gives it the number of those before. -/
theorem chooses {patrol : Tuning.Patrol} (h : Charted past m.before.itinerary)
    (hm : m.Chooses patrol) : Charted (past ++ [m]) m.after.itinerary := by
  have hchosen : chosen (past ++ [m]) = chosen past ++ [(m.before.withNextWaypoint patrol).2] :=
    hm.chosen_concat past
  have hgenerated : m.before.memory.generated = UInt32.ofNat (chosen past).length := h.generated
  have hspawn : m.before.memory.spawn = (firstPatrol past).map (·.before.body.position) := h.spawn
  have hfirst : firstPatrol (past ++ [m]) = (firstPatrol past).or (some m) := by
    rw [firstPatrol_concat, if_pos hm.patrols]
  rw [hm.itinerary]
  refine ⟨?_, ?_, ?_, ?_, ?_, ?_⟩
  · rw [hchosen, List.getLast?_concat]
    rfl
  · rw [hchosen, List.length_append, List.length_singleton, UInt32.ofNat_add, ← hgenerated]
    rfl
  · rw [hchosen, List.length_append, List.length_singleton, List.range_succ, List.map_append,
      List.map_append, h.serials, List.map_singleton, List.map_singleton, ← hgenerated]
    rfl
  · -- the spawn point is the one that there is, or else the place of this tick
    change some (m.before.memory.spawn.getD m.before.body.position) = _
    rw [hfirst, hspawn]
    cases firstPatrol past <;> rfl
  · rw [hfirst, hchosen]
    cases firstPatrol past <;> simp
  · rw [hchosen]
    intro hnone
    simp at hnone

theorem chosen_eq_nil (h : Charted past i) (hw : i.waypoint = none) : chosen past = [] :=
  List.getLast?_eq_none_iff.mp (h.waypoint.symm.trans hw)

theorem chosen_eq_nil_of_spawn (h : Charted past i) (hspawn : i.spawn = none) : chosen past = [] :=
  h.first.mp (Option.map_eq_none_iff.mp (h.spawn.symm.trans hspawn))

theorem serial_eq (h : Charted past i) (hw : i.waypoint = some w) : w.serial = i.generated - 1 := by
  have hlast : (chosen past).getLast? = some w := h.waypoint.symm.trans hw
  have hserial : ((chosen past).map (·.serial)).getLast? = some w.serial := by
    rw [List.getLast?_map, hlast, Option.map_some]
  -- there is a last waypoint, so at least one was chosen
  cases hlength : (chosen past).length with
  | zero =>
    rw [List.length_eq_zero_iff.mp hlength] at hlast
    cases hlast
  | succ n =>
    -- the numbers run from zero, so the last of `n + 1` waypoints bears the number `n`
    rw [h.serials, hlength, List.range_succ, List.map_append, List.map_singleton,
      List.getLast?_concat] at hserial
    rw [h.generated, hlength, UInt32.ofNat_add, ← Option.some.inj hserial]
    grind

end Charted

theorem Life.charted {body : Body} {target : Option Target} {seed : UInt64}
    (h : Life Kind (Board.new body target seed) past b) : Charted past b.itinerary :=
  h.rule (Charted.blank body target seed) (fun _ _ hpast hm => hpast.keeps hm)
    fun _ _ _ hpast _ hm => hpast.chooses hm

/-! ### The ticks that replace the waypoint -/

/-- A tick that chooses the next waypoint replaces the one that there was, whose number is another.
-/
theorem Moment.Chooses.waypoint_ne {patrol : Tuning.Patrol} (hm : m.Chooses patrol)
    (h : Charted past m.before.itinerary) :
    m.after.memory.waypoint ≠ m.before.memory.waypoint := by
  intro heq
  -- a waypoint bears the number of those before it, so if it had stayed, it would bear the last
  -- number
  have hserial : (m.before.withNextWaypoint patrol).2.serial = m.before.memory.generated - 1 :=
    h.serial_eq (heq.symm.trans hm.waypoint_eq)
  -- the next waypoint bears the number itself
  change m.before.memory.generated = m.before.memory.generated - 1 at hserial
  grind

/-- **A tick replaces the waypoint** if it is one on patrol and the enemy has no waypoint to go to.
Then the next number is up. -/
theorem Life.changes_iff {body : Body} {target : Option Target} {seed : UInt64}
    (h : Life Kind (Board.new body target seed) past b) (hm : m ∈ past) :
    (m.after.memory.waypoint ≠ m.before.memory.waypoint ↔
      m.before.Patrols ∧ (m.before.memory.waypoint = none ∨ m.before.memory.reached = true)) ∧
    (m.after.memory.waypoint ≠ m.before.memory.waypoint →
      ∃ w, m.after.memory.waypoint = some w ∧
        w.serial = m.before.memory.waypoint.elim 0 fun w₀ => w₀.serial + 1) := by
  obtain ⟨⟨before, hbefore⟩, hkeeps | ⟨t, -, hchooses⟩⟩ := h.keeps_or_chooses hm
  · have hsame := hkeeps.waypoint_eq
    refine ⟨⟨fun hne => absurd hsame hne, ?_⟩, fun hne => absurd hsame hne⟩
    rintro ⟨hpatrols, hdue⟩
    -- on patrol there was a waypoint on the way
    have hway := hkeeps.headed hpatrols
    rw [isUnderWay_eq_false_iff.mpr hdue] at hway
    cases hway
  · have hcharted := hbefore.charted
    have hnext : (m.before.withNextWaypoint t.patrol).2.serial = m.before.memory.generated := rfl
    refine ⟨⟨fun _ => ⟨hchooses.patrols, isUnderWay_eq_false_iff.mp hchooses.due⟩,
      fun _ => hchooses.waypoint_ne hcharted⟩, fun _ => ⟨_, hchooses.waypoint_eq, ?_⟩⟩
    rw [hnext]
    cases hold : m.before.memory.waypoint with
    -- the first waypoint of a life has the number zero
    | none =>
      have hnone : chosen before = [] := hcharted.chosen_eq_nil hold
      have hgenerated : m.before.memory.generated = UInt32.ofNat (chosen before).length :=
        hcharted.generated
      rw [hgenerated, hnone]
      rfl
    -- and any other one follows the one before
    | some w₀ =>
      have hserial : w₀.serial = m.before.memory.generated - 1 := hcharted.serial_eq hold
      rw [Option.elim_some, hserial]
      grind

/-! ### The life cycle -/

/-- **The life cycle of waypoints.** Take any life of a new enemy, with ticks for any tunings.
Between ticks there is neither a waypoint nor a spawn point and nothing was chosen, or there are
both and the waypoint bears the last number. The spawn point is the place of the first tick on
patrol, and it is for ever. A tick replaces the waypoint exactly if the enemy lives, does not see
its target, and has no waypoint or has been there, and gives the next one the next number. While it
does not patrol, its itinerary is frozen. The numbers of the waypoints that are noted run from zero
on. -/
theorem waypoint_lifecycle (body : Body) (target : Option Target) (seed : UInt64)
    (past : List Moment) (b : Board)
    (h : Life (fun _ => True) (Board.new body target seed) past b) :
    ((b.memory.waypoint = none ∧ b.memory.spawn = none ∧ b.memory.reached = false ∧
        b.memory.generated = 0 ∧ chosen past = []) ∨
      (∃ w spawn, b.memory.waypoint = some w ∧ b.memory.spawn = some spawn ∧
        w.serial = b.memory.generated - 1)) ∧
    b.memory.spawn = (past.find? fun m => decide m.before.Patrols).map (·.before.body.position) ∧
    (∀ m ∈ past,
      (m.after.memory.waypoint ≠ m.before.memory.waypoint ↔
        (m.before.body.health > 0 ∧ ¬ m.before.Sees) ∧
          (m.before.memory.waypoint = none ∨ m.before.memory.reached = true)) ∧
      (m.after.memory.waypoint ≠ m.before.memory.waypoint →
        ∃ w, m.after.memory.waypoint = some w ∧
          w.serial = m.before.memory.waypoint.elim 0 fun w₀ => w₀.serial + 1)) ∧
    (∀ stretch b', Life (fun _ => True) b stretch b' →
      (∀ spawn, b.memory.spawn = some spawn → b'.memory.spawn = some spawn) ∧
      ((∀ m ∈ stretch, ¬ (m.before.body.health > 0 ∧ ¬ m.before.Sees)) →
        b'.itinerary = b.itinerary)) ∧
    (chosen past).map (·.serial) = (List.range (chosen past).length).map UInt32.ofNat := by
  have hcharted := h.charted
  refine ⟨?_, hcharted.spawn, fun m hm => h.changes_iff hm, ?_, hcharted.serials⟩
  · -- with a waypoint or without one, the chart says all the rest
    cases hwaypoint : b.memory.waypoint with
    | none =>
      have hnone : chosen past = [] := hcharted.chosen_eq_nil hwaypoint
      have hgenerated := hcharted.generated
      have hspawn := hcharted.spawn
      rw [hnone] at hgenerated
      rw [hcharted.first.mpr hnone] at hspawn
      exact .inl ⟨rfl, hspawn, hcharted.reached hnone, hgenerated, hnone⟩
    | some w =>
      cases hspawn : b.memory.spawn with
      | none =>
        -- a waypoint was chosen, so there is a spawn point
        have hlast : (chosen past).getLast? = some w := hcharted.waypoint.symm.trans hwaypoint
        rw [hcharted.chosen_eq_nil_of_spawn hspawn] at hlast
        cases hlast
      | some spawn => exact .inr ⟨w, spawn, rfl, rfl, hcharted.serial_eq hwaypoint⟩
  · intro stretch b' hstretch
    exact ⟨fun _ hspawn => hstretch.spawn_eq hspawn, fun hidle => hstretch.frozen hidle⟩

/-- A new enemy, with nobody in view. -/
def newcomer : Board :=
  .new (Tuning.Archetype.usual.spawn 5 ⟨3, 4⟩) none 42

/-- An enemy that is killed after its first tick. Its spawn point is where it was, and it was headed
for a waypoint. -/
theorem waypoint_lifecycle_newcomer :
    ∃ past b, Life (fun _ => True) newcomer past b ∧ ¬ b.body.health > 0 ∧
      b.memory.spawn = some ⟨3, 4⟩ ∧
      ∃ w, b.memory.waypoint = some w ∧ w.serial = b.memory.generated - 1 := by
  have hfinite : newcomer.body.turnSpeed ≠ Numeric.infinity := by decide
  obtain ⟨m, hbefore, htick⟩ : ∃ m, m.before = newcomer ∧
      Life (fun _ => True) newcomer [m] m.after :=
    exists_tick (t := .usual) hfinite trivial 0.25
  have hlife := htick.write { m.after.body with health := 0 } none
  obtain ⟨hwaypoint, hspawn, -⟩ := waypoint_lifecycle _ _ _ _ _ hlife
  -- nothing is in view, so the first tick is one on patrol
  have hpatrols : decide m.before.Patrols = true := by
    rw [hbefore]
    decide
  rw [List.find?_cons, hpatrols] at hspawn
  change m.after.memory.spawn = some m.before.body.position at hspawn
  rw [hbefore] at hspawn
  have hdead : ¬ (0 : Float32) > 0 := by decide
  refine ⟨_, _, hlife, hdead, hspawn, ?_⟩
  obtain ⟨-, hnone, -⟩ | ⟨w, spawn, hw, -, hserial⟩ := hwaypoint
  · exact absurd (hspawn.symm.trans hnone) (Option.some_ne_none _)
  · exact ⟨w, hw, hserial⟩

end Skirmish.Enemy

/-! ## The route is in the seed

An enemy draws random numbers for one thing only, its next waypoint, and always the same number of
them. So before its k-th waypoint its generator has been advanced k times by the same amount,
however long that took and whatever happened in between. What the waypoint is then depends on the
generator, on the ring and on the spawn point.

* `drawsPerWaypoint` — one draw for the heading, and one for the distance unless the ring is empty;
* `routeGenerator` and `routeWaypoint` — the generator before the k-th waypoint, and the waypoint;
* `Life.routed` — the waypoints of any life of a new enemy are those of its route;
* `route_of_seed` — two lives with the same seed, ring and spawn point have the same route.
-/

namespace Skirmish.Enemy

variable {b : Board} {past : List Moment} {m : Moment} {i : Itinerary} {patrol : Tuning.Patrol}
  {spawn : Vector2} {seed : UInt64} {k : Nat}

/-! ### The route -/

/-- **The words drawn for one waypoint.** An empty ring has one distance, for which there is no
draw; a ring whose bounds are no numbers is not empty. -/
def drawsPerWaypoint (patrol : Tuning.Patrol) : UInt64 :=
  if patrol.ringMax ≤ patrol.ringMin then 1 else 2

/-- The generator before the k-th waypoint. -/
def routeGenerator (patrol : Tuning.Patrol) (seed : UInt64) (k : Nat) : Random.SplitMix :=
  ⟨seed + drawsPerWaypoint patrol * UInt64.ofNat k * Random.goldenStep⟩

/-- The k-th waypoint around a spawn point. -/
def routeWaypoint (patrol : Tuning.Patrol) (seed : UInt64) (spawn : Vector2) (k : Nat) : Waypoint :=
  ⟨(drawPoint patrol spawn (routeGenerator patrol seed k)).1, UInt32.ofNat k⟩

/-- The route up to the k-th waypoint. -/
def routeTo (patrol : Tuning.Patrol) (seed : UInt64) (spawn : Vector2) (k : Nat) : List Waypoint :=
  (List.range k).map (routeWaypoint patrol seed spawn)

theorem routeTo_succ (patrol : Tuning.Patrol) (seed : UInt64) (spawn : Vector2) (k : Nat) :
    routeTo patrol seed spawn (k + 1) =
      routeTo patrol seed spawn k ++ [routeWaypoint patrol seed spawn k] := by
  rw [routeTo, List.range_succ, List.map_append, List.map_singleton, routeTo]

/-- **The generator after a waypoint** was advanced once for each draw. -/
theorem drawPoint_generator (patrol : Tuning.Patrol) (spawn : Vector2) (g : Random.SplitMix) :
    (drawPoint patrol spawn g).2 = ⟨g.state + drawsPerWaypoint patrol * Random.goldenStep⟩ := by
  by_cases hring : patrol.ringMax ≤ patrol.ringMin
  · -- the heading only
    rw [drawsPerWaypoint, if_pos hring, UInt64.one_mul]
    simp only [drawPoint, Random.drawBetween, hring, if_true]
    rfl
  · -- the heading, and then the distance
    have htwice : g.state + 2 * Random.goldenStep =
        g.state + Random.goldenStep + Random.goldenStep := by grind
    rw [drawsPerWaypoint, if_neg hring, htwice]
    simp only [drawPoint, Random.drawBetween, hring, if_false]
    rfl

theorem drawPoint_routeGenerator :
    (drawPoint patrol spawn (routeGenerator patrol seed k)).2 =
      routeGenerator patrol seed (k + 1) := by
  -- to count one waypoint more is to advance by the draws of one waypoint more
  have hstate : ∀ c n step : UInt64, seed + c * n * step + c * step =
      seed + c * (n + 1) * step := by
    grind
  rw [drawPoint_generator, routeGenerator, routeGenerator, hstate, UInt64.ofNat_add]
  rfl

/-! ### Lives along the route -/

/-- **On the route** is an enemy all of whose waypoints so far are those of the route around its
spawn point. -/
structure Routed (patrol : Tuning.Patrol) (seed : UInt64) (past : List Moment) (i : Itinerary) :
    Prop where
  /-- The generator is where the route has it. -/
  generator : i.generator = routeGenerator patrol seed (chosen past).length
  /-- The waypoints are those of the route. -/
  route : ∀ spawn, i.spawn = some spawn →
    chosen past = routeTo patrol seed spawn (chosen past).length

namespace Routed

theorem blank (patrol : Tuning.Patrol) (body : Body) (target : Option Target) (seed : UInt64) :
    Routed patrol seed [] (Board.new body target seed).itinerary := by
  refine ⟨?_, ?_⟩
  · change (⟨seed⟩ : Random.SplitMix) = ⟨seed + drawsPerWaypoint patrol * 0 * Random.goldenStep⟩
    simp
  · intro spawn hspawn
    cases hspawn

theorem keeps (h : Routed patrol seed past m.before.itinerary) (hm : m.Keeps) :
    Routed patrol seed (past ++ [m]) m.after.itinerary := by
  rw [hm.itinerary]
  refine ⟨?_, ?_⟩
  · rw [hm.chosen_concat]
    exact h.generator
  · rw [hm.chosen_concat]
    exact h.route

/-- **The next waypoint** is the next one of the route. -/
theorem chooses (hcharted : Charted past m.before.itinerary)
    (h : Routed patrol seed past m.before.itinerary) (hm : m.Chooses patrol) :
    Routed patrol seed (past ++ [m]) m.after.itinerary := by
  -- it is chosen around the spawn point, which is the enemy's place if there was none
  let spawn := m.before.memory.spawn.getD m.before.body.position
  have hroute : chosen past = routeTo patrol seed spawn (chosen past).length := by
    cases hspawn : m.before.memory.spawn with
    | none =>
      rw [hcharted.chosen_eq_nil_of_spawn hspawn]
      rfl
    | some point =>
      have hpoint : spawn = point := by
        change m.before.memory.spawn.getD _ = point
        rw [hspawn, Option.getD_some]
      rw [hpoint]
      exact h.route point hspawn
  have hgenerator : m.before.generator = routeGenerator patrol seed (chosen past).length :=
    h.generator
  have hgenerated : m.before.memory.generated = UInt32.ofNat (chosen past).length :=
    hcharted.generated
  have hnext : (m.before.withNextWaypoint patrol).2 =
      routeWaypoint patrol seed spawn (chosen past).length := by
    change (⟨(drawPoint patrol spawn m.before.generator).1, m.before.memory.generated⟩ : Waypoint) =
      _
    rw [hgenerator, hgenerated]
    rfl
  have hlength : (chosen (past ++ [m])).length = (chosen past).length + 1 := by
    rw [hm.chosen_concat, List.length_append, List.length_singleton]
  rw [hm.itinerary]
  refine ⟨?_, ?_⟩
  · change (drawPoint patrol spawn m.before.generator).2 = _
    rw [hgenerator, drawPoint_routeGenerator, hlength]
  · intro point hpoint
    obtain rfl : spawn = point := Option.some.inj hpoint
    rw [hlength, routeTo_succ, ← hroute, hm.chosen_concat, hnext]

end Routed

theorem Life.routed {body : Body} {target : Option Target}
    (h : Life (fun t => t.patrol = patrol) (Board.new body target seed) past b) :
    Routed patrol seed past b.itinerary := by
  -- how many waypoints there were is known from the memory, along with the route
  -- the route speaks of the spawn point, and only the chart tells that there is none before the
  -- first waypoint
  have hboth := h.rule (Q := fun past i => Charted past i ∧ Routed patrol seed past i)
    ⟨Charted.blank body target seed, Routed.blank patrol body target seed⟩
    (fun _ _ hpast hm => ⟨hpast.1.keeps hm, hpast.2.keeps hm⟩) ?_
  · exact hboth.2
  · intro past m t hpast ht hm
    rw [ht] at hm
    exact ⟨hpast.1.chooses hm, hpast.2.chooses hpast.1 hm⟩

theorem Routed.getElem?_eq (h : Routed patrol seed past i) (hspawn : i.spawn = some spawn)
    {w : Waypoint} (hw : (chosen past)[k]? = some w) : w = routeWaypoint patrol seed spawn k := by
  -- the k-th waypoint noted is the k-th of the route
  rw [h.route spawn hspawn, routeTo, List.getElem?_map] at hw
  obtain ⟨k', hk', rfl⟩ := Option.map_eq_some_iff.mp hw
  obtain ⟨-, rfl⟩ := List.getElem?_eq_some_iff.mp hk'
  rw [List.getElem_range]

/-- **The route is in the seed.** After any life of a new enemy with ticks for one ring, the enemy
is headed for the last waypoint it noted, has counted all of them, and its generator has been
advanced by one or two draws for each. And take two such lives that begin with the same seed and
have the same spawn point, of whatever lengths, with whatever bodies, targets, frames and ways to
steer, and with whatever is written from outside: their waypoints are the same, one by one, as far
as both go, and after equally many of them both are headed for the same one. -/
theorem route_of_seed (patrol : Tuning.Patrol) (seed : UInt64) :
    (∀ body target past b,
      Life (fun t => t.patrol = patrol) (Board.new body target seed) past b →
      b.memory.waypoint = (chosen past).getLast? ∧
      b.memory.generated = UInt32.ofNat (chosen past).length ∧
      b.generator.state = seed +
        (if patrol.ringMax ≤ patrol.ringMin then 1 else 2) * UInt64.ofNat (chosen past).length *
          0x9e3779b97f4a7c15) ∧
    ∀ body target past b body' target' past' b',
      Life (fun t => t.patrol = patrol) (Board.new body target seed) past b →
      Life (fun t => t.patrol = patrol) (Board.new body' target' seed) past' b' →
      b.memory.spawn = b'.memory.spawn →
      (∀ (k : Nat) (w w' : Waypoint), (chosen past)[k]? = some w → (chosen past')[k]? = some w' →
        w.serial = w'.serial ∧ w.point = w'.point) ∧
      ((chosen past).length = (chosen past').length → b.memory.waypoint = b'.memory.waypoint) := by
  refine ⟨?_, ?_⟩
  · intro body target past b h
    have hgenerator : b.generator = routeGenerator patrol seed (chosen past).length :=
      h.routed.generator
    refine ⟨h.charted.waypoint, h.charted.generated, ?_⟩
    rw [hgenerator]
    rfl
  · intro body target past b body' target' past' b' h h' hspawn
    have hwaypoint : b.memory.waypoint = (chosen past).getLast? := h.charted.waypoint
    have hwaypoint' : b'.memory.waypoint = (chosen past').getLast? := h'.charted.waypoint
    cases hpoint : b.memory.spawn with
    | none =>
      -- an enemy without a spawn point has chosen nothing
      rw [hwaypoint, hwaypoint', h.charted.chosen_eq_nil_of_spawn hpoint,
        h'.charted.chosen_eq_nil_of_spawn (hspawn.symm.trans hpoint)]
      exact ⟨fun k w w' hw => nofun, fun _ => rfl⟩
    | some spawn =>
      have hpoint' : b'.memory.spawn = some spawn := hspawn.symm.trans hpoint
      refine ⟨?_, ?_⟩
      · intro k w w' hw hw'
        rw [h.routed.getElem?_eq hpoint hw, h'.routed.getElem?_eq hpoint' hw']
        exact ⟨rfl, rfl⟩
      · -- with as many waypoints behind them, both are headed for the last of the same route
        intro hlength
        rw [hwaypoint, hwaypoint', h.routed.route spawn hpoint,
          h'.routed.route spawn hpoint', hlength]

/-- Another enemy with the newcomer's seed and place, but weaker and turned elsewhere. -/
def lookalike : Board :=
  .new { Tuning.Archetype.usual.spawn 9 ⟨3, 4⟩ with health := 1, angle := 2 } none 42

/-- The first waypoints of two enemies that differ in their bodies, in the frame's duration and in
the way they steer. -/
theorem route_of_seed_newcomers :
    ∃ past b past' b' w w', Life (fun t => t.patrol = .usual) newcomer past b ∧
      Life (fun t => t.patrol = .usual) lookalike past' b' ∧
      (chosen past)[0]? = some w ∧ (chosen past')[0]? = some w' ∧ w.point = w'.point ∧
      b.memory.waypoint = some w ∧ b'.memory.waypoint = some w ∧ b.memory.generated = 1 ∧
      b.generator.state = 42 + 2 * 0x9e3779b97f4a7c15 := by
  have hfinite : newcomer.body.turnSpeed ≠ Numeric.infinity := by decide
  have hfinite' : lookalike.body.turnSpeed ≠ Numeric.infinity := by decide
  obtain ⟨m, hbefore, h⟩ : ∃ m, m.before = newcomer ∧
      Life (fun t => t.patrol = .usual) newcomer [m] m.after :=
    exists_tick (t := .usual) hfinite (by rfl) 0.25
  obtain ⟨m', hbefore', h'⟩ : ∃ m, m.before = lookalike ∧
      Life (fun t => t.patrol = .usual) lookalike [m] m.after :=
    exists_tick (t := ⟨.usual, { Tuning.Steering.usual with facingTolerance := 1 }⟩)
      hfinite' (by rfl) 2
  -- both are on patrol and have nowhere to go
  obtain ⟨t, -, hm⟩ := h.chooses (List.mem_singleton_self m)
    (by rw [hbefore]; decide) (by rw [hbefore]; rfl)
  obtain ⟨t', -, hm'⟩ := h'.chooses (List.mem_singleton_self m')
    (by rw [hbefore']; decide) (by rw [hbefore']; rfl)
  have hspawn : m.after.memory.spawn = m'.after.memory.spawn := by
    rw [hm.spawn_eq, hm'.spawn_eq, hbefore, hbefore']
    rfl
  have hchosen : chosen [m] = [(m.before.withNextWaypoint t.patrol).2] :=
    hm.chosen_concat []
  have hchosen' : chosen [m'] = [(m'.before.withNextWaypoint t'.patrol).2] :=
    hm'.chosen_concat []
  obtain ⟨hgenerator, hroute⟩ := route_of_seed .usual 42
  obtain ⟨hwaypoint, hgenerated, hstate⟩ := hgenerator _ _ _ _ h
  obtain ⟨hsame, hheaded⟩ := hroute _ _ _ _ _ _ _ _ h h' hspawn
  have hfirst : (chosen [m])[0]? = some (m.before.withNextWaypoint t.patrol).2 := by
    rw [hchosen, List.getElem?_cons_zero]
  have hfirst' : (chosen [m'])[0]? = some (m'.before.withNextWaypoint t'.patrol).2 := by
    rw [hchosen', List.getElem?_cons_zero]
  have hlength : (chosen [m]).length = 1 := by rw [hchosen, List.length_singleton]
  have hlength' : (chosen [m']).length = 1 := by rw [hchosen', List.length_singleton]
  have hlast : (chosen [m]).getLast? = some (m.before.withNextWaypoint t.patrol).2 := by
    rw [hchosen, List.getLast?_singleton]
  rw [hlast] at hwaypoint
  rw [hlength] at hgenerated hstate
  refine ⟨[m], _, [m'], _, _, _, h, h', hfirst, hfirst', (hsame 0 _ _ hfirst hfirst').2, hwaypoint,
    (hheaded (hlength.trans hlength'.symm)).symm.trans hwaypoint, hgenerated, ?_⟩
  rw [hstate]
  rfl

end Skirmish.Enemy
