import Skirmish.Encounter
import Skirmish.Proofs.Numeric.Sums

/-!
# Valid tunings

Which tunings are fit for use, and what is wrong with the others:

* `Tuning.check_of_ofFile` — files give valid tunings only;
* `Tuning.check_finds_first` — a check names the first demand that fails.
-/

/-! ## Valid tunings

A check is a row of requirements, and it passes if each of them holds. Whatever is read from a file
has passed it.

* `Tuning.bind_eq_ok_iff` — one check before another, by which a row is taken apart;
* `Tuning.Archetype.check_eq_ok_iff` — what the check of an archetype asks for;
* `Tuning.check_of_ofFile` and `Setup.check_of_ofFile` — files give valid tunings only.
-/

namespace Skirmish

namespace Tuning

theorem bind_eq_ok_iff {first : Except Flaw Unit} {next : Unit → Except Flaw Unit} :
    (first >>= next) = .ok () ↔ first = .ok () ∧ next () = .ok () := by
  cases first with
  | ok u => simp [bind, Except.bind]
  | error flaw => simp [bind, Except.bind]

theorem require_eq_ok_iff {condition : Bool} {field : Field} {requirement : Requirement} :
    require condition field requirement = .ok () ↔ condition = true := by
  cases condition with
  | true => simp [require]
  | false => simp [require]

theorem Archetype.check_eq_ok_iff (a : Archetype) :
    a.check = .ok () ↔
      isPositive a.radius = true ∧ isPositive a.health = true ∧ isPositive a.visionRadius = true ∧
        isNonNegative a.visionHysteresis = true ∧ isPositive a.turnSpeed = true ∧
        isPositive a.acceleration = true ∧ isPositive a.maxSpeed = true := by
  unfold Archetype.check requirePositive requireNonNegative
  -- the check is a row of binds, one for each number
  simp only [bind_eq_ok_iff, require_eq_ok_iff]

theorem Steering.check_eq_ok_iff (s : Steering) :
    s.check = .ok () ↔
      isPositive s.facingTolerance = true ∧ isPositive s.dragFactor = true ∧
        (!decide (s.dragFactor > 1)) = true ∧ isPositive s.dragReferenceHz = true ∧
        isNonNegative s.maxLeadSeconds = true := by
  unfold Steering.check requirePositive requireNonNegative
  simp only [bind_eq_ok_iff, require_eq_ok_iff]

theorem isPositive_iff {x : Float32} : isPositive x = true ↔ x.isFinite = true ∧ 0 < x := by
  rw [isPositive, Bool.and_eq_true, decide_eq_true_iff, gt_iff_lt]

theorem turnSpeed_ne_infinity {tuning : Tuning} (valid : tuning.check = .ok ()) :
    tuning.archetype.turnSpeed ≠ Numeric.infinity := by
  have harchetype : tuning.archetype.check = .ok () := (bind_eq_ok_iff.mp valid).2
  obtain ⟨-, -, -, -, hturn, -⟩ := tuning.archetype.check_eq_ok_iff.mp harchetype
  intro hinf
  rw [hinf] at hturn
  -- a positive number has to be finite
  exact absurd hturn (by decide)

/-! ### Files -/

theorem check_of_ofFile {file : Except Unreadable String} {tuning : Tuning}
    (h : ofFile file = .ok tuning) : tuning.check = .ok () := by
  unfold ofFile ofText at h
  split at h
  · cases h
  · split at h
    · cases h
    · split at h
      · next hcheck =>
        obtain rfl := Except.ok.inj h
        exact hcheck
      · cases h

end Tuning

theorem Setup.check_of_ofFile {file : Except Unreadable String} {setup : Setup}
    (h : ofFile file = .ok setup) : setup.tuning.check = .ok () := by
  unfold ofFile ofText at h
  split at h
  · cases h
  · split at h
    · cases h
    · split at h
      · next hcheck =>
        obtain rfl := Except.ok.inj h
        exact hcheck
      · cases h

end Skirmish

/-! ## What a check finds

A tuning that is fit for use meets a row of demands, and a check of a tuning that is not names the
first one that fails.

* `Tuning.IsFit` — the tunings that are fit for use;
* `Tuning.demands` — the demands in their order, each with the flaw that it finds;
* `Tuning.Checks` — what it is to check some demands, for any part of a check
  (`Tuning.Checks.bind`);
* `Tuning.check_finds_first` — the check of a tuning, and what files give.

A check may take for granted what the demands in front of it have established. Two of them do: that
the radii of a ring are in order, and that drag is at most one, is checked by comparing the other
way round, which is the same for finite numbers only.
-/

namespace Skirmish.Tuning

open Numeric

/-! ### Demands -/

/-- **One demand:** what has to hold, and the flaw if it does not. -/
structure Demand where
  /-- The flaw that is found. -/
  flaw : Flaw
  /-- What has to hold. -/
  holds : Prop

def Demand.positive (field : Field) (x : Float32) : Demand :=
  ⟨⟨field, .positive⟩, x.isFinite = true ∧ 0 < x⟩

def Demand.nonNegative (field : Field) (x : Float32) : Demand :=
  ⟨⟨field, .nonNegative⟩, x.isFinite = true ∧ 0 ≤ x⟩

def Patrol.demands (p : Patrol) : List Demand :=
  [.nonNegative .ringMin p.ringMin, .nonNegative .ringMax p.ringMax,
    ⟨⟨.ringMin, .withinRing⟩, p.ringMin ≤ p.ringMax⟩,
      .positive .arrivalTolerance p.arrivalTolerance]

def Steering.demands (s : Steering) : List Demand :=
  [.positive .facingTolerance s.facingTolerance, .positive .dragFactor s.dragFactor,
    ⟨⟨.dragFactor, .atMostOne⟩, s.dragFactor ≤ 1⟩, .positive .dragReferenceHz s.dragReferenceHz,
    .nonNegative .maxLeadSeconds s.maxLeadSeconds]

def Archetype.demands (a : Archetype) : List Demand :=
  [.positive .radius a.radius, .positive .health a.health, .positive .visionRadius a.visionRadius,
    .nonNegative .visionHysteresis a.visionHysteresis, .positive .turnSpeed a.turnSpeed,
    .positive .acceleration a.acceleration, .positive .maxSpeed a.maxSpeed]

/-- **The demands on a tuning,** in their order. -/
def demands (t : Tuning) : List Demand :=
  t.behavior.patrol.demands ++ t.behavior.steering.demands ++ t.archetype.demands

/-- **The first flaw:** of the demands, one is not met, and all in front of it are. -/
def IsFirstFlaw (demands : List Demand) (flaw : Flaw) : Prop :=
  ∃ before demand behind, demands = before ++ demand :: behind ∧ (∀ d ∈ before, d.holds) ∧
    ¬ demand.holds ∧ demand.flaw = flaw

variable {demands later : List Demand} {demand : Demand} {flaw : Flaw}

theorem not_isFirstFlaw_nil : ¬ IsFirstFlaw [] flaw := by
  rintro ⟨before, demand, behind, h, -⟩
  exact absurd h.symm (List.append_ne_nil_of_right_ne_nil _ (List.cons_ne_nil _ _))

theorem isFirstFlaw_cons : IsFirstFlaw (demand :: demands) flaw ↔
    (¬ demand.holds ∧ demand.flaw = flaw) ∨ (demand.holds ∧ IsFirstFlaw demands flaw) := by
  refine ⟨?_, ?_⟩
  · rintro ⟨before, d, behind, h, hbefore, hd, hflaw⟩
    -- the first demand is the one that fails, or it is in front of that one
    cases before with
    | nil =>
      obtain ⟨rfl, rfl⟩ := List.cons.inj h
      exact .inl ⟨hd, hflaw⟩
    | cons first rest =>
      obtain ⟨rfl, rfl⟩ := List.cons.inj h
      exact .inr ⟨hbefore demand List.mem_cons_self,
        rest, d, behind, rfl, fun e he => hbefore e (List.mem_cons_of_mem demand he), hd, hflaw⟩
  · rintro (⟨hd, hflaw⟩ | ⟨hd, before, d, behind, rfl, hbefore, hdemand, hflaw⟩)
    · exact ⟨[], demand, demands, rfl, fun _ h => absurd h List.not_mem_nil, hd, hflaw⟩
    · exact ⟨demand :: before, d, behind, rfl, List.forall_mem_cons.mpr ⟨hd, hbefore⟩,
        hdemand, hflaw⟩

theorem isFirstFlaw_append : IsFirstFlaw (demands ++ later) flaw ↔
    IsFirstFlaw demands flaw ∨ ((∀ d ∈ demands, d.holds) ∧ IsFirstFlaw later flaw) := by
  -- on the demands in front
  induction demands with
  | nil => simp [not_isFirstFlaw_nil]
  | cons d rest ih =>
    rw [List.cons_append, isFirstFlaw_cons, isFirstFlaw_cons, ih, List.forall_mem_cons]
    tauto

theorem IsFirstFlaw.not_forall (h : IsFirstFlaw demands flaw) : ¬ ∀ d ∈ demands, d.holds := by
  obtain ⟨before, demand, behind, rfl, -, hd, -⟩ := h
  exact fun hall => hd (hall demand (List.mem_append_right before List.mem_cons_self))

/-! ### Checks -/

/-- **A check of some demands** passes if they are all met, and else gives the first flaw. -/
structure Checks (demands : List Demand) (result : Except Flaw Unit) : Prop where
  /-- It passes if they are all met. -/
  passes : result = .ok () ↔ ∀ d ∈ demands, d.holds
  /-- It gives the first flaw. -/
  finds : ∀ flaw, result = .error flaw ↔ IsFirstFlaw demands flaw

theorem Checks.require {condition : Bool} {field : Field} {requirement : Requirement} {p : Prop}
    (h : condition = true ↔ p) :
    Checks [⟨⟨field, requirement⟩, p⟩] (require condition field requirement) where
  passes := by rw [require_eq_ok_iff, h, List.forall_mem_singleton]
  finds flaw := by
    rw [isFirstFlaw_cons, ← h]
    -- the condition is decided, and with it whether there is a flaw
    cases condition with
    | true => simp [Tuning.require, not_isFirstFlaw_nil]
    | false => simp [Tuning.require]

/-- **One check before another** checks the demands of both. The second one may take those of the
first for granted. -/
theorem Checks.bind {first : Except Flaw Unit} {next : Unit → Except Flaw Unit}
    (h : Checks demands first) (hnext : (∀ d ∈ demands, d.holds) → Checks later (next ())) :
    Checks (demands ++ later) (first >>= next) := by
  cases first with
  | ok u =>
    -- the first demands are met, so the others decide
    have hall : ∀ d ∈ demands, d.holds := h.passes.mp rfl
    have hlater := hnext hall
    refine ⟨?_, fun flaw => ?_⟩
    · rw [List.forall_mem_append]
      exact hlater.passes.trans (and_iff_right hall).symm
    · rw [isFirstFlaw_append]
      refine (hlater.finds flaw).trans ⟨fun hflaw => .inr ⟨hall, hflaw⟩, ?_⟩
      rintro (hflaw | ⟨-, hflaw⟩)
      · exact absurd hall hflaw.not_forall
      · exact hflaw
  | error found =>
    -- the flaw that the first check found is the first of all
    have hfound : IsFirstFlaw demands found := (h.finds found).mp rfl
    refine ⟨⟨nofun, ?_⟩, fun flaw => ?_⟩
    · intro hall
      exact absurd (List.forall_mem_append.mp hall).1 hfound.not_forall
    · rw [isFirstFlaw_append]
      refine (h.finds flaw).trans ⟨.inl, ?_⟩
      rintro (hflaw | ⟨hall, -⟩)
      · exact hflaw
      · exact absurd hall hfound.not_forall

theorem isNonNegative_iff {x : Float32} : isNonNegative x = true ↔ x.isFinite = true ∧ 0 ≤ x := by
  rw [isNonNegative, Bool.and_eq_true, decide_eq_true_iff, ge_iff_le]

theorem checks_positive (field : Field) (x : Float32) :
    Checks [.positive field x] (requirePositive field x) :=
  .require isPositive_iff

theorem checks_nonNegative (field : Field) (x : Float32) :
    Checks [.nonNegative field x] (requireNonNegative field x) :=
  .require isNonNegative_iff

theorem not_greater_iff {x y : Float32} (hx : x.isFinite = true) (hy : y.isFinite = true) :
    (!decide (x > y)) = true ↔ x ≤ y := by
  rw [Bool.not_eq_true', decide_eq_false_iff_not, gt_iff_lt]
  exact (le_iff_not_lt hx hy).symm

/-- The check of a patrol compares the radii when both are known to be finite. -/
theorem Patrol.checks (p : Patrol) : Checks p.demands p.check := by
  refine (checks_nonNegative .ringMin p.ringMin).bind fun hmin => ?_
  refine (checks_nonNegative .ringMax p.ringMax).bind fun hmax => ?_
  -- the comparison is the other way round, which is the same between finite numbers
  have hfinite := not_greater_iff (hmin _ List.mem_cons_self).1 (hmax _ List.mem_cons_self).1
  exact (Checks.require hfinite).bind fun _ => checks_positive .arrivalTolerance p.arrivalTolerance

theorem Steering.checks (s : Steering) : Checks s.demands s.check := by
  refine (checks_positive .facingTolerance s.facingTolerance).bind fun _ => ?_
  refine (checks_positive .dragFactor s.dragFactor).bind fun hdrag => ?_
  -- as before, and the number one is finite
  have hfinite := not_greater_iff (y := 1) (hdrag _ List.mem_cons_self).1 rfl
  refine (Checks.require hfinite).bind fun _ => ?_
  refine (checks_positive .dragReferenceHz s.dragReferenceHz).bind fun _ => ?_
  exact checks_nonNegative .maxLeadSeconds s.maxLeadSeconds

theorem Archetype.checks (a : Archetype) : Checks a.demands a.check := by
  refine (checks_positive .radius a.radius).bind fun _ => ?_
  refine (checks_positive .health a.health).bind fun _ => ?_
  refine (checks_positive .visionRadius a.visionRadius).bind fun _ => ?_
  refine (checks_nonNegative .visionHysteresis a.visionHysteresis).bind fun _ => ?_
  refine (checks_positive .turnSpeed a.turnSpeed).bind fun _ => ?_
  refine (checks_positive .acceleration a.acceleration).bind fun _ => ?_
  exact checks_positive .maxSpeed a.maxSpeed

theorem checks (t : Tuning) : Checks t.demands t.check :=
  (t.behavior.patrol.checks.bind fun _ => t.behavior.steering.checks).bind fun _ =>
    t.archetype.checks

/-! ### Fit tunings -/

/-- **A tuning fit for use.** -/
structure IsFit (t : Tuning) : Prop where
  /-- Four numbers are finite and not negative. -/
  nonNegative : ∀ x ∈ [t.behavior.patrol.ringMin, t.behavior.patrol.ringMax,
    t.behavior.steering.maxLeadSeconds, t.archetype.visionHysteresis], x.isFinite = true ∧ 0 ≤ x
  /-- The other ten are finite and positive. -/
  positive : ∀ x ∈ [t.behavior.patrol.arrivalTolerance, t.behavior.steering.facingTolerance,
    t.behavior.steering.dragFactor, t.behavior.steering.dragReferenceHz, t.archetype.radius,
    t.archetype.health, t.archetype.visionRadius, t.archetype.turnSpeed, t.archetype.acceleration,
    t.archetype.maxSpeed], x.isFinite = true ∧ 0 < x
  /-- The ring has its radii in order. -/
  ordered : t.behavior.patrol.ringMin ≤ t.behavior.patrol.ringMax
  /-- Drag does not speed anything up. -/
  slowing : t.behavior.steering.dragFactor ≤ 1

theorem isFit_iff (t : Tuning) : t.IsFit ↔ ∀ d ∈ t.demands, d.holds := by
  simp only [demands, Patrol.demands, Steering.demands, Archetype.demands, Demand.positive,
    Demand.nonNegative, List.forall_mem_append, List.forall_mem_cons, List.not_mem_nil,
    false_implies, implies_true, and_true]
  -- the same fourteen numbers and two comparisons, in the order of the check and by kind
  refine ⟨?_, ?_⟩
  · rintro ⟨hnonNegative, hpositive, hordered, hslowing⟩
    simp only [List.forall_mem_cons, List.not_mem_nil, false_implies, implies_true,
      and_true] at hnonNegative hpositive
    obtain ⟨hmin, hmax, hlead, hhysteresis⟩ := hnonNegative
    obtain ⟨harrival, hfacing, hdrag, hhertz, hradius, hhealth, hvision, hturn, hacceleration,
      hspeed⟩ := hpositive
    exact ⟨⟨⟨hmin, hmax, hordered, harrival⟩, hfacing, hdrag, hslowing, hhertz, hlead⟩,
      hradius, hhealth, hvision, hhysteresis, hturn, hacceleration, hspeed⟩
  · rintro ⟨⟨⟨hmin, hmax, hordered, harrival⟩, hfacing, hdrag, hslowing, hhertz, hlead⟩,
      hradius, hhealth, hvision, hhysteresis, hturn, hacceleration, hspeed⟩
    refine ⟨?_, ?_, hordered, hslowing⟩
    · simp only [List.forall_mem_cons]
      exact ⟨hmin, hmax, hlead, hhysteresis, nofun⟩
    · simp only [List.forall_mem_cons]
      exact ⟨harrival, hfacing, hdrag, hhertz, hradius, hhealth, hvision, hturn,
        hacceleration, hspeed, nofun⟩

theorem isFit_of_check {t : Tuning} (h : t.check = .ok ()) : t.IsFit :=
  t.isFit_iff.mpr (t.checks.passes.mp h)

/-- **A check passes fit tunings only, and finds the first flaw of any other.** The flaws are looked
for in a fixed order, in which the order of the ring's radii counts as a matter of the inner one. So
no file gives a tuning that is not fit for use. -/
theorem check_finds_first (t : Tuning) :
    (t.check = .ok () ↔ t.IsFit) ∧
    (∀ flaw, t.check = .error flaw ↔ IsFirstFlaw t.demands flaw) ∧
    t.demands.map (·.flaw.field.text) =
      ["patrol.ring_min", "patrol.ring_max", "patrol.ring_min", "patrol.arrival_tolerance",
        "steering.facing_tolerance", "steering.drag_factor", "steering.drag_factor",
        "steering.drag_reference_hz", "steering.max_lead_seconds", "archetype.radius",
        "archetype.health", "archetype.vision_radius", "archetype.vision_hysteresis",
        "archetype.turn_speed", "archetype.acceleration", "archetype.max_speed"] ∧
    (∀ text, ofText text = .ok t → t.IsFit) ∧ (∀ file, ofFile file = .ok t → t.IsFit) ∧
    ∀ file setup, Setup.ofFile file = .ok setup → setup.tuning.IsFit := by
  refine ⟨t.checks.passes.trans t.isFit_iff.symm, t.checks.finds, rfl, ?_, ?_, ?_⟩
  · intro text h
    -- a text is read as a file that could be opened
    have hfile : ofFile (.ok text) = .ok t := h
    exact isFit_of_check (check_of_ofFile hfile)
  · intro file h
    exact isFit_of_check (check_of_ofFile h)
  · intro file setup h
    exact isFit_of_check (Setup.check_of_ofFile h)

/-- A tuning with two flaws: drag speeds things up, and the radius is no number. -/
def flawed : Tuning :=
  { Tuning.usual with
    behavior := ⟨.usual, { Steering.usual with dragFactor := 1.5 }⟩
    archetype := { Archetype.usual with radius := notANumber } }

/-- Of two flaws the first one is found, and a file that says nothing gives a tuning that has none.
-/
theorem check_finds_first_flawed :
    flawed.check = .error ⟨.dragFactor, .atMostOne⟩ ∧
    IsFirstFlaw flawed.demands ⟨.dragFactor, .atMostOne⟩ ∧ ¬ flawed.IsFit ∧
    ofText "\x7b\x7d\n" = .ok .usual ∧ IsFit .usual := by
  have hflawed : flawed.check = .error ⟨.dragFactor, .atMostOne⟩ := by decide +kernel
  -- an empty mapping is read as the usual tuning, which passes its check
  have htokens : Yaml.tokens? "\x7b\x7d\n" = some [.flowMappingStart, .flowMappingEnd] := by
    decide +kernel
  have husual : Tuning.usual.check = .ok () := by decide +kernel
  have hread : ((Yaml.Document.ofText? "\x7b\x7d\n").bind fun d => (read d.root).run? d) =
      some .usual := by
    rw [Yaml.Document.ofText?, htokens]
    rfl
  have htext : ofText "\x7b\x7d\n" = .ok .usual := by
    rw [ofText, hread]
    simp only [husual]
  obtain ⟨hpasses, hfinds, -⟩ := check_finds_first flawed
  refine ⟨hflawed, (hfinds _).mp hflawed, ?_, htext, (check_finds_first .usual).2.2.2.1 _ htext⟩
  rw [← hpasses, hflawed]
  exact nofun

end Skirmish.Tuning
