import Skirmish.Proofs.Yaml.Tables
import Skirmish.Tuning

/-!
# What a tuning file gives

A tuning file is made of tables, and each number has its place in one of them.

* `Tuning.Section` and `Tuning.Field.path` — the tables of a tuning file, and where in them each
  number stands;
* `Tuning.overlaid` — the usual tuning with some of its numbers replaced;
* `Tuning.IsSheet` — documents of tables with such numbers in their places;
* `Tuning.Describes` — what one section gives, and `Tuning.DescribesTuning` what all of them give
  together;
* `Tuning.settles_tuning` — a tuning is read exactly if it is what the document gives;
* `Tuning.describesTuning_iff` — that is the usual tuning with the numbers of a sheet in it.

Each reader is matched with what it may answer, from the numbers up to the whole tuning. Where there
is no section at all, it is as if there were one without numbers.
-/

namespace Skirmish.Tuning

open Yaml (Document Node Reading Source)
open Yaml.Reading (Settles settles_pure settles_fields settles_single)

/-! ### Sections and fields -/

/-- The tables of a tuning file. -/
inductive Section where
  | whole
  | behavior
  | patrol
  | steering
  | archetype
deriving DecidableEq, Repr

namespace Section

/-- The names that lead to a table. -/
def path : Section → List String
  | whole => []
  | behavior => ["behavior"]
  | patrol => ["behavior", "patrol"]
  | steering => ["behavior", "steering"]
  | archetype => ["archetype"]

/-- The names known in a table. -/
def names : Section → List String
  | whole => ["behavior", "archetype"]
  | behavior => ["patrol", "steering"]
  | patrol => ["ring_min", "ring_max", "arrival_tolerance"]
  | steering => ["facing_tolerance", "drag_factor", "drag_reference_hz", "max_lead_seconds"]
  | archetype =>
    ["radius", "health", "vision_radius", "vision_hysteresis", "turn_speed",
      "acceleration", "max_speed"]

end Section

def Field.place : Field → Section
  | ringMin | ringMax | arrivalTolerance => .patrol
  | facingTolerance | dragFactor | dragReferenceHz | maxLeadSeconds => .steering
  | radius | health | visionRadius | visionHysteresis | turnSpeed | acceleration | maxSpeed =>
    .archetype

def Field.name : Field → String
  | ringMin => "ring_min"
  | ringMax => "ring_max"
  | arrivalTolerance => "arrival_tolerance"
  | facingTolerance => "facing_tolerance"
  | dragFactor => "drag_factor"
  | dragReferenceHz => "drag_reference_hz"
  | maxLeadSeconds => "max_lead_seconds"
  | radius => "radius"
  | health => "health"
  | visionRadius => "vision_radius"
  | visionHysteresis => "vision_hysteresis"
  | turnSpeed => "turn_speed"
  | acceleration => "acceleration"
  | maxSpeed => "max_speed"

/-- The names that lead to a number. -/
def Field.path (f : Field) : List String :=
  f.place.path ++ [f.name]

/-- Messages call a number by the last two of the names that lead to it. -/
theorem Field.text_eq (f : Field) : f.text = ".".intercalate (f.path.drop (f.path.length - 2)) := by
  cases f <;> decide

/-- The numbers of a patrol, a steering and an archetype. -/
def Patrol.fields : List Field := [.ringMin, .ringMax, .arrivalTolerance]

@[inherit_doc Patrol.fields]
def Steering.fields : List Field :=
  [.facingTolerance, .dragFactor, .dragReferenceHz, .maxLeadSeconds]

@[inherit_doc Patrol.fields]
def Archetype.fields : List Field :=
  [.radius, .health, .visionRadius, .visionHysteresis, .turnSpeed, .acceleration, .maxSpeed]

/-- **The usual tuning with some of its numbers replaced.** -/
def overlaid (given : Field → Option Float32) : Tuning where
  behavior :=
    { patrol :=
        { ringMin := (given .ringMin).getD Patrol.usual.ringMin
          ringMax := (given .ringMax).getD Patrol.usual.ringMax
          arrivalTolerance := (given .arrivalTolerance).getD Patrol.usual.arrivalTolerance }
      steering :=
        { facingTolerance := (given .facingTolerance).getD Steering.usual.facingTolerance
          dragFactor := (given .dragFactor).getD Steering.usual.dragFactor
          dragReferenceHz := (given .dragReferenceHz).getD Steering.usual.dragReferenceHz
          maxLeadSeconds := (given .maxLeadSeconds).getD Steering.usual.maxLeadSeconds } }
  archetype :=
    { radius := (given .radius).getD Archetype.usual.radius
      health := (given .health).getD Archetype.usual.health
      visionRadius := (given .visionRadius).getD Archetype.usual.visionRadius
      visionHysteresis := (given .visionHysteresis).getD Archetype.usual.visionHysteresis
      turnSpeed := (given .turnSpeed).getD Archetype.usual.turnSpeed
      acceleration := (given .acceleration).getD Archetype.usual.acceleration
      maxSpeed := (given .maxSpeed).getD Archetype.usual.maxSpeed }

/-- Values among which there is the number given, or of which there are none if none is given. -/
def Gives (d : Document) (values : List Node) (number : Option Float32) : Prop :=
  values.map (·.single? d) = number.toList.map some

instance (d : Document) (values : List Node) (number : Option Float32) :
    Decidable (Gives d values number) :=
  inferInstanceAs (Decidable (_ = _))

/-- **A sheet of numbers:** a document of tables with the numbers given where they belong. -/
structure IsSheet (d : Document) (given : Field → Option Float32) : Prop where
  /-- There are tables, where there is anything, and no known name occurs twice in one. -/
  tables : ∀ s : Section, ∀ node ∈ d.valuesAt s.path, node.IsTable d s.names
  /-- Where a number belongs, there is the one given, or nothing if none is given. -/
  numbers : ∀ f : Field, Gives d (d.valuesAt f.path) (given f)

/-! ### Numbers for slots -/

section Slots

variable {d : Document} {σ : Type} {slots : List (Slot σ)} {number : Option Float32} {base : σ}

theorem gives_nil_iff : Gives d [] number ↔ number = none := by
  cases number with
  | none => exact iff_of_true rfl rfl
  | some x => exact iff_of_false nofun nofun

theorem gives_singleton_iff {value : Node} :
    Gives d [value] number ↔ ∃ x, value.single? d = some x ∧ number = some x := by
  unfold Gives
  cases number with
  | none => simp
  | some x => simp

theorem Gives.unique {values : List Node} {number' : Option Float32} (h : Gives d values number)
    (h' : Gives d values number') : number = number' := by
  have hsame : number.toList.map some = number'.toList.map some := h.symm.trans h'
  -- lists of the same values are of the same length
  match number, number', hsame with
  | none, none, _ => rfl
  | some x, some y, hsame => exact (List.cons.inj hsame).1

/-- A record in which the numbers given replace those of the base. -/
def refill (slots : List (Slot σ)) (numbers : List (Option Float32)) (base : σ) : σ :=
  (slots.zip numbers).foldl (fun record (slot, number) =>
    number.elim record (slot.set · record)) base

theorem refill_eq (hkeep : ∀ slot ∈ slots, ∀ record, slot.set (slot.get record) record = record)
    (numbers : List (Option Float32)) (base : σ) :
    refill slots numbers base =
      (slots.zip numbers).foldl (fun record (slot, number) =>
        slot.set (number.getD (slot.get record)) record) base := by
  -- slot by slot, and what is put back where it came from changes nothing
  refine List.foldl_ext _ _ base fun record (slot, number) hmem => ?_
  cases number with
  | none => exact (hkeep slot (List.of_mem_zip hmem).1 record).symm
  | some x => rfl

theorem settles_slot (slot : Slot σ) (value : Option Node) :
    Settles d (value.elim (pure base) fun value => do return slot.set (← Source.single value) base)
      (fun record => ∃ number, Gives d value.toList number ∧
        record = number.elim base (slot.set · base)) 1 := by
  -- nothing to read, or one value that has to be a number
  cases value with
  | none =>
    refine (settles_pure base).congr zero_le_one fun record => ?_
    simp [gives_nil_iff]
  | some value =>
    refine ((settles_single value).bind fun x _ =>
      settles_pure (slot.set x base)).congr le_rfl fun record => ?_
    simp only [Option.toList_some, gives_singleton_iff]
    constructor
    · rintro ⟨x, hx, rfl⟩
      exact ⟨some x, ⟨x, hx, rfl⟩, rfl⟩
    · rintro ⟨_, ⟨x, hx, rfl⟩, rfl⟩
      exact ⟨x, hx, rfl⟩

theorem fill_cons (slot : Slot σ) (slots : List (Slot σ)) (value : Option Node)
    (values : List (Option Node)) (base : σ) :
    fill (slot :: slots) (value :: values) base =
      (value.elim (pure base) fun value => do return slot.set (← Source.single value) base) >>=
        fill slots values := by
  unfold fill
  rw [List.zip_cons_cons, List.foldlM_cons]
  cases value with
  | none => rfl
  | some value => rfl

theorem settles_fill (slots : List (Slot σ)) {values : List (Option Node)}
    (hlength : slots.length = values.length) (base : σ) :
    Settles d (fill slots values base)
      (fun record => ∃ numbers, List.Forall₂ (Gives d) (values.map Option.toList) numbers ∧
        record = refill slots numbers base) slots.length := by
  -- on the slots, with the record that the slots before have filled
  induction slots generalizing values base with
  | nil =>
    obtain rfl := List.length_eq_zero_iff.mp hlength.symm
    refine (settles_pure base).congr le_rfl fun record => ?_
    constructor
    · rintro rfl
      exact ⟨[], .nil, rfl⟩
    · rintro ⟨numbers, hnumbers, rfl⟩
      rfl
  | cons slot slots ih =>
    obtain ⟨value, values, rfl⟩ := List.exists_cons_of_length_eq_add_one hlength.symm
    rw [fill_cons]
    refine ((settles_slot slot value).bind fun record _ => ih (Nat.succ.inj hlength) record).congr
      (Nat.add_comm 1 _).le fun record => ?_
    simp only [List.map_cons, List.forall₂_cons_left_iff]
    constructor
    · rintro ⟨_, ⟨number, hnumber, rfl⟩, numbers, hnumbers, rfl⟩
      exact ⟨number :: numbers, ⟨number, numbers, hnumber, hnumbers, rfl⟩, rfl⟩
    · rintro ⟨_, ⟨number, numbers, hnumber, hnumbers, rfl⟩, rfl⟩
      exact ⟨_, ⟨number, hnumber, rfl⟩, numbers, hnumbers, rfl⟩

end Slots

/-! ### Sections -/

section Sections

variable {d : Document} {σ : Type} {slots : List (Slot σ)} {fields : List Field}
  {s : Section} {usual : σ}

/-- **A record over the usual one,** as a section of a document gives it. -/
structure Describes (d : Document) (s : Section) (slots : List (Slot σ)) (fields : List Field)
    (usual record : σ) : Prop where
  /-- The section is a table, if there is any. -/
  tables : ∀ node ∈ d.valuesAt s.path, node.IsTable d s.names
  /-- The numbers in it replace the usual ones. -/
  refilled : ∃ numbers, List.Forall₂ (Gives d) (fields.map fun f => d.valuesAt f.path) numbers ∧
    record = refill slots numbers usual

/-- Fields that belong to the slots of a section: they have the section's names, in their order. -/
structure Matches (s : Section) (slots : List (Slot σ)) (fields : List Field) : Prop where
  /-- The slots have the names. -/
  slots : slots.map (·.name) = s.names
  /-- The fields have the names in the section. -/
  fields : fields.map Field.path = s.names.map fun name => s.path ++ [name]

theorem Matches.valuesAt_eq (h : Matches s slots fields) :
    (fields.map fun f => d.valuesAt f.path) =
      s.names.map fun name => (d.valuesAt s.path).flatMap fun node => node.under d name :=
  calc (fields.map fun f => d.valuesAt f.path)
    _ = (fields.map Field.path).map d.valuesAt := by rw [List.map_map]; rfl
    _ = s.names.map fun name => d.valuesAt (s.path ++ [name]) := by rw [h.fields, List.map_map]; rfl
    _ = _ := List.map_congr_left fun name _ => d.valuesAt_concat s.path name

theorem fill_none (slots : List (Slot σ)) (names : List String) (base : σ) :
    fill slots (names.map fun _ => (none : Option Node)) base = pure base := by
  -- on the slots, none of which has anything to be filled with
  induction slots generalizing names with
  | nil => rfl
  | cons slot slots ih =>
    cases names with
    | nil => rfl
    | cons name names => exact ih names

/-- **A section of numbers** is as usual, except for the numbers in it. -/
theorem settles_section (hfits : d.Fits) (h : Matches s slots fields) {value : Option Node}
    (hvalue : d.valuesAt s.path = value.toList) :
    Settles d (part usual (overlay slots usual) value) (Describes d s slots fields usual)
      (d.root.extent + 1 + slots.length) := by
  have hfields := h.valuesAt_eq (d := d)
  have hlength : slots.length = s.names.length := by rw [← h.slots, List.length_map]
  -- without the section the usual record is kept as it is
  cases value with
  | none =>
    -- no section, and no numbers for its slots
    have hnone : (fields.map fun f => d.valuesAt f.path) =
        (s.names.map fun _ => (none : Option Node)).map Option.toList := by
      rw [hfields, hvalue, List.map_map]
      rfl
    have htables : ∀ node ∈ d.valuesAt s.path, node.IsTable d s.names := by
      rw [hvalue]
      exact List.forall_mem_nil _
    rw [part, ← fill_none slots s.names usual]
    have hlengths : slots.length = (s.names.map fun _ => (none : Option Node)).length := by
      rw [List.length_map, hlength]
    refine (settles_fill slots hlengths usual).congr (by omega) fun record => ?_
    rw [← hnone]
    exact ⟨fun hrefilled => ⟨htables, hrefilled⟩, fun hdescribes => hdescribes.refilled⟩
  | some node =>
    -- the only section there is, with the values under its names
    have hunder : (fields.map fun f => d.valuesAt f.path) = s.names.map (node.under d) := by
      rw [hfields, hvalue]
      exact List.map_congr_left fun name _ => List.flatMap_singleton _ node
    have htables : (∀ other ∈ d.valuesAt s.path, other.IsTable d s.names) ↔
        node.IsTable d s.names := by
      rw [hvalue]
      exact List.forall_mem_singleton
    have hnode : node ∈ d.valuesAt s.path := hvalue ▸ List.mem_singleton_self node
    have hprice : node.tollOfNames d ≤ d.root.extent + 1 := Document.tollOfNames_le hfits hnode
    have hread := (settles_fields s.names node).bind fun values hvalues =>
      settles_fill slots (by rw [hlength, ← List.length_map (node.under d), hvalues.2,
        List.length_map]) usual
    rw [part, overlay, h.slots]
    refine hread.congr (Nat.add_le_add_right hprice _) fun record => ?_
    constructor
    · rintro ⟨values, ⟨htable, hvalues⟩, hrefilled⟩
      exact ⟨htables.mpr htable, by rwa [hunder, hvalues]⟩
    · rintro ⟨htable, hrefilled⟩
      obtain ⟨values, hvalues⟩ := (htables.mp htable).exists_fields
      rw [hunder, hvalues] at hrefilled
      exact ⟨values, ⟨htables.mp htable, hvalues⟩, hrefilled⟩

end Sections

/-! ### The whole tuning -/

section Whole

variable {d : Document}

theorem matches_patrol : Matches .patrol Patrol.slots Patrol.fields := ⟨rfl, rfl⟩

theorem matches_steering : Matches .steering Steering.slots Steering.fields := ⟨rfl, rfl⟩

theorem matches_archetype : Matches .archetype Archetype.slots Archetype.fields := ⟨rfl, rfl⟩

/-- **A table with two names** is read if it is a table and what is under the names can be read. -/
theorem settles_pair {α : Type} {s : Section} {first second : String} {node : Node}
    {next : List (Option Node) → Reading α} {ok : α → Prop} {most : ℕ} (hfits : d.Fits)
    (hnode : d.valuesAt s.path = [node])
    (hnext : ∀ x y : Option Node, d.valuesAt (s.path ++ [first]) = x.toList →
      d.valuesAt (s.path ++ [second]) = y.toList → Settles d (next [x, y]) ok most) :
    Settles d (Source.fields [first, second] node >>= next)
      (fun a => node.IsTable d [first, second] ∧ ok a) (d.root.extent + 1 + most) := by
  have hmem : node ∈ d.valuesAt s.path := hnode ▸ List.mem_singleton_self node
  have hunder (name : String) : d.valuesAt (s.path ++ [name]) = node.under d name := by
    rw [Document.valuesAt_concat, hnode]
    exact List.flatMap_singleton _ node
  have hread (fields : List (Option Node))
      (hfields : node.IsTable d [first, second] ∧
        [first, second].map (node.under d) = fields.map Option.toList) :
      Settles d (next fields) ok most := by
    -- there is one field for each of the names
    obtain ⟨-, hfields⟩ := hfields
    have hlength : fields.length = 2 := by
      rw [← List.length_map Option.toList, ← hfields, List.length_map]
      rfl
    obtain ⟨x, y, rfl⟩ := List.length_eq_two.mp hlength
    obtain ⟨hfirst, hrest⟩ := List.cons.inj hfields
    obtain ⟨hsecond, -⟩ := List.cons.inj hrest
    exact hnext x y ((hunder first).trans hfirst) ((hunder second).trans hsecond)
  refine ((settles_fields [first, second] node).bind hread).congr
    (Nat.add_le_add_right (Document.tollOfNames_le hfits hmem) most) fun a => ?_
  constructor
  · rintro ⟨_, ⟨htable, -⟩, hok⟩
    exact ⟨htable, hok⟩
  · rintro ⟨htable, hok⟩
    obtain ⟨fields, hfields⟩ := htable.exists_fields
    exact ⟨fields, ⟨htable, hfields⟩, hok⟩

/-- **A behaviour,** as a document gives it. -/
structure DescribesBehavior (d : Document) (b : Behavior) : Prop where
  /-- It is a table, if there is any. -/
  tables : ∀ node ∈ d.valuesAt Section.behavior.path, node.IsTable d Section.behavior.names
  /-- Its patrol. -/
  patrol : Describes d .patrol Patrol.slots Patrol.fields .usual b.patrol
  /-- Its steering. -/
  steering : Describes d .steering Steering.slots Steering.fields .usual b.steering

theorem settles_parts (hfits : d.Fits) {patrol steering : Option Node}
    (hpatrol : d.valuesAt Section.patrol.path = patrol.toList)
    (hsteering : d.valuesAt Section.steering.path = steering.toList) :
    Settles d
      (do return ⟨← part .usual (overlay Patrol.slots .usual) patrol,
        ← part .usual (overlay Steering.slots .usual) steering⟩)
      (fun b : Behavior => Describes d .patrol Patrol.slots Patrol.fields .usual b.patrol ∧
        Describes d .steering Steering.slots Steering.fields .usual b.steering)
      (2 * d.root.extent + 9) := by
  have hslots : Patrol.slots.length + Steering.slots.length = 7 := rfl
  have hmake (patrol : Patrol) (steering : Steering) (b : Behavior) :
      b = ⟨patrol, steering⟩ ↔ b.patrol = patrol ∧ b.steering = steering := by
    cases b
    rw [Behavior.mk.injEq]
  -- seven slots, and two tables whose names are looked through
  exact ((settles_section hfits matches_patrol hpatrol).make
    (settles_section hfits matches_steering hsteering) hmake).congr (by omega) fun b => Iff.rfl

theorem settles_behavior (hfits : d.Fits) {value : Option Node}
    (hvalue : d.valuesAt Section.behavior.path = value.toList) :
    Settles d (part .usual Behavior.read value) (DescribesBehavior d) (3 * d.root.extent + 10) := by
  cases value with
  | none =>
    -- without a behaviour there is neither a patrol nor a steering
    have hnone (name : String) :
        d.valuesAt (Section.behavior.path ++ [name]) = (none : Option Node).toList := by
      rw [Document.valuesAt_concat, hvalue]
      rfl
    have htables : ∀ node ∈ d.valuesAt Section.behavior.path,
        node.IsTable d Section.behavior.names := by
      rw [hvalue]
      exact List.forall_mem_nil _
    refine (settles_parts hfits (hnone "patrol") (hnone "steering")).congr (by omega) fun b => ?_
    exact ⟨fun h => ⟨htables, h.1, h.2⟩, fun h => ⟨h.patrol, h.steering⟩⟩
  | some node =>
    have htables :
        (∀ other ∈ d.valuesAt Section.behavior.path, other.IsTable d Section.behavior.names) ↔
          node.IsTable d ["patrol", "steering"] := by
      rw [hvalue]
      exact List.forall_mem_singleton
    refine (settles_pair (s := .behavior) hfits hvalue fun patrol steering hpatrol hsteering =>
      settles_parts hfits hpatrol hsteering).congr (by omega) fun b => ?_
    exact ⟨fun h => ⟨htables.mpr h.1, h.2.1, h.2.2⟩,
      fun h => ⟨htables.mp h.tables, h.patrol, h.steering⟩⟩

/-- **A tuning,** as a document gives it. -/
structure DescribesTuning (d : Document) (t : Tuning) : Prop where
  /-- The document is a table. -/
  table : d.root.IsTable d Section.whole.names
  /-- Its behaviour. -/
  behavior : DescribesBehavior d t.behavior
  /-- Its archetype. -/
  archetype : Describes d .archetype Archetype.slots Archetype.fields .usual t.archetype

theorem settles_tuning (hfits : d.Fits) :
    Settles d (read d.root) (DescribesTuning d) (5 * d.root.extent + 19) := by
  have hslots : Archetype.slots.length = 7 := rfl
  have hmake (behavior : Behavior) (archetype : Archetype) (t : Tuning) :
      t = ⟨behavior, archetype⟩ ↔ t.behavior = behavior ∧ t.archetype = archetype := by
    cases t
    rw [Tuning.mk.injEq]
  have hparts {behavior archetype : Option Node}
      (hbehavior : d.valuesAt Section.behavior.path = behavior.toList)
      (harchetype : d.valuesAt Section.archetype.path = archetype.toList) :
      Settles d (ofParts behavior archetype)
        (fun t => DescribesBehavior d t.behavior ∧
          Describes d .archetype Archetype.slots Archetype.fields .usual t.archetype)
        (4 * d.root.extent + 18) :=
    ((settles_behavior hfits hbehavior).make (settles_section hfits matches_archetype harchetype)
      hmake).congr (by omega) fun t => Iff.rfl
  -- the root is one more table, which is always there
  refine (settles_pair (s := .whole) hfits rfl fun behavior archetype hbehavior harchetype =>
    hparts hbehavior harchetype).congr (by omega) fun t => ?_
  exact ⟨fun h => ⟨h.1, h.2.1, h.2.2⟩, fun h => ⟨h.table, h.behavior, h.archetype⟩⟩

/-! ### Sheets -/

theorem Describes.exists_number {σ : Type} {s : Section} {slots : List (Slot σ)}
    {fields : List Field} {usual record : σ} (h : Describes d s slots fields usual record)
    {f : Field} (hf : f ∈ fields) :
    ∃ number, Gives d (d.valuesAt f.path) number := by
  obtain ⟨numbers, hnumbers, -⟩ := h.refilled
  have hall : List.Forall₂ (fun f number => (∃ number, Gives d (d.valuesAt f.path) number) ∧
      Gives d (d.valuesAt f.path) number) fields numbers :=
    (List.forall₂_map_left_iff.mp hnumbers).imp fun f number h => ⟨⟨number, h⟩, h⟩
  exact ((List.forall₂_and_left fields numbers).mp hall).1 f hf

variable {given : Field → Option Float32} (hgiven : ∀ f, Gives d (d.valuesAt f.path) (given f))
include hgiven

/-- **The record that a section describes,** if it is known which numbers are given. -/
theorem describes_iff {σ : Type} {s : Section} {slots : List (Slot σ)} {fields : List Field}
    {usual record : σ} :
    Describes d s slots fields usual record ↔
      (∀ node ∈ d.valuesAt s.path, node.IsTable d s.names) ∧
        record = refill slots (fields.map given) usual := by
  have hall : List.Forall₂ (Gives d) (fields.map fun f => d.valuesAt f.path)
      (fields.map given) := by
    rw [List.forall₂_map_left_iff, List.forall₂_map_right_iff, List.forall₂_same]
    exact fun f _ => hgiven f
  constructor
  · rintro ⟨htables, numbers, hnumbers, rfl⟩
    -- the numbers given are the only ones that can be read there
    have hsame : numbers = fields.map given :=
      List.right_unique_forall₂' (fun _ _ _ h h' => h.unique h') hnumbers hall
    exact ⟨htables, by rw [hsame]⟩
  · rintro ⟨htables, rfl⟩
    exact ⟨htables, fields.map given, hall, rfl⟩

omit hgiven in
theorem eq_overlaid_iff (t : Tuning) :
    t = overlaid given ↔
      (t.behavior.patrol = refill Patrol.slots (Patrol.fields.map given) .usual ∧
        t.behavior.steering = refill Steering.slots (Steering.fields.map given) .usual) ∧
      t.archetype = refill Archetype.slots (Archetype.fields.map given) .usual := by
  -- slot by slot, each slot names a field of its own
  have hpatrol : refill Patrol.slots (Patrol.fields.map given) .usual =
      (overlaid given).behavior.patrol := by
    rw [refill_eq (by simp [Patrol.slots])]
    rfl
  have hsteering : refill Steering.slots (Steering.fields.map given) .usual =
      (overlaid given).behavior.steering := by
    rw [refill_eq (by simp [Steering.slots])]
    rfl
  have harchetype : refill Archetype.slots (Archetype.fields.map given) .usual =
      (overlaid given).archetype := by
    rw [refill_eq (by simp [Archetype.slots])]
    rfl
  rw [hpatrol, hsteering, harchetype]
  constructor
  · rintro rfl
    exact ⟨⟨rfl, rfl⟩, rfl⟩
  · rintro ⟨⟨hpatrol, hsteering⟩, harchetype⟩
    obtain ⟨⟨patrol, steering⟩, archetype⟩ := t
    subst hpatrol hsteering harchetype
    rfl

/-- **What a sheet describes** is the usual tuning with the numbers given in place of the usual
ones. -/
theorem describesTuning_iff (t : Tuning) :
    DescribesTuning d t ↔ IsSheet d given ∧ t = overlaid given := by
  rw [eq_overlaid_iff]
  constructor
  · rintro ⟨htable, ⟨hbehavior, hpatrol, hsteering⟩, harchetype⟩
    obtain ⟨htpatrol, hpatrol⟩ := (describes_iff hgiven).mp hpatrol
    obtain ⟨htsteering, hsteering⟩ := (describes_iff hgiven).mp hsteering
    obtain ⟨htarchetype, harchetype⟩ := (describes_iff hgiven).mp harchetype
    -- each of the five tables has been checked by the reader of its section
    refine ⟨⟨fun s => ?_, hgiven⟩, ⟨hpatrol, hsteering⟩, harchetype⟩
    cases s with
    | whole => exact fun node hnode => List.mem_singleton.mp hnode ▸ htable
    | behavior => exact hbehavior
    | patrol => exact htpatrol
    | steering => exact htsteering
    | archetype => exact htarchetype
  · rintro ⟨⟨htables, -⟩, ⟨hpatrol, hsteering⟩, harchetype⟩
    have htable := htables .whole d.root (List.mem_singleton_self d.root)
    refine ⟨htable, ⟨htables .behavior, ?_, ?_⟩, ?_⟩
    · exact (describes_iff hgiven).mpr ⟨htables .patrol, hpatrol⟩
    · exact (describes_iff hgiven).mpr ⟨htables .steering, hsteering⟩
    · exact (describes_iff hgiven).mpr ⟨htables .archetype, harchetype⟩

omit hgiven in
theorem DescribesTuning.exists_given {t : Tuning} (h : DescribesTuning d t) :
    ∃ given : Field → Option Float32, ∀ f, Gives d (d.valuesAt f.path) (given f) := by
  -- each field belongs to one of the three sections of numbers
  have hnumber (f : Field) : ∃ number, Gives d (d.valuesAt f.path) number := by
    cases f with
    | ringMin | ringMax | arrivalTolerance =>
      exact h.behavior.patrol.exists_number (by simp [Patrol.fields])
    | facingTolerance | dragFactor | dragReferenceHz | maxLeadSeconds =>
      exact h.behavior.steering.exists_number (by simp [Steering.fields])
    | radius | health | visionRadius | visionHysteresis | turnSpeed | acceleration | maxSpeed =>
      exact h.archetype.exists_number (by simp [Archetype.fields])
  choose given hgiven using hnumber
  exact ⟨given, hgiven⟩

end Whole

end Skirmish.Tuning
