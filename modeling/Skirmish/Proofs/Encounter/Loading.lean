import Skirmish.Proofs.Tuning.Requirements
import Skirmish.Proofs.Yaml.Records

/-!
# Setup files and tuning files

A tuning is read from a setup file without its types being known, and from a tuning file with them.
Where that makes no difference, a setup file without a scenario gives the tuning that it gives as a
tuning file.

* `Tuning.IsSection` and `Tuning.IsBehavior` — sections of numbers, and the section of such
  sections;
* `Tuning.agrees_ofParts` — a tuning of such sections is the same either way, and costs no more;
* `Setup.IsPlain` — the documents of such sections;
* `Setup.ofFile_eq_of_isPlain` — their files give the same tuning or fail alike;
* `Setup.ofFile_blankSection` — a section in which nothing is written is no such section.

To read with types is cheaper, since what is not asked for is not read. So where all of a document
can be read without types, aliases do not run out with types either.
-/

namespace Skirmish

open Yaml (Content Document Node Reading Source)
open Yaml.Reading (Agrees)

namespace Tuning

variable {d : Document} {depth : ℕ} {node : Node} {content : Content} {σ : Type}

def IsSection (d : Document) (slots : List (Slot σ)) (node : Node) : Prop :=
  node.IsRecord d fun name value => name ∈ slots.map (·.name) → value.IsNumber d

/-- A section of sections. -/
def IsBehavior (d : Document) (node : Node) : Prop :=
  node.IsRecord d fun name value =>
    (name = "patrol" → IsSection d Patrol.slots value) ∧
      (name = "steering" → IsSection d Steering.slots value)

theorem agrees_fill {slots : List (Slot σ)} {fields : List (Option Node)}
    (h : List.Forall₂ (fun _ field => ∀ value, field = some value →
      value.IsNumber d ∧ Content.of? d depth value = some (Content.orNull d depth value))
      slots fields)
    (base : σ) :
    Agrees d (fill slots fields base)
      (fill slots (fields.map (Option.map (Content.orNull d depth))) base)
      (fields.map (Record.sizeOf? (Content.toll d depth))).sum := by
  -- on the slots with their fields; what the filled ones give is the base of the others
  induction h generalizing base with
  | nil => exact Reading.agrees_pure base
  | @cons slot field slots fields hfield _ ih =>
    unfold fill at ih ⊢
    rw [List.map_cons, List.map_cons, List.zip_cons_cons, List.zip_cons_cons, List.foldlM_cons,
      List.foldlM_cons, List.sum_cons]
    refine Agrees.bind ?_ ih
    -- a field that is missing leaves its slot as it is
    cases field with
    | none => exact Reading.agrees_pure base
    | some value =>
      obtain ⟨hnumber, hcontent⟩ := hfield value rfl
      have hsingle := (hnumber.agrees_single hcontent).bind fun number =>
        Reading.agrees_pure (slot.set number base)
      -- a number read with its type costs no more than without
      exact hsingle.mono (Content.toll_le depth value)

/-- **A section** is the same with types and without. -/
theorem IsSection.agrees_overlay {slots : List (Slot σ)} (h : IsSection d slots node)
    (hcontent : Content.of? d (depth + 1) node = some content)
    (hslots : (slots.map (·.name)).Nodup) (base : σ) :
    Agrees d (overlay slots base node) (overlay slots base content)
      (Content.toll d (depth + 1) node) := by
  refine Node.IsRecord.agrees_fields h hcontent hslots fun fields hfields => agrees_fill ?_ base
  -- only the fields asked for are looked at, and these are numbers
  refine (List.forall₂_map_left_iff.mp (h.forall₂_fields hcontent hfields)).imp ?_
  rintro slot field ⟨hname, hfield⟩ value hvalue
  obtain ⟨hnumber, hvalue⟩ := hfield value hvalue
  exact ⟨hnumber hname, hvalue⟩

theorem agrees_part {usual : σ} {read : Node → Reading σ} {read' : Content → Reading σ}
    {value : Option Node} (h : ∀ node, value = some node →
      Agrees d (read node) (read' (Content.orNull d depth node)) (Content.toll d depth node)) :
    Agrees d (part usual read value) (part usual read' (value.map (Content.orNull d depth)))
      (Record.sizeOf? (Content.toll d depth) value) := by
  cases value with
  | none => exact Reading.agrees_pure usual
  | some node => exact h node rfl

/-- **A section of sections** is the same with types and without. -/
theorem IsBehavior.agrees_read (h : IsBehavior d node)
    (hcontent : Content.of? d (depth + 2) node = some content) :
    Agrees d (Behavior.read node) (Behavior.read content) (Content.toll d (depth + 2) node) := by
  refine Node.IsRecord.agrees_fields h hcontent (by decide) fun fields hfields => ?_
  -- there are two names, so there are two fields
  match fields, h.forall₂_fields hcontent hfields with
  | [patrol, steering], .cons hpatrol (.cons hsteering .nil) =>
    have hpatrol : Agrees d (part Patrol.usual (overlay Patrol.slots .usual) patrol)
        (part .usual (overlay Patrol.slots .usual) (patrol.map (Content.orNull d (depth + 1)))) _ :=
      agrees_part fun value hvalue => by
        obtain ⟨hkind, hvalue⟩ := hpatrol.2 value hvalue
        exact (hkind.1 rfl).agrees_overlay hvalue (by decide) .usual
    have hsteering : Agrees d (part Steering.usual (overlay Steering.slots .usual) steering)
        (part .usual (overlay Steering.slots .usual)
          (steering.map (Content.orNull d (depth + 1)))) _ :=
      agrees_part fun value hvalue => by
        obtain ⟨hkind, hvalue⟩ := hsteering.2 value hvalue
        exact (hkind.2 rfl).agrees_overlay hvalue (by decide) .usual
    exact hpatrol.bind fun _ => hsteering.bind fun _ => Reading.agrees_pure _

theorem agrees_ofParts {behavior archetype : Option Node}
    (hbehavior : ∀ node, behavior = some node →
      IsBehavior d node ∧ Content.of? d (depth + 2) node = some (Content.orNull d (depth + 2) node))
    (harchetype : ∀ node, archetype = some node →
      IsSection d Archetype.slots node ∧
        Content.of? d (depth + 2) node = some (Content.orNull d (depth + 2) node)) :
    Agrees d (ofParts behavior archetype)
      (ofParts (behavior.map (Content.orNull d (depth + 2)))
        (archetype.map (Content.orNull d (depth + 2))))
      (Record.sizeOf? (Content.toll d (depth + 2)) behavior +
        Record.sizeOf? (Content.toll d (depth + 2)) archetype) := by
  have hbehavior : Agrees d (part Behavior.usual Behavior.read behavior)
      (part .usual Behavior.read (behavior.map (Content.orNull d (depth + 2)))) _ :=
    agrees_part fun node hnode => by
      obtain ⟨hkind, hnode⟩ := hbehavior node hnode
      exact hkind.agrees_read hnode
  have harchetype : Agrees d (part Archetype.usual Archetype.read archetype)
      (part .usual Archetype.read (archetype.map (Content.orNull d (depth + 2)))) _ :=
    agrees_part fun node hnode => by
      obtain ⟨hkind, hnode⟩ := harchetype node hnode
      exact hkind.agrees_overlay hnode (by decide) .usual
  exact hbehavior.bind fun _ => harchetype.bind fun _ => Reading.agrees_pure _

end Tuning

namespace Setup

variable {d : Document} {named : List (String × Node)}

/-- **A document that is the same as a tuning and as a setup.** -/
structure IsPlain (d : Document) : Prop where
  /-- It has no scenario. -/
  unscripted : ∀ e ∈ d.root.entries d, e.1.name? d ≠ some "scenario"
  /-- Its behaviour is a section of sections. -/
  behavior : ∀ e ∈ d.root.entries d, e.1.name? d = some "behavior" → Tuning.IsBehavior d e.2
  /-- Its archetype is a section of numbers. -/
  archetype : ∀ e ∈ d.root.entries d, e.1.name? d = some "archetype" →
    Tuning.IsSection d Tuning.Archetype.slots e.2
  /-- All of it makes sense without types. -/
  readable : ((Content.read (contentDepth + 1) d.root).run? d).isSome = true

/-- The rest of a setup, once the names are known. -/
def ofNamed (named : List (String × Node)) : Reading Setup := do
  let scenario ← Reading.ofOption (Record.only? named "scenario")
  let others ← (named.filter (·.1 ≠ "scenario")).mapM fun e =>
    return (e.1, ← Content.read contentDepth e.2)
  let behavior ← Reading.ofOption (Record.only? others "behavior")
  let archetype ← Reading.ofOption (Record.only? others "archetype")
  return ⟨← Tuning.ofParts behavior archetype, ← Tuning.part .usual Scenario.read scenario⟩

/-- A setup without a scenario, of which the other values are known. -/
def ofOthers (others : List (String × Content)) : Reading Setup := do
  match ← Reading.ofOption (Record.named? ["behavior", "archetype"] others) with
  | [behavior, archetype] => return ⟨← Tuning.ofParts behavior archetype, .usual⟩
  | _ => Reading.refuse

theorem ofOthers_eq (others : List (String × Content)) :
    ofOthers others = do
      let behavior ← Reading.ofOption (Record.only? others "behavior")
      let archetype ← Reading.ofOption (Record.only? others "archetype")
      return ⟨← Tuning.ofParts behavior archetype, .usual⟩ := by
  unfold ofOthers Record.named?
  rw [List.mapM_cons, List.mapM_cons, List.mapM_nil]
  -- the names are looked up in the same order
  cases Record.only? others "behavior" with
  | none => rfl
  | some behavior =>
    cases Record.only? others "archetype" with
    | none => rfl
    | some archetype => rfl

/-- **Without a scenario** all values are read without types. -/
theorem ofNamed_eq (hunscripted : ∀ e ∈ named, e.1 ≠ "scenario") :
    ofNamed named =
      (named.mapM fun e => do return (e.1, ← Content.read contentDepth e.2)) >>= ofOthers := by
  -- no entry is found under that name, and none is left out
  have honly : Record.only? named "scenario" = some none := by
    unfold Record.only?
    rw [List.filter_eq_nil_iff.mpr (by simpa using hunscripted)]
  have hfilter : named.filter (·.1 ≠ "scenario") = named :=
    List.filter_eq_self.mpr (by simpa using hunscripted)
  unfold ofNamed
  rw [honly, hfilter, funext ofOthers_eq]
  rfl

/-- **Values read without types** are contents. -/
theorem costs_others (hvalues : ∀ e ∈ named,
    Content.of? d contentDepth e.2 = some (Content.orNull d contentDepth e.2)) :
    Reading.Costs d (named.mapM fun e => do return (e.1, ← Content.read contentDepth e.2))
      (some (named.map fun e => (e.1, Content.orNull d contentDepth e.2)))
      (named.map fun e => Content.toll d contentDepth e.2).sum := by
  have hall : named.mapM (fun e => (Content.of? d contentDepth e.2).map (e.1, ·)) =
      some (named.map fun e => (e.1, Content.orNull d contentDepth e.2)) :=
    mapM_eq_some_map fun e he => by rw [hvalues e he, Option.map_some]
  rw [← hall]
  exact Reading.Costs.mapM fun e _ => (Content.costs_read contentDepth e.2).map (e.1, ·)

theorem named?_others (names : List String) (named : List (String × Node)) :
    Record.named? names (named.map fun e => (e.1, Content.orNull d contentDepth e.2)) =
      (Record.named? names named).map (List.map (Option.map (Content.orNull d contentDepth))) := by
  have hmap := Record.named?_map Function.injective_id (Content.orNull d contentDepth) names named
  rwa [List.map_id] at hmap

section Named

variable (hunscripted : ∀ e ∈ named, e.1 ≠ "scenario")
  (hvalues : ∀ e ∈ named, Content.of? d contentDepth e.2 = some (Content.orNull d contentDepth e.2))
include hunscripted hvalues

theorem costs_ofNamed_of_none (hfields : Record.named? ["behavior", "archetype"] named = none) :
    Reading.Costs d (ofNamed named) none
      (named.map fun e => Content.toll d contentDepth e.2).sum := by
  have hrefused : ofOthers (named.map fun e => (e.1, Content.orNull d contentDepth e.2)) =
      Reading.refuse := by
    unfold ofOthers
    rw [named?_others, hfields]
    rfl
  rw [ofNamed_eq hunscripted, ← Nat.add_zero (List.sum _)]
  refine (costs_others hvalues).bind_some ?_
  rw [hrefused]
  exact Reading.costs_refuse 0

theorem costs_ofNamed {behavior archetype : Option Node} {answer : Option Tuning}
    (hfields : Record.named? ["behavior", "archetype"] named = some [behavior, archetype])
    (hparts : Tuning.ofParts (behavior.map (Content.orNull d contentDepth))
      (archetype.map (Content.orNull d contentDepth)) = Reading.ofOption answer) :
    Reading.Costs d (ofNamed named) (answer.map fun tuning => ⟨tuning, .usual⟩)
      (named.map fun e => Content.toll d contentDepth e.2).sum := by
  have hothers : ofOthers (named.map fun e => (e.1, Content.orNull d contentDepth e.2)) =
      (do return ⟨← Tuning.ofParts (behavior.map (Content.orNull d contentDepth))
        (archetype.map (Content.orNull d contentDepth)), .usual⟩) := by
    unfold ofOthers
    rw [named?_others, hfields]
    rfl
  rw [ofNamed_eq hunscripted, ← Nat.add_zero (List.sum _)]
  refine (costs_others hvalues).bind_some ?_
  rw [hothers, hparts]
  exact (Reading.costs_ofOption answer).map _

end Named

section Plain

variable (h : IsPlain d) {content : Content}
  (hcontent : Content.of? d (contentDepth + 1) d.root = some content)
  (hnamed : d.root.named? d = some named)
include h hnamed

theorem IsPlain.ne_scenario : ∀ e ∈ named, e.1 ≠ "scenario" := by
  intro e he hscenario
  obtain ⟨entry, hentry, hname, -⟩ := Yaml.exists_entry_of_named? hnamed he
  exact h.unscripted entry hentry (hname.trans (congrArg some hscenario))

include hcontent

theorem IsPlain.agrees_ofParts {behavior archetype : Option Node}
    (hbehavior : Record.only? named "behavior" = some behavior)
    (harchetype : Record.only? named "archetype" = some archetype) :
    Agrees d (Tuning.ofParts behavior archetype)
      (Tuning.ofParts (behavior.map (Content.orNull d contentDepth))
        (archetype.map (Content.orNull d contentDepth)))
      (Record.sizeOf? (Content.toll d contentDepth) behavior +
        Record.sizeOf? (Content.toll d contentDepth) archetype) := by
  -- the two levels of sections are below the depth limit
  have hdepth : contentDepth = 125 + 2 := rfl
  rw [hdepth] at hcontent ⊢
  refine Tuning.agrees_ofParts ?_ ?_
  · rintro node rfl
    obtain ⟨entry, hentry, hname, rfl⟩ :=
      Yaml.exists_entry_of_named? hnamed (Record.mem_of_only? hbehavior)
    exact ⟨h.behavior entry hentry hname, Yaml.of?_of_mem_entries hcontent hentry⟩
  · rintro node rfl
    obtain ⟨entry, hentry, hname, rfl⟩ :=
      Yaml.exists_entry_of_named? hnamed (Record.mem_of_only? harchetype)
    exact ⟨h.archetype entry hentry hname, Yaml.of?_of_mem_entries hcontent hentry⟩

end Plain

/-- **A plain document** is the same as a tuning and as a setup. -/
theorem IsPlain.run?_read (h : IsPlain d) :
    (read d.root).run? d = ((Tuning.read d.root).run? d).map fun tuning => ⟨tuning, .usual⟩ := by
  obtain ⟨content, hrun⟩ := Option.isSome_iff_exists.mp h.readable
  -- what is read without types is within the budget, which bounds either reading
  obtain ⟨hcontent, hbudget⟩ := (Content.costs_read (contentDepth + 1) d.root).of_run? hrun
  have hnames : Reading.Costs d d.root.named (d.root.named? d) (d.root.tollOfNames d) :=
    d.root.costs_named
  have hfields : Reading.Costs d (Source.fields ["behavior", "archetype"] d.root)
      ((d.root.named? d).bind (Record.named? ["behavior", "archetype"])) (d.root.tollOfNames d) :=
    d.root.costs_fields _
  cases hnamed : d.root.named? d with
  | none =>
    -- no mapping either way
    rw [hnamed] at hnames hfields
    have hsetup : Reading.Costs d (read d.root) none _ := hnames.bind_none ofNamed
    have htuning : Reading.Costs d (Tuning.read d.root) none _ := hfields.bind_none _
    rw [hsetup.run?_eq_none, htuning.run?_eq_none, Option.map_none]
  | some named =>
    rw [hnamed] at hnames hfields
    have hunscripted := h.ne_scenario hnamed
    have hvalues : ∀ e ∈ named,
        Content.of? d contentDepth e.2 = some (Content.orNull d contentDepth e.2) := by
      intro e he
      obtain ⟨entry, hentry, -, hvalue⟩ := Yaml.exists_entry_of_named? hnamed he
      rw [← hvalue]
      exact Yaml.of?_of_mem_entries hcontent hentry
    cases hparts : Record.named? ["behavior", "archetype"] named with
    | none =>
      -- a name occurs twice
      rw [Option.bind_some, hparts] at hfields
      have hsetup : Reading.Costs d (read d.root) none _ :=
        hnames.bind_some (costs_ofNamed_of_none hunscripted hvalues hparts)
      have htuning : Reading.Costs d (Tuning.read d.root) none _ := hfields.bind_none _
      rw [hsetup.run?_eq_none, htuning.run?_eq_none, Option.map_none]
    | some fields =>
      rw [Option.bind_some, hparts] at hfields
      -- both readings find the same two nodes
      match fields, forall₂_of_mapM hparts with
      | [behavior, archetype], .cons hbehavior (.cons harchetype .nil) =>
        obtain ⟨answer, price, hprice, hcosts, hanswer⟩ :=
          h.agrees_ofParts hcontent hnamed hbehavior.2 harchetype.2
        have hsetup : Reading.Costs d (read d.root) _ _ :=
          hnames.bind_some (costs_ofNamed hunscripted hvalues hparts hanswer)
        have htuning : Reading.Costs d (Tuning.read d.root) answer _ := hfields.bind_some hcosts
        -- all that is read was paid for when it was read without types
        have hall : d.root.tollOfNames d +
            (named.map fun e => Content.toll d contentDepth e.2).sum ≤
              100 * d.root.extent := by
          rw [← Yaml.map_entries_eq hnamed]
          exact (Yaml.le_toll contentDepth d.root).trans hbudget
        have hsome := Record.sum_named?_le (Content.toll d contentDepth) (by decide) hparts
        rw [List.map_cons, List.map_cons, List.map_nil, List.sum_cons, List.sum_cons,
          List.sum_nil] at hsome
        rw [hsetup.run? hall, htuning.run? (by omega)]

/-! ### Files -/

/-- **A setup file without a scenario** gives the tuning that it gives as a tuning file, or fails
like it. -/
theorem ofFile_eq_of_isPlain {file : Except Unreadable String}
    (h : ∀ text d, file = .ok text → Document.ofText? text = some d → IsPlain d) :
    ofFile file = (Tuning.ofFile file).map fun tuning => ⟨tuning, .usual⟩ := by
  cases file with
  | error reason => rfl
  | ok text =>
    change ofText text = (Tuning.ofText text).map _
    unfold ofText Tuning.ofText
    cases hdocument : Document.ofText? text with
    | none => rfl
    | some d =>
      rw [Option.bind_some, Option.bind_some, (h text d rfl hdocument).run?_read]
      cases (Tuning.read d.root).run? d with
      | none => rfl
      | some tuning =>
        -- the check comes after the reading, and is the same
        cases hcheck : tuning.check with
        | ok u => simp [hcheck, Except.map]
        | error flaw => simp [hcheck, Except.map]

/-- A document with one number in it. -/
def oneNumber : Document :=
  ⟨.mapping none [(.scalar ⟨none, .plain, "archetype"⟩,
    .mapping none [(.scalar ⟨none, .plain, "health"⟩, .scalar ⟨none, .plain, "17"⟩)])], []⟩

theorem ofText?_oneNumber : Document.ofText? "archetype: {health: 17}\n" = some oneNumber := by
  have htokens : Yaml.tokens? "archetype: {health: 17}\n" = some
      [.blockMappingStart, .key, .scalar .plain "archetype", .value, .flowMappingStart, .key,
        .scalar .plain "health", .value, .scalar .plain "17", .flowMappingEnd, .blockEnd] := by
    decide +kernel
  rw [Document.ofText?, htokens]
  rfl

theorem isOrdinary_seventeen : Yaml.Scalar.IsOrdinary ⟨none, .plain, "17"⟩ := by
  have hnatural : Yaml.unsigned? "17".toList = some 17 := by decide
  have hnegative : Yaml.negative? "17".toList = none := by decide
  refine ⟨rfl, by decide, by decide, fun n h => ?_, fun n h => ?_⟩
  · obtain rfl := Option.some.inj (hnatural.symm.trans h)
    decide
  · cases hnegative.symm.trans h

theorem isPlain_oneNumber : IsPlain oneNumber := by
  refine ⟨?_, ?_, ?_, by decide +kernel⟩
  · -- its only entry is no scenario
    intro e he
    obtain rfl := List.mem_singleton.mp he
    decide
  · -- nor a behaviour
    intro e he hname
    obtain rfl := List.mem_singleton.mp he
    exact absurd hname (by decide)
  · -- but an archetype, with one number in it
    intro e he _
    obtain rfl := List.mem_singleton.mp he
    refine ⟨?_, ?_, fun _ _ h => (by cases h), fun _ h => (by cases h)⟩
    · intro e he s hs
      obtain rfl := List.mem_singleton.mp he
      obtain rfl := Node.scalar.inj (Option.some.inj hs)
      exact ⟨"health", rfl⟩
    · intro e he name _ _ s hs
      obtain rfl := List.mem_singleton.mp he
      obtain rfl := Node.scalar.inj (Option.some.inj hs)
      exact isOrdinary_seventeen

/-- One number is read the same from either kind of file. -/
theorem ofFile_oneNumber :
    (∀ text d, (Except.ok "archetype: {health: 17}\n" : Except Unreadable String) = .ok text →
      Document.ofText? text = some d → IsPlain d) ∧
    ofFile (.ok "archetype: {health: 17}\n") =
      (Tuning.ofFile (.ok "archetype: {health: 17}\n")).map fun tuning => ⟨tuning, .usual⟩ := by
  have hplain : ∀ text d,
      (Except.ok "archetype: {health: 17}\n" : Except Unreadable String) = .ok text →
      Document.ofText? text = some d → IsPlain d := by
    intro text d htext hd
    obtain rfl := Except.ok.inj htext
    obtain rfl := Option.some.inj (ofText?_oneNumber.symm.trans hd)
    exact isPlain_oneNumber
  exact ⟨hplain, ofFile_eq_of_isPlain hplain⟩

/-- A document with a section in which nothing is written. -/
def blankSection : Document :=
  ⟨.mapping none [(.scalar ⟨none, .plain, "behavior"⟩, .blank)], []⟩

/-- **A section in which nothing is written** is as usual in a tuning file, and refused in a setup
file. -/
theorem ofFile_blankSection :
    Tuning.ofFile (.ok "behavior:\n") = .ok .usual ∧
      ofFile (.ok "behavior:\n") = .error .malformed := by
  have htokens : Yaml.tokens? "behavior:\n" = some
      [.blockMappingStart, .key, .scalar .plain "behavior", .value, .blockEnd] := by
    decide +kernel
  have hdocument : Document.ofText? "behavior:\n" = some blankSection := by
    rw [Document.ofText?, htokens]
    rfl
  have htuning : (Tuning.read blankSection.root).run? blankSection = some .usual := by
    rfl
  -- the setup reads it without types first, as null, which is no section
  have hsetup : (read blankSection.root).run? blankSection = none := by
    have hrefused : ((read blankSection.root).run? blankSection).isSome = false := by decide +kernel
    simpa using hrefused
  have husual : Tuning.usual.check = .ok () := by decide +kernel
  refine ⟨?_, ?_⟩
  · rw [Tuning.ofFile, Tuning.ofText, hdocument, Option.bind_some, htuning]
    simp only [husual]
  · rw [ofFile, ofText, hdocument, Option.bind_some, hsetup]

end Setup

end Skirmish
