import Skirmish.Proofs.Tuning.Sheets

/-!
# Tuning files as overlays

A tuning file says which of the usual numbers are replaced, and nothing else in it matters.

* `Tuning.run?_read_eq_some_iff` — a tuning is read from a sheet of numbers and from nothing else;
* `Tuning.Agree` — documents in which the same tables and numbers are found under the names that are
  known;
* `Tuning.Agree.of_rearranges` — such are those that differ in the order of their entries and in
  other names;
* `Tuning.ofText_overlays` — the numbers of a file replace the usual ones, unless a name occurs
  twice or a number is none.

A number that is not fit for use is found out only when all of the file has been read. So a file
that cannot be read is malformed, whatever numbers there are in it.
-/

namespace Skirmish.Tuning

open Yaml (Document Node Rearranges)

variable {text : String} {d : Document}

theorem run?_read_eq_some_iff (hdocument : Document.ofText? text = some d) (t : Tuning) :
    (read d.root).run? d = some t ↔ ∃ given, IsSheet d given ∧ t = overlaid given := by
  -- what bounds the price of reading by the size of the document
  have hfits : d.Fits := fun e he => Document.extent_le_of_mem_anchored hdocument he
  have hpositive := d.root.one_le_extent
  rw [(settles_tuning hfits).run?_eq_some_iff (by omega)]
  constructor
  · intro h
    obtain ⟨given, hgiven⟩ := h.exists_given
    exact ⟨given, (describesTuning_iff hgiven t).mp h⟩
  · rintro ⟨given, hsheet, ht⟩
    exact (describesTuning_iff hsheet.numbers t).mpr ⟨hsheet, ht⟩

/-- **Documents that agree about the tuning:** what is table by table in one is so in the other, and
where numbers belong there are the same ones, in whatever order. -/
structure Agree (d d' : Document) : Prop where
  tables : ∀ s : Section, (∀ node ∈ d.valuesAt s.path, node.IsTable d s.names) ↔
    ∀ node ∈ d'.valuesAt s.path, node.IsTable d' s.names
  numbers : ∀ f : Field, ((d.valuesAt f.path).map (·.single? d)).Perm
    ((d'.valuesAt f.path).map (·.single? d'))

theorem Agree.symm {d d' : Document} (h : Agree d d') : Agree d' d :=
  ⟨fun s => (h.tables s).symm, fun f => (h.numbers f).symm⟩

/-- The names known in some table. -/
def knownNames : List String :=
  [Section.whole, .behavior, .patrol, .steering, .archetype].flatMap Section.names

/-- **To write a file in another order,** or with other names in it that nobody asks for, changes
nothing. -/
theorem Agree.of_rearranges {d' : Document} {rel : Node → Node → Prop}
    (h : Rearranges d d' (· ∈ knownNames) rel) (hroot : rel d.root d'.root) : Agree d d' := by
  refine ⟨fun s => ?_, fun f => ?_⟩
  · have hpath : ∀ name ∈ s.path, name ∈ knownNames := by cases s <;> decide
    have hnames : ∀ name ∈ s.names, name ∈ knownNames := by cases s <;> decide
    -- the values on the way are related up to order, and tables do not ask for order
    obtain ⟨values, hperm, hvalues⟩ := h.valuesAt hpath hroot
    calc (∀ node ∈ d.valuesAt s.path, node.IsTable d s.names)
        ↔ ∀ node ∈ values, node.IsTable d s.names := forall_congr' fun node => by
          rw [hperm.mem_iff]
          rfl
      _ ↔ ∀ node ∈ d'.valuesAt s.path, node.IsTable d' s.names :=
        h.forall_isTable_iff hnames hvalues
  · have hpath : ∀ name ∈ f.path, name ∈ knownNames := by cases f <;> decide
    obtain ⟨values, hperm, hvalues⟩ := h.valuesAt hpath hroot
    -- related values are the same numbers
    have hnumbers : values.map (·.single? d) = (d'.valuesAt f.path).map (·.single? d') := by
      rw [← List.forall₂_eq_eq_eq, List.forall₂_map_left_iff, List.forall₂_map_right_iff]
      exact hvalues.imp h.number
    exact (hperm.symm.map _).trans (.of_eq hnumbers)

theorem IsSheet.congr {d d' : Document} {given : Field → Option Float32} (h : IsSheet d given)
    (hagree : Agree d d') : IsSheet d' given := by
  refine ⟨fun s => (hagree.tables s).mp (h.tables s), fun f => ?_⟩
  have hperm : ((d'.valuesAt f.path).map (·.single? d')).Perm ((given f).toList.map some) :=
    h.numbers f ▸ (hagree.numbers f).symm
  -- there is one number at most, and no order
  unfold Gives
  cases hgiven : given f with
  | none =>
    rw [hgiven] at hperm
    exact List.perm_nil.mp hperm
  | some x =>
    rw [hgiven] at hperm
    exact List.perm_singleton.mp hperm

theorem ofText_eq_malformed (hdocument : Document.ofText? text = some d)
    (h : ∀ given, ¬IsSheet d given) : ofText text = .error .malformed := by
  have hrefused : (read d.root).run? d = none := by
    rw [Option.eq_none_iff_forall_ne_some]
    intro t ht
    obtain ⟨given, hsheet, -⟩ := (run?_read_eq_some_iff hdocument t).mp ht
    exact h given hsheet
  rw [ofText, hdocument, Option.bind_some, hrefused]

theorem ofText_eq_overlaid (hdocument : Document.ofText? text = some d)
    {given : Field → Option Float32} (h : IsSheet d given) :
    ofText text =
      match (overlaid given).check with
      | .ok () => .ok (overlaid given)
      | .error flaw => .error (.invalid flaw) := by
  have hread : (read d.root).run? d = some (overlaid given) :=
    (run?_read_eq_some_iff hdocument _).mpr ⟨given, h, rfl⟩
  cases hcheck : (overlaid given).check with
  | ok u => simp only [ofText, hdocument, Option.bind_some, hread, hcheck]
  | error flaw => simp only [ofText, hdocument, Option.bind_some, hread, hcheck]

theorem ofText_eq_of_agree {text' : String} {d' : Document}
    (hdocument : Document.ofText? text = some d) (hdocument' : Document.ofText? text' = some d')
    (hagree : Agree d d') : ofText text' = ofText text := by
  by_cases h : ∃ given, IsSheet d given
  · obtain ⟨given, hsheet⟩ := h
    rw [ofText_eq_overlaid hdocument hsheet, ofText_eq_overlaid hdocument' (hsheet.congr hagree)]
  · -- neither is a sheet
    have hnone : ∀ given, ¬IsSheet d given := not_exists.mp h
    have hnone' : ∀ given, ¬IsSheet d' given :=
      fun given hsheet => hnone given (hsheet.congr hagree.symm)
    rw [ofText_eq_malformed hdocument hnone, ofText_eq_malformed hdocument' hnone']

/-- **A tuning file is an overlay on the usual tuning.** Its numbers replace the usual ones, and the
result is checked. Nothing else in the file matters: to give the entries of its tables in another
order, at any depth, and to have other names in them or not, changes nothing. But a known name that
occurs twice in a table and something that is no number in the place of one spoil it, whatever
numbers there are besides. -/
theorem ofText_overlays (hdocument : Document.ofText? text = some d) :
    (∀ given, IsSheet d given →
      ofText text =
        match (overlaid given).check with
        | .ok () => .ok (overlaid given)
        | .error flaw => .error (.invalid flaw)) ∧
    (∀ text' d', Document.ofText? text' = some d' → Agree d d' → ofText text' = ofText text) ∧
    (∀ text' d' rel, Document.ofText? text' = some d' → Rearranges d d' (· ∈ knownNames) rel →
      rel d.root d'.root → ofText text' = ofText text) ∧
    (∀ s : Section, ∀ node ∈ d.valuesAt s.path, ∀ name ∈ s.names, 2 ≤ (node.under d name).length →
      ofText text = .error .malformed) ∧
    (∀ f : Field, ∀ value ∈ d.valuesAt f.path, value.single? d = none →
      ofText text = .error .malformed) ∧
    ((∀ given, ¬IsSheet d given) → ofText text = .error .malformed) := by
  refine ⟨fun given => ofText_eq_overlaid hdocument,
    fun text' d' hdocument' => ofText_eq_of_agree hdocument hdocument', ?_, ?_, ?_,
    ofText_eq_malformed hdocument⟩
  · -- a rearrangement is one way to agree
    intro text' d' rel hdocument' hrearranges hroot
    exact ofText_eq_of_agree hdocument hdocument' (.of_rearranges hrearranges hroot)
  · intro s node hnode name hname htwice
    apply ofText_eq_malformed hdocument
    intro given hsheet
    have honce : (node.under d name).length ≤ 1 := (hsheet.tables s node hnode).once name hname
    omega
  · intro f value hvalue hrefused
    apply ofText_eq_malformed hdocument
    intro given hsheet
    -- each value in the place of a number is one
    have hnumber : value.single? d ∈ (given f).toList.map some :=
      hsheet.numbers f ▸ List.mem_map_of_mem hvalue
    rw [hrefused] at hnumber
    obtain ⟨x, -, hx⟩ := List.mem_map.mp hnumber
    cases hx

/-! Two numbers, once among other things and once alone. -/

/-- A plain scalar. -/
def word (text : String) : Node := .scalar ⟨none, .plain, text⟩

/-- A mapping by plain names. -/
def table (entries : List (String × Node)) : Node :=
  .mapping none (entries.map fun e => (word e.1, e.2))

theorem under_table (entries : List (String × Node)) (name : String) :
    (table entries).under d name = (entries.filter fun e => e.1 = name).map (·.2) := by
  change ((entries.map fun e => (word e.1, e.2)).filter fun e => e.1.name? d = some name).map _ = _
  rw [List.filter_map, List.map_map]
  -- a plain scalar is its own name
  have hname (e : String × Node) : decide ((word e.1).name? d = some name) = decide (e.1 = name) :=
    decide_eq_decide.mpr Option.some_inj
  exact congrArg _ (List.filter_congr fun e _ => hname e)

/-- An archetype with one of its numbers written elsewhere, and with a mood. -/
def moody : Node :=
  table [("max_speed", .alias 0), ("mood", word "calm"), ("health", word "17")]

/-- A document in which that number is written. -/
def scattered : Document :=
  ⟨table [("fast", word "1e3"), ("archetype", moody)], [(0, word "1e3")]⟩

/-- An archetype with the same numbers and nothing else. -/
def plain : Node :=
  table [("health", word "17"), ("max_speed", word "1e3")]

/-- A document with nothing but that. -/
def orderly : Document :=
  ⟨table [("archetype", plain)], []⟩

/-- A document with a number twice. -/
def twice : Document :=
  ⟨table [("archetype", table [("health", word "-3"), ("health", word "17")])], []⟩

/-- A document with a word for a number. -/
def wordy : Document :=
  ⟨table [("archetype", table [("health", word "-3"), ("radius", word "big")])], []⟩

/-- The numbers of the first two. -/
def fastAndFrail : Field → Option Float32
  | .health => some 17
  | .maxSpeed => some 1000
  | _ => none

theorem ofText?_documents :
    Document.ofText? "fast: &v 1e3\narchetype: {max_speed: *v, mood: calm, health: 17}\n" =
      some scattered ∧
    Document.ofText? "archetype:\n  health: 17\n  max_speed: 1e3\n" = some orderly ∧
    Document.ofText? "archetype: {health: -3, health: 17}\n" = some twice ∧
    Document.ofText? "archetype: {health: -3, radius: big}\n" = some wordy := by
  have hscattered :
      Yaml.tokens? "fast: &v 1e3\narchetype: {max_speed: *v, mood: calm, health: 17}\n" = some
      [.blockMappingStart, .key, .scalar .plain "fast", .value, .anchor "v", .scalar .plain "1e3",
        .key, .scalar .plain "archetype", .value, .flowMappingStart,
        .key, .scalar .plain "max_speed", .value, .alias "v", .flowEntry,
        .key, .scalar .plain "mood", .value, .scalar .plain "calm", .flowEntry,
        .key, .scalar .plain "health", .value, .scalar .plain "17", .flowMappingEnd,
        .blockEnd] := by
    decide +kernel
  have horderly : Yaml.tokens? "archetype:\n  health: 17\n  max_speed: 1e3\n" = some
      [.blockMappingStart, .key, .scalar .plain "archetype", .value, .blockMappingStart,
        .key, .scalar .plain "health", .value, .scalar .plain "17",
        .key, .scalar .plain "max_speed", .value, .scalar .plain "1e3", .blockEnd, .blockEnd] := by
    decide +kernel
  have htwice : Yaml.tokens? "archetype: {health: -3, health: 17}\n" = some
      [.blockMappingStart, .key, .scalar .plain "archetype", .value, .flowMappingStart,
        .key, .scalar .plain "health", .value, .scalar .plain "-3", .flowEntry,
        .key, .scalar .plain "health", .value, .scalar .plain "17", .flowMappingEnd,
        .blockEnd] := by
    decide +kernel
  have hwordy : Yaml.tokens? "archetype: {health: -3, radius: big}\n" = some
      [.blockMappingStart, .key, .scalar .plain "archetype", .value, .flowMappingStart,
        .key, .scalar .plain "health", .value, .scalar .plain "-3", .flowEntry,
        .key, .scalar .plain "radius", .value, .scalar .plain "big", .flowMappingEnd,
        .blockEnd] := by
    decide +kernel
  -- from the tokens on, the documents are computed
  unfold Document.ofText?
  rw [hscattered, horderly, htwice, hwordy]
  exact ⟨rfl, rfl, rfl, rfl⟩

theorem isSheet_scattered : IsSheet scattered fastAndFrail := by
  refine ⟨fun s => ?_, fun f => ?_⟩
  · cases s <;> decide +kernel
  · cases f <;> decide +kernel

/-- What stands in the scattered document for what in the orderly one. -/
inductive StandsFor : Node → Node → Prop
  | whole : StandsFor scattered.root orderly.root
  | archetype : StandsFor moody plain
  | maxSpeed : StandsFor (.alias 0) (word "1e3")
  | health : StandsFor (word "17") (word "17")

theorem rearranges_scattered : Rearranges scattered orderly (· ∈ knownNames) StandsFor where
  mapping v v' h := by cases h <;> decide +kernel
  number v v' h := by cases h <;> decide +kernel
  under v v' h name hname := by
    refine ⟨_, .refl _, ?_⟩
    cases h with
    | whole =>
      -- nobody asks for what is fast
      have hfast : "fast" ≠ name := by
        rintro rfl
        exact absurd hname (by decide)
      change List.Forall₂ _ ((table _).under _ _) ((table _).under _ _)
      rw [under_table, under_table, List.filter_cons_of_neg (by simpa using hfast)]
      by_cases harchetype : "archetype" = name
      · simpa [harchetype] using StandsFor.archetype
      · simp [harchetype]
    | archetype =>
      have hmood : "mood" ≠ name := by
        rintro rfl
        exact absurd hname (by decide)
      rw [moody, plain, under_table, under_table]
      -- the two names that both have, in whatever order, and all others
      by_cases hspeed : "max_speed" = name
      · subst hspeed
        exact .cons .maxSpeed .nil
      · by_cases hhealth : "health" = name
        · subst hhealth
          exact .cons .health .nil
        · simp [hmood, hspeed, hhealth]
    | maxSpeed => exact .nil
    | health => exact .nil

/-- Two numbers replace the usual ones, wherever they are written and whatever else is; a number
that may not be negative is not even looked at where another one is spoilt. -/
theorem ofText_overlays_fastAndFrail :
    ofText "fast: &v 1e3\narchetype: {max_speed: *v, mood: calm, health: 17}\n" =
      .ok (overlaid fastAndFrail) ∧
    Rearranges scattered orderly (· ∈ knownNames) StandsFor ∧
    ofText "archetype:\n  health: 17\n  max_speed: 1e3\n" =
      ofText "fast: &v 1e3\narchetype: {max_speed: *v, mood: calm, health: 17}\n" ∧
    ofText "archetype: {health: -3, health: 17}\n" = .error .malformed ∧
    ofText "archetype: {health: -3, radius: big}\n" = .error .malformed := by
  have hvalid : (overlaid fastAndFrail).check = .ok () := by decide +kernel
  obtain ⟨hscattered, horderly, htwice, hwordy⟩ := ofText?_documents
  refine ⟨?_, rearranges_scattered, ?_, ?_, ?_⟩
  · obtain ⟨hoverlaid, -⟩ := ofText_overlays hscattered
    rw [hoverlaid fastAndFrail isSheet_scattered, hvalid]
  · obtain ⟨-, -, hindependent, -⟩ := ofText_overlays hscattered
    exact hindependent _ orderly StandsFor horderly rearranges_scattered .whole
  · -- the table with the number twice is the archetype
    obtain ⟨-, -, -, hspoilt, -⟩ := ofText_overlays htwice
    exact hspoilt .archetype (table [("health", word "-3"), ("health", word "17")])
      (List.mem_singleton_self _) "health" (by decide) le_rfl
  · obtain ⟨-, -, -, -, hspoilt, -⟩ := ofText_overlays hwordy
    exact hspoilt .radius (word "big") (List.mem_singleton_self _) (by decide +kernel)

end Skirmish.Tuning
