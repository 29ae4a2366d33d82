import Skirmish.CommandLine.Session
import Skirmish.Enemy.Exchange
import Skirmish.Proofs.Geometry.Angles
import Skirmish.Proofs.Json.Numbers
import Skirmish.Proofs.Json.Texts

/-!
# What is exchanged is read as it was written

The two kinds of things that are exchanged with other tools, traces and geometry, lose nothing on
the way:

* `Trace.Log.decodes` — logs of events;
* `Enemy.geometry_decodes` — vectors, targets and landmarks.
-/

/-! ## Traces are read as they were written

An event and a log are read again from the values that stand for them, and these values from their
texts, in either shape. So the text of a trace tells all of it: no two logs have the same one.

* `Event.ofJson?_toJson` and `Log.ofJson?_toJson` — from values;
* `Log.standard_toJson` — the values have texts;
* `Log.decodes` — from texts, with what follows for the texts and for the file that a session
  writes.

Numbers stay integers of 64 bits from end to end.
-/

namespace Skirmish.Trace

open Json (Value Shape Numeral)

theorem standard_natural (n : UInt64) : (Value.natural n).Standard := by
  rw [Value.natural, ← Numeral.literal_ofNat]
  exact .number (Numeral.proper_ofNat n.toNat)

theorem natural?_natural (n : UInt64) : (Value.natural n).natural? = some n := by
  rw [Value.natural, Value.natural?, ← Numeral.literal_ofNat,
    Numeral.ofLiteral?_literal (Numeral.proper_ofNat n.toNat)]
  exact Numeral.natural?_ofNat n

namespace Event

theorem ofJson?_toJson (e : Event) : ofJson? e.toJson = some e := by
  have hfields : e.toJson.fields? ["agent", "step", "node", "status"] =
      some [some (.natural e.agent), some (.natural e.step), some (.text e.node),
        some (.text e.status)] :=
    Value.fields?_record (by simp)
  have hagent := natural?_natural e.agent
  have hstep := natural?_natural e.step
  simp [ofJson?, hfields, hagent, hstep, Value.text, Value.string?]

theorem standard_toJson (e : Event) : e.toJson.Standard := by
  refine Value.standard_record ?_
  intro m hm
  simp only [List.mem_cons, List.not_mem_nil, or_false] at hm
  obtain rfl | rfl | rfl | rfl := hm
  · exact standard_natural e.agent
  · exact standard_natural e.step
  · exact .text e.node
  · exact .text e.status

end Event

namespace Log

theorem ofJson?_toJson (log : Log) : ofJson? log.toJson = some log := by
  have hfields : log.toJson.fields? ["events"] =
      some [some (.array (log.events.toList.map Event.toJson))] :=
    Value.fields?_record (by simp)
  have hevents : (log.events.toList.map Event.toJson).mapM Event.ofJson? =
      some (log.events.toList.map id) := by
    rw [List.mapM_map]
    exact mapM_eq_some_map fun e _ => Event.ofJson?_toJson e
  simp [ofJson?, hfields, Value.items?, hevents]

theorem standard_toJson (log : Log) : log.toJson.Standard := by
  refine Value.standard_record ?_
  intro m hm
  obtain rfl := List.mem_singleton.mp hm
  refine .array ?_
  intro v hv
  obtain ⟨e, -, rfl⟩ := List.mem_map.mp hv
  exact e.standard_toJson

/-- **A log is read from its text,** in either shape. -/
theorem ofText?_write (log : Log) (shape : Shape) :
    ofText? (log.toJson.write shape 0 "") = some log := by
  rw [ofText?, Value.ofText?_write log.standard_toJson, Option.bind_some, ofJson?_toJson]

theorem write_injective (shape : Shape) {log log' : Log}
    (h : log.toJson.write shape 0 "" = log'.toJson.write shape 0 "") : log = log' := by
  have hread := ofText?_write log shape
  rw [h, ofText?_write log' shape] at hread
  exact (Option.some.inj hread).symm

/-- **A trace decodes to what was recorded,** from the compact text and from the one on lines. So
two different logs have different texts, and the file that a session writes is one that the log of
its encounter is read from. -/
theorem decodes (log : Log) :
    ofText? log.toJson.compact = some log ∧
    ofText? log.toJson.pretty = some log ∧
    (∀ log' : Log, log ≠ log' →
      log.toJson.compact ≠ log'.toJson.compact ∧ log.toJson.pretty ≠ log'.toJson.pretty) ∧
    ∀ {m : Type → Type} [Monad m] (w : CommandLine.World m) (o : CommandLine.Options)
      (e : Encounter) (path : String), o.trace = some path → e.trace = some log →
      ∃ text, ofText? text = some log ∧
        CommandLine.writeTrace w o e = (do
          match ← w.write path text with
          | .ok () =>
            w.report (CommandLine.traceEntry log path)
            return .done
          | .error reason =>
            return .failed ["failed to write trace " ++ path, reason.message]) := by
  have hpretty := ofText?_write log .pretty
  refine ⟨ofText?_write log .compact, hpretty, ?_, ?_⟩
  · -- a text that two logs shared would be read as both
    intro log' hne
    exact ⟨fun h => hne (write_injective .compact h), fun h => hne (write_injective .pretty h)⟩
  · -- a session writes the text on lines
    intro m _ w o e path hpath hlog
    refine ⟨_, hpretty, ?_⟩
    unfold CommandLine.writeTrace
    rw [hpath, hlog]
    rfl

/-- A log with the largest numbers, and with signs that have to be escaped. -/
def awkward : Log :=
  ⟨#[⟨0xffffffffffffffff, 0, "\"\\/\n\x07\x7f é😀", "Running"⟩, ⟨0, 0xffffffffffffffff, "", "\t"⟩]⟩

theorem decodes_awkward :
    ofText? awkward.toJson.compact = some awkward ∧ ofText? awkward.toJson.pretty = some awkward ∧
      awkward.toJson.compact ≠ Log.empty.toJson.compact := by
  obtain ⟨hcompact, hpretty, hne, -⟩ := decodes awkward
  exact ⟨hcompact, hpretty, (hne .empty (by decide)).1⟩

end Log

end Skirmish.Trace

/-! ## Vectors, targets and landmarks from their texts

Vectors, targets and landmarks are records of finite numbers, so what is read from their texts is
what was written, bit for bit.

* `Vector2.ofJson?_toJson`, `Target.ofJson?_toJson` and `Landmark.ofJson?_toJson` — each is read
  from its own value;
* `geometry_decodes` — and from its text.
-/

namespace Skirmish

open Json

namespace Vector2

variable {v : Vector2}

theorem standard_toJson (h : v.isFinite = true) : v.toJson.Standard := by
  obtain ⟨hx, hy⟩ := isFinite_iff.mp h
  refine Value.standard_record ?_
  simp [Value.standard_single hx, Value.standard_single hy]

theorem ofJson?_toJson (h : v.isFinite = true) : ofJson? v.toJson = some v := by
  obtain ⟨hx, hy⟩ := isFinite_iff.mp h
  have hfields : v.toJson.fields? ["x", "y"] = some [some (.single v.x), some (.single v.y)] :=
    Value.fields?_record (by simp)
  simp [ofJson?, hfields, Value.single?_single hx, Value.single?_single hy]

end Vector2

namespace Enemy

theorem Target.standard_toJson {t : Target} (hposition : t.position.isFinite = true)
    (hvelocity : t.velocity.isFinite = true) : t.toJson.Standard := by
  refine Value.standard_record ?_
  simp [Vector2.standard_toJson hposition, Vector2.standard_toJson hvelocity]

theorem Target.ofJson?_toJson {t : Target} (hposition : t.position.isFinite = true)
    (hvelocity : t.velocity.isFinite = true) : ofJson? t.toJson = some t := by
  have hfields : t.toJson.fields? ["position", "velocity"] =
      some [some t.position.toJson, some t.velocity.toJson] :=
    Value.fields?_record (by simp)
  simp [ofJson?, hfields, Vector2.ofJson?_toJson hposition, Vector2.ofJson?_toJson hvelocity]

theorem Landmark.standard_toJson {l : Landmark} (hposition : l.position.isFinite = true)
    (hradius : l.radius.isFinite = true) : l.toJson.Standard := by
  refine Value.standard_record ?_
  simp [Vector2.standard_toJson hposition, Value.standard_single hradius]

theorem Landmark.ofJson?_toJson {l : Landmark} (hposition : l.position.isFinite = true)
    (hradius : l.radius.isFinite = true) : ofJson? l.toJson = some l := by
  have hfields : l.toJson.fields? ["position", "radius"] =
      some [some l.position.toJson, some (.single l.radius)] :=
    Value.fields?_record (by simp)
  simp [ofJson?, hfields, Vector2.ofJson?_toJson hposition, Value.single?_single hradius]

/-- **Vectors, targets and landmarks** with finite components are read from their texts as they
were, from the compact text and from the one on lines. -/
theorem geometry_decodes (shape : Shape) :
    (∀ v : Vector2, v.isFinite = true →
      (Value.ofText? (v.toJson.write shape 0 "")).bind Vector2.ofJson? = some v) ∧
    (∀ t : Target, t.position.isFinite = true → t.velocity.isFinite = true →
      (Value.ofText? (t.toJson.write shape 0 "")).bind Target.ofJson? = some t) ∧
    (∀ l : Landmark, l.position.isFinite = true → l.radius.isFinite = true →
      (Value.ofText? (l.toJson.write shape 0 "")).bind Landmark.ofJson? = some l) := by
  refine ⟨fun v hv => ?_, fun t hposition hvelocity => ?_, fun l hposition hradius => ?_⟩
  · rw [Value.ofText?_write (Vector2.standard_toJson hv), Option.bind_some,
      Vector2.ofJson?_toJson hv]
  · rw [Value.ofText?_write (Target.standard_toJson hposition hvelocity), Option.bind_some,
      Target.ofJson?_toJson hposition hvelocity]
  · rw [Value.ofText?_write (Landmark.standard_toJson hposition hradius), Option.bind_some,
      Landmark.ofJson?_toJson hposition hradius]

/-- The negative zero and the number whose decimal is nearest to an end, the smallest number and the
largest one. -/
def extremes : Target :=
  ⟨⟨-0, .ofBits 0x15ae43fd⟩, ⟨.ofBits 0x80000001, .ofBits 0x7f7fffff⟩⟩

theorem geometry_decodes_extremes :
    (Value.ofText? extremes.position.toJson.compact).bind Vector2.ofJson? = some extremes.position ∧
    (Value.ofText? extremes.toJson.compact).bind Target.ofJson? = some extremes ∧
    (Value.ofText? (Landmark.toJson ⟨extremes.velocity, 0⟩).pretty).bind Landmark.ofJson? =
      some ⟨extremes.velocity, 0⟩ := by
  obtain ⟨hvector, htarget, -⟩ := geometry_decodes .compact
  obtain ⟨-, -, hlandmark⟩ := geometry_decodes .pretty
  -- all four components are finite, whatever their decimals look like
  have hposition : extremes.position.isFinite = true := by decide +kernel
  have hvelocity : extremes.velocity.isFinite = true := by decide +kernel
  exact ⟨hvector _ hposition, htarget _ hposition hvelocity,
    hlandmark _ hvelocity (by decide +kernel)⟩

end Enemy

end Skirmish
