import Skirmish.Json

/-!
# Traces

What the labels of a tree reported, and how that is handed to other tools.
-/

/-! ## Traces

A trace is the list of results that the labelled nodes of a tree reported, in the order in which
they were reported. It is plain data: agents write it and tools read it.
-/

namespace Skirmish.Trace

/-- One result of one labelled node. -/
structure Event where
  /-- The agent that the node was ticked for. -/
  agent : UInt64
  /-- The agent's step count at that time. -/
  step : UInt64
  node : String
  status : String
deriving DecidableEq, Repr

/-- Events in the order in which they were recorded. -/
structure Log where
  events : Array Event
deriving DecidableEq, Repr

namespace Log

def empty : Log := ⟨#[]⟩

instance : Inhabited Log := ⟨empty⟩

def push : Log → Event → Log
  | ⟨events⟩, event => ⟨events.push event⟩

/-- The log with more events, in their order. -/
def append (log : Log) (events : List Event) : Log :=
  events.foldl push log

def size (log : Log) : Nat :=
  log.events.size

/-- The events of one agent, in the order in which they were recorded. -/
def forAgent (log : Log) (agent : UInt64) : List Event :=
  log.events.toList.filter (·.agent == agent)

@[simp] theorem toList_push (log : Log) (event : Event) :
    (log.push event).events.toList = log.events.toList ++ [event] := by
  simp [push]

theorem append_append (log : Log) (events others : List Event) :
    (log.append events).append others = log.append (events ++ others) :=
  List.foldl_append.symm

@[simp] theorem toList_append (log : Log) (events : List Event) :
    (log.append events).events.toList = log.events.toList ++ events := by
  unfold append
  induction events generalizing log with
  | nil => simp
  | cons event rest ih => simp [ih]

end Log

/-- **Where the events of one agent go.** -/
inductive Sink where
  | discard
  /-- They go into a log of the agent's own. -/
  | own (log : Log)
  /-- They go into a log that several agents share, kept by whoever runs them. -/
  | shared
deriving DecidableEq, Repr

/-- The sink after more events. Only a log of the agent's own changes. -/
def Sink.absorb : Sink → List Event → Sink
  | discard, _ => discard
  | own log, events => own (log.append events)
  | shared, _ => shared

/-- The events that an agent with this sink adds to the shared log. -/
def Sink.overflow : Option Sink → List Event → List Event
  | some shared, events => events
  | _, _ => []

/-! ## Traces as JSON

A trace is exchanged with other tools as a JSON record with the one field `events`, and an event as
a record with the fields `agent`, `step`, `node` and `status`.
-/

open Json (Value)

def Event.toJson (e : Event) : Value :=
  .record
    [("agent", .natural e.agent), ("step", .natural e.step), ("node", .text e.node),
      ("status", .text e.status)]

def Event.ofJson? (v : Value) : Option Event := do
  match ← v.fields? ["agent", "step", "node", "status"] with
  | [some agent, some step, some node, some status] =>
    return ⟨← agent.natural?, ← step.natural?, ← node.string?, ← status.string?⟩
  | _ => none

namespace Log

def toJson (log : Log) : Value :=
  .record [("events", .array (log.events.toList.map Event.toJson))]

def ofJson? (v : Value) : Option Log := do
  match ← v.fields? ["events"] with
  | [some events] => return ⟨(← (← events.items?).mapM Event.ofJson?).toArray⟩
  | _ => none

/-- **The log that a text stands for.** -/
def ofText? (text : String) : Option Log :=
  (Value.ofText? text).bind ofJson?

end Log

end Skirmish.Trace
