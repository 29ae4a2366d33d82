import Skirmish.Journal
import Skirmish.Trace

/-!
# Behaviour trees

A behaviour tree is ticked on the board of an agent. From the inside out: what a leaf may do, what a
node answers, the trees themselves, and one update of many agents with one tree.
-/

/-! ## Acts

An act is what a leaf or a whole tree does to one board: it changes the board, leaves a trail of
records, and ends with a result or a fault.

* `Act` — the type of acts, a monad in which trails accumulate;
* `Act.get`, `Act.set`, `Act.modify`, `Act.note`, `Act.fail` — the primitive acts;
* `Act.mapTrail` — the same act with every record translated.

An act that ends with a fault keeps what it had done before: the board as it was then, and the trail
up to there. An act cannot see the trail of what came before it.
-/

namespace Skirmish.Tree

/-- Why an act cannot be carried through. -/
inductive Fault where
  /-- A number was to be limited to a range whose bounds have no order. -/
  | unorderedBounds
deriving DecidableEq, Repr

/-- What an act leaves behind. -/
structure Outcome (β ρ α : Type) where
  board : β
  /-- The records made, oldest first. -/
  trail : List ρ
  /-- The result, or the fault that ended the act. -/
  result : Except Fault α

/-- **Acts** on boards of type `β` that make records of type `ρ`. -/
@[ext]
structure Act (β ρ α : Type) where
  run : β → Outcome β ρ α

namespace Act

variable {β ρ σ α γ : Type}

/-- The act that does nothing and has the given result. -/
protected def pure (a : α) : Act β ρ α :=
  ⟨fun b => ⟨b, [], .ok a⟩⟩

/-- One act after another. A fault of the first leaves the second out. -/
protected def bind (act : Act β ρ α) (next : α → Act β ρ γ) : Act β ρ γ :=
  ⟨fun b =>
    let first := act.run b
    match first.result with
    | .error fault => ⟨first.board, first.trail, .error fault⟩
    | .ok a =>
      let second := (next a).run first.board
      ⟨second.board, first.trail ++ second.trail, second.result⟩⟩

instance : Monad (Act β ρ) where
  pure := Act.pure
  bind := Act.bind

def get : Act β ρ β :=
  ⟨fun b => ⟨b, [], .ok b⟩⟩

/-- A new board in place of the old one. -/
def set (b : β) : Act β ρ Unit :=
  ⟨fun _ => ⟨b, [], .ok ()⟩⟩

/-- The board changed by a function. -/
def modify (f : β → β) : Act β ρ Unit :=
  ⟨fun b => ⟨f b, [], .ok ()⟩⟩

def note (record : ρ) : Act β ρ Unit :=
  ⟨fun b => ⟨b, [record], .ok ()⟩⟩

def fail (fault : Fault) : Act β ρ α :=
  ⟨fun b => ⟨b, [], .error fault⟩⟩

/-- The same act with its records translated. -/
def mapTrail (f : ρ → σ) (act : Act β ρ α) : Act β σ α :=
  ⟨fun b =>
    let o := act.run b
    ⟨o.board, o.trail.map f, o.result⟩⟩

@[simp] theorem run_pure (a : α) (b : β) : (pure a : Act β ρ α).run b = ⟨b, [], .ok a⟩ := rfl

theorem run_bind (act : Act β ρ α) (next : α → Act β ρ γ) (b : β) :
    (act >>= next).run b =
      match (act.run b).result with
      | .error fault => ⟨(act.run b).board, (act.run b).trail, .error fault⟩
      | .ok a =>
        ⟨((next a).run (act.run b).board).board,
          (act.run b).trail ++ ((next a).run (act.run b).board).trail,
          ((next a).run (act.run b).board).result⟩ := rfl

/-- Acts satisfy the monad laws: doing nothing adds nothing, and grouping does not matter. -/
instance : LawfulMonad (Act β ρ) := LawfulMonad.mk' (Act β ρ)
  (by
    intro α act
    ext1
    funext b
    change (act >>= pure).run b = act.run b
    rw [run_bind]
    rcases act.run b with ⟨b', trail, _ | a⟩ <;> simp)
  (by
    intro α γ a next
    ext1
    funext b
    rw [run_bind]
    simp)
  (by
    intro α γ δ act next last
    ext1
    funext b
    simp only [run_bind]
    rcases act.run b with ⟨b', trail, fault | a⟩
    · rfl
    · simp only
      rcases (next a).run b' with ⟨b'', trail', fault | c⟩ <;> simp)

end Act

end Skirmish.Tree

/-! ## Statuses

What a node of a behaviour tree answers when it is ticked.
-/

namespace Skirmish.Tree

/-- The answer of one tick. -/
inductive Status where
  /-- The node did what it is for. -/
  | success
  /-- The node could not do it. -/
  | failure
  /-- The node is not finished and asks to be ticked again. -/
  | running
deriving DecidableEq, Repr

namespace Status

/-- The answer to a yes-or-no question. -/
def ofBool : Bool → Status
  | true => success
  | false => failure

/-- **Inversion** exchanges success and failure; an unfinished node stays unfinished. -/
def invert : Status → Status
  | success => failure
  | failure => success
  | running => running

/-- The status in lower case, as traces and journals spell it. -/
def text : Status → String
  | success => "success"
  | failure => "failure"
  | running => "running"

/-- The status with a capital, as descriptions of values spell it. -/
def name : Status → String
  | success => "Success"
  | failure => "Failure"
  | running => "Running"

@[simp] theorem invert_invert (s : Status) : s.invert.invert = s := by
  cases s <;> rfl

end Status

/-! ## Behaviour trees

A tree decides what an agent does next. It holds no state of its own: everything an agent remembers
is on its board, so one tree serves any number of agents.

* `Node` — the trees: leaves that ask or act, two composites, an inverter and a label;
* `Node.tick` — one evaluation of a tree on one board;
* `Record` — what a tick reports: the results of labelled nodes, and the notes of leaves.

A composite ticks its children from left to right and stops at the first one that settles it. For a
sequence that is any status but success, for a selector any but failure. A label gives its child's
status on and reports it: it adds one record after those of the nodes below it, and the board takes
the report in, in whatever way boards of its type do.
-/

/-- **Boards that can be traced:** they know their agent, count its steps, and take in what labelled
nodes report. -/
class Host (β : Type) where
  /-- The agent's stable number. -/
  agent : β → UInt64
  /-- The steps it has been through. -/
  step : β → UInt64
  /-- The board after a report, given the label and the status's text. Leaves may look at what it
  makes of the board. Boards whose trace is kept elsewhere stay as they are. -/
  emit : String → String → β → β

/-- **Behaviour trees** over boards of type `β`, whose leaves make notes of type `ν`. -/
inductive Node (β ν : Type) where
  /-- A question to the board. It may write down what it saw. -/
  | condition (test : Act β ν Bool)
  /-- A step of a given duration in seconds, which computes its own status. -/
  | action (run : Float32 → Act β ν Status)
  /-- All children in turn, as long as they succeed. -/
  | sequence (children : List (Node β ν))
  /-- All children in turn, as long as they fail. -/
  | selector (children : List (Node β ν))
  | inverter (child : Node β ν)
  /-- A child whose results are reported under a name. -/
  | labeled (label : String) (child : Node β ν)

/-- What a tick reports. -/
inductive Record (ν : Type) where
  /-- A labelled node was ticked, for this agent at this step, with this status. -/
  | ticked (node : String) (agent step : UInt64) (status : Status)
  /-- A leaf made a note. -/
  | noted (note : ν)
deriving DecidableEq, Repr

/-- The trace event of a record; notes of leaves have none. -/
def Record.event? {ν : Type} : Record ν → Option Trace.Event
  | ticked node agent step status => some ⟨agent, step, node, status.text⟩
  | noted _ => none

def events {ν : Type} (trail : List (Record ν)) : List Trace.Event :=
  trail.filterMap Record.event?

namespace Node

variable {β ν : Type} [Host β]

/-- A report of a labelled node's status. The record tells the agent and the step that the board had
before it took the report in. -/
def report (label : String) (status : Status) : Act β (Record ν) Unit :=
  ⟨fun b => ⟨Host.emit label status.text b,
    [.ticked label (Host.agent b) (Host.step b) status], .ok ()⟩⟩

mutual

/-- **One tick** of a tree, for a frame of `dt` seconds. -/
def tick (dt : Float32) : Node β ν → Act β (Record ν) Status
  | condition test => Status.ofBool <$> test.mapTrail .noted
  | action run => (run dt).mapTrail .noted
  | sequence children => tickSequence dt children
  | selector children => tickSelector dt children
  | inverter child => Status.invert <$> tick dt child
  | labeled label child => do
    let status ← tick dt child
    -- only once the child is done, so that reports come from the inside out
    report label status
    return status

/-- The children of a sequence, up to the first that does not succeed. -/
def tickSequence (dt : Float32) : List (Node β ν) → Act β (Record ν) Status
  | [] => return .success
  | child :: rest => do
    match ← tick dt child with
    | .success => tickSequence dt rest
    | status => return status

/-- The children of a selector, up to the first that does not fail. -/
def tickSelector (dt : Float32) : List (Node β ν) → Act β (Record ν) Status
  | [] => return .failure
  | child :: rest => do
    match ← tick dt child with
    | .failure => tickSelector dt rest
    | status => return status

end

/-- The children of a composite; other nodes have no list of children. -/
def children? : Node β ν → Option (List (Node β ν))
  | sequence children => some children
  | selector children => some children
  | _ => none

/-- The text of a label, if the tree is one. -/
def label? : Node β ν → Option String
  | labeled label _ => some label
  | _ => none

end Node

end Skirmish.Tree

/-! ## Updating agents

One simulation step of any number of agents with one tree:

* `Driven` — boards that can be refreshed, asked whether they live, and ticked;
* `Agent` — a board with the sink that its trace goes to;
* `update` — the dead are removed, and every other agent is refreshed and ticked once, in order.

A failing root is journaled and otherwise ignored. A tick that ends with a fault ends the update:
the agents after it stay as they were, and the ones before it keep what they did.
-/

namespace Skirmish.Tree

/-- **Boards that a driver can run.** The surroundings `γ` are what all agents of a step see. -/
class Driven (β : Type) (γ : outParam Type) extends Host β where
  /-- Takes over the surroundings and moves the clock on by a frame. -/
  refresh : γ → Float32 → β → β
  /-- Whether the agent still takes part. -/
  isAlive : β → Bool

/-- A board and where its trace goes, if anywhere. -/
structure Agent (β : Type) where
  board : β
  /-- The sink installed, if there is one. -/
  sink : Option Trace.Sink

/-- What an update journals. -/
inductive Remark (ν : Type) where
  | reaped (agent : UInt64)
  | rootFailed (agent : UInt64)
  | during (record : Record ν)
deriving DecidableEq, Repr

/-- What an update counts. -/
structure Tally where
  ticked : Nat
  reaped : Nat
  success : Nat
  running : Nat
  failure : Nat
deriving DecidableEq, Repr

namespace Tally

def zero : Tally := ⟨0, 0, 0, 0, 0⟩

def count (status : Status) (t : Tally) : Tally :=
  match status with
  | .success => { t with ticked := t.ticked + 1, success := t.success + 1 }
  | .running => { t with ticked := t.ticked + 1, running := t.running + 1 }
  | .failure => { t with ticked := t.ticked + 1, failure := t.failure + 1 }

end Tally

/-- What an update leaves behind. -/
structure Updated (β ν : Type) where
  agents : List (Agent β)
  /-- The remarks made, oldest first. -/
  journal : List (Remark ν)
  /-- The events for the log that agents share. -/
  events : List Trace.Event
  /-- The tally, or the fault that ended the update. -/
  tally : Except Fault Tally

namespace Agent

variable {β ν : Type}

/-- What ticking one agent leaves behind. -/
structure Ticked (β ν : Type) where
  agent : Agent β
  trail : List (Record ν)
  /-- The events for the log that agents share. -/
  events : List Trace.Event
  /-- The root's status, or the fault that ended the tick. -/
  result : Except Fault Status

/-- An agent that has put a result on its own record, by hand instead of through a labelled node. -/
def emit [Host β] (node status : String) (agent : Agent β) : Agent β :=
  let event : Trace.Event := ⟨Host.agent agent.board, Host.step agent.board, node, status⟩
  ⟨Host.emit node status agent.board, agent.sink.map (·.absorb [event])⟩

/-- An agent is a board that holds its own trace, for leaves that may look at the sink and change
it. -/
instance [Host β] : Host (Agent β) where
  agent a := Host.agent a.board
  step a := Host.step a.board
  emit := emit

/-- **One tick of one agent.** The trail's events go to its sink. -/
def tick [Host β] (dt : Float32) (root : Node β ν) (agent : Agent β) : Ticked β ν :=
  let o := (root.tick dt).run agent.board
  let events := Tree.events o.trail
  { agent := ⟨o.board, agent.sink.map (·.absorb events)⟩
    trail := o.trail
    events := Trace.Sink.overflow agent.sink events
    result := o.result }

end Agent

variable {β ν γ : Type} [Driven β γ]

/-- **Refreshing and ticking** every agent once, in order, up to the first fault. -/
def tickAll (dt : Float32) (root : Node β ν) (surroundings : γ) : List (Agent β) → Updated β ν
  | [] => ⟨[], [], [], .ok .zero⟩
  | agent :: rest =>
    let t := Agent.tick dt root { agent with board := Driven.refresh surroundings dt agent.board }
    match t.result with
    -- the agents behind are neither refreshed nor ticked
    | .error fault => ⟨t.agent :: rest, t.trail.map .during, t.events, .error fault⟩
    | .ok status =>
      -- a failing root is put down, and the update goes on
      let failed := if status = .failure then [Remark.rootFailed (Host.agent t.agent.board)] else []
      let others := tickAll dt root surroundings rest
      { agents := t.agent :: others.agents
        journal := t.trail.map .during ++ failed ++ others.journal
        events := t.events ++ others.events
        tally := others.tally.map (·.count status) }

/-- **One step of all agents:** the dead are removed first, and the others ticked. -/
def update (dt : Float32) (root : Node β ν) (surroundings : γ) (agents : List (Agent β)) :
    Updated β ν :=
  let alive := agents.filter fun a => Driven.isAlive a.board
  let dead := agents.filter fun a => !Driven.isAlive a.board
  let ticked := tickAll dt root surroundings alive
  { ticked with
    journal := dead.map (fun a => .reaped (Host.agent a.board)) ++ ticked.journal
    tally := ticked.tally.map fun t => { t with reaped := dead.length } }

end Skirmish.Tree

/-! ## How trees are journaled

The entries for what an update remarks. A leaf's notes are turned into entries by a function that
the caller gives, for trees know nothing of their agents' notes.
-/

namespace Skirmish.Tree

open Journal (Entry)

variable {ν : Type}

/-- The entry for a record of a tick. -/
def Record.entry (noteEntry : ν → Entry) : Record ν → Entry
  | ticked node agent _ status =>
    ⟨.trace, .nodes, "bt tick",
      [("node", .plain node), ("agent", .count agent.toNat), ("status", .quoted status.text)]⟩
  | noted note => noteEntry note

/-- The entry for a remark of an update. -/
def Remark.entry (noteEntry : ν → Entry) : Remark ν → Entry
  | reaped agent =>
    ⟨.debug, .update, "reaping dead agent", [("agent", .count agent.toNat)]⟩
  | rootFailed agent =>
    ⟨.warn, .update, "root returned failure; ignoring", [("agent", .count agent.toNat)]⟩
  | during record => record.entry noteEntry

end Skirmish.Tree
