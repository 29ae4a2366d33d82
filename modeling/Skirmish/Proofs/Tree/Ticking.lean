import Skirmish.Tree

/-!
# Ticks and updates

What acts and composites do to one board, and what an update does to all of them:

* `Act.run_bind_of_ok` — an act that is made of others, outcome by outcome;
* `update_eq` — an update, agent by agent.
-/

/-! ## What acts and composites do to one board

An act that is made of others is followed from outcome to outcome. Each lemma here takes the outcome
of one part as a whole, `⟨board, trail, result⟩`, and gives the outcome of the act that begins with
it:

* `Act.run_bind_of_ok` and `Act.run_bind_of_error` — one act after another;
* `Node.tickSequence_cons_of_success`, `Node.tickSelector_cons_of_failure` — a child that leaves the
  decision to its younger siblings;
* `Node.tickSequence_cons_of_ne`, `Node.tickSelector_cons_of_ne` — a child that settles the
  composite;
* `Node.tick_labeled_of_ok` — a label, which adds one record behind those of its child and hands the
  report to the board.

What the siblings add to a trail is put behind it by `Outcome.after`.
-/

namespace Skirmish.Tree

variable {β ρ σ ν α γ : Type}

/-- An outcome with the records of what went before put in front. -/
def Outcome.after (trail : List ρ) (o : Outcome β ρ α) : Outcome β ρ α :=
  ⟨o.board, trail ++ o.trail, o.result⟩

@[simp] theorem Outcome.after_mk (trail records : List ρ) (b : β) (r : Except Fault α) :
    Outcome.after trail ⟨b, records, r⟩ = ⟨b, trail ++ records, r⟩ := rfl

@[simp] theorem Outcome.after_nil (o : Outcome β ρ α) : o.after [] = o := rfl

namespace Act

@[simp] theorem run_get (b : β) : (get : Act β ρ β).run b = ⟨b, [], .ok b⟩ := rfl

theorem run_bind_of_ok {act : Act β ρ α} {next : α → Act β ρ γ} {b b' : β} {trail : List ρ} {a : α}
    (h : act.run b = ⟨b', trail, .ok a⟩) :
    (act >>= next).run b = ((next a).run b').after trail := by
  -- `after` is what binding does to the trail
  rw [run_bind, h]
  rfl

theorem run_bind_of_error {act : Act β ρ α} {next : α → Act β ρ γ} {b b' : β} {trail : List ρ}
    {fault : Fault} (h : act.run b = ⟨b', trail, .error fault⟩) :
    (act >>= next).run b = ⟨b', trail, .error fault⟩ := by
  rw [run_bind, h]

theorem run_map (f : α → γ) (act : Act β ρ α) (b : β) :
    (f <$> act).run b = ⟨(act.run b).board, (act.run b).trail, (act.run b).result.map f⟩ := by
  -- a map is a sequence whose second act is pure, so only the first one's result matters
  rw [← bind_pure_comp, run_bind]
  rcases act.run b with ⟨b', trail, fault | a⟩
  · rfl
  · simp [Except.map]

theorem run_discard (act : Act β ρ α) (b : β) :
    (discard act : Act β ρ PUnit).run b =
      ⟨(act.run b).board, (act.run b).trail, (act.run b).result.map fun _ => ⟨⟩⟩ :=
  run_map _ act b

theorem run_mapTrail (f : ρ → σ) (act : Act β ρ α) (b : β) :
    (act.mapTrail f).run b = ⟨(act.run b).board, (act.run b).trail.map f, (act.run b).result⟩ := rfl

end Act

namespace Node

variable [Host β] {dt : Float32} {b b' : β} {trail : List (Record ν)} {fault : Fault}
  {status : Status}

/-! ### Leaves -/

theorem tick_condition {test : Act β ν Bool} {notes : List ν} {answer : Bool}
    (h : test.run b = ⟨b', notes, .ok answer⟩) :
    ((condition test).tick dt).run b = ⟨b', notes.map .noted, .ok (.ofBool answer)⟩ := by
  -- a condition is its test, with the notes made records and the answer made a status
  rw [tick, Act.run_map, Act.run_mapTrail, h]
  rfl

theorem tick_action {run : Float32 → Act β ν Status} {notes : List ν}
    {result : Except Fault Status} (h : (run dt).run b = ⟨b', notes, result⟩) :
    ((action run).tick dt).run b = ⟨b', notes.map .noted, result⟩ := by
  rw [tick, Act.run_mapTrail, h]

/-! ### Sequences -/

@[simp] theorem tickSequence_nil :
    (tickSequence dt ([] : List (Node β ν))).run b = ⟨b, [], .ok .success⟩ := by
  rw [tickSequence, Act.run_pure]

variable {child : Node β ν} {rest : List (Node β ν)}

theorem tickSequence_cons_of_success (h : (child.tick dt).run b = ⟨b', trail, .ok .success⟩) :
    (tickSequence dt (child :: rest)).run b = ((tickSequence dt rest).run b').after trail := by
  rw [tickSequence, Act.run_bind_of_ok h]

theorem tickSequence_cons_of_ne (h : (child.tick dt).run b = ⟨b', trail, .ok status⟩)
    (hs : status ≠ .success) :
    (tickSequence dt (child :: rest)).run b = ⟨b', trail, .ok status⟩ := by
  rw [tickSequence, Act.run_bind_of_ok h]
  -- what is left is the answer to the child's status, which is to give it on
  cases status with
  | success => exact absurd rfl hs
  | failure => simp
  | running => simp

theorem tickSequence_cons_of_error (h : (child.tick dt).run b = ⟨b', trail, .error fault⟩) :
    (tickSequence dt (child :: rest)).run b = ⟨b', trail, .error fault⟩ := by
  rw [tickSequence, Act.run_bind_of_error h]

/-! ### Selectors -/

theorem tickSelector_cons_of_failure (h : (child.tick dt).run b = ⟨b', trail, .ok .failure⟩) :
    (tickSelector dt (child :: rest)).run b = ((tickSelector dt rest).run b').after trail := by
  rw [tickSelector, Act.run_bind_of_ok h]

theorem tickSelector_cons_of_ne (h : (child.tick dt).run b = ⟨b', trail, .ok status⟩)
    (hs : status ≠ .failure) :
    (tickSelector dt (child :: rest)).run b = ⟨b', trail, .ok status⟩ := by
  rw [tickSelector, Act.run_bind_of_ok h]
  cases status with
  | success => simp
  | failure => exact absurd rfl hs
  | running => simp

theorem tickSelector_cons_of_error (h : (child.tick dt).run b = ⟨b', trail, .error fault⟩) :
    (tickSelector dt (child :: rest)).run b = ⟨b', trail, .error fault⟩ := by
  rw [tickSelector, Act.run_bind_of_error h]

/-! ### Labels -/

/-- **A label only reports.** The record is made for the board as the child left it, and comes after
the records of the child. -/
theorem tick_labeled_of_ok {label : String} (h : (child.tick dt).run b = ⟨b', trail, .ok status⟩) :
    ((labeled label child).tick dt).run b =
      ⟨Host.emit label status.text b',
        trail ++ [.ticked label (Host.agent b') (Host.step b') status], .ok status⟩ := by
  rw [tick, Act.run_bind_of_ok h]
  rfl

theorem tick_labeled_of_error {label : String}
    (h : (child.tick dt).run b = ⟨b', trail, .error fault⟩) :
    ((labeled label child).tick dt).run b = ⟨b', trail, .error fault⟩ := by
  rw [tick, Act.run_bind_of_error h]

end Node

/-! ### The events of a trail -/

@[simp] theorem events_append (trail records : List (Record ν)) :
    events (trail ++ records) = events trail ++ events records := by
  simp [events]

@[simp] theorem events_noted (notes : List ν) : events (notes.map Record.noted) = [] := by
  simp [events, Record.event?]

end Skirmish.Tree

/-! ## An update, agent by agent

Agents do not see each other. What an update that completes does to a wave is therefore what it does
to each agent alone, put together in the order of the wave:

* `Agent.drive` — an agent refreshed and ticked, on its own;
* `Tally.ofStatuses` — the count of some statuses;
* `tickAll_eq` — driving all agents is driving each of them;
* `update_eq` — the same for a whole update, which leaves the dead out;
* `drive_ok_of_tickAll_ok` — an update completes only if every agent's tick does.
-/

namespace Skirmish.Tree

/-! ### Tallies -/

namespace Tally

/-- The tally of some statuses. -/
def ofStatuses (statuses : List Status) : Tally :=
  statuses.foldr count zero

/-- How many ticks ended with a status. -/
def ended (t : Tally) : Status → Nat
  | .success => t.success
  | .running => t.running
  | .failure => t.failure

variable (statuses : List Status)

theorem ticked_ofStatuses : (ofStatuses statuses).ticked = statuses.length := by
  induction statuses with
  | nil => rfl
  | cons s rest ih =>
    rw [List.length_cons, ← ih]
    cases s <;> rfl

theorem ended_ofStatuses (s : Status) : (ofStatuses statuses).ended s = statuses.count s := by
  induction statuses with
  | nil => cases s <;> rfl
  | cons first rest ih =>
    rw [List.count_cons, ← ih]
    -- nine cases: one count goes up, and it is that of the first status
    cases first <;> cases s <;> rfl

end Tally

/-! ### One agent -/

variable {β ν γ : Type} [Driven β γ]

namespace Agent

/-- **Driving an agent:** it is refreshed and ticked once. -/
def drive (dt : Float32) (root : Node β ν) (surroundings : γ) (agent : Agent β) : Ticked β ν :=
  tick dt root { agent with board := Driven.refresh surroundings dt agent.board }

/-- The root's status; failure if there is none. -/
def Ticked.status (t : Ticked β ν) : Status :=
  match t.result with
  | .ok status => status
  | .error _ => .failure

/-- What is journaled about an agent that was ticked. -/
def Ticked.remarks (t : Ticked β ν) : List (Remark ν) :=
  t.trail.map .during ++
    if t.status = .failure then [.rootFailed (Host.agent t.agent.board)] else []

theorem Ticked.status_of_ok {t : Ticked β ν} {s : Status} (h : t.result = .ok s) :
    t.status = s := by
  rw [status, h]

end Agent

/-! ### All agents -/

variable {dt : Float32} {root : Node β ν} {surroundings : γ} {agents : List (Agent β)}

theorem tickAll_eq
    (h : ∀ a ∈ agents, ∃ s, (Agent.drive dt root surroundings a).result = .ok s) :
    tickAll dt root surroundings agents =
      { agents := agents.map fun a => (Agent.drive dt root surroundings a).agent
        journal := agents.flatMap fun a => (Agent.drive dt root surroundings a).remarks
        events := agents.flatMap fun a => (Agent.drive dt root surroundings a).events
        tally := .ok (.ofStatuses
          (agents.map fun a => (Agent.drive dt root surroundings a).status)) } := by
  -- agent by agent: what the first one does is put in front of what the others do
  induction agents with
  | nil => rfl
  | cons a rest ih =>
    obtain ⟨s, hs⟩ := h a List.mem_cons_self
    have hrest := ih fun a' ha' => h a' (List.mem_cons_of_mem a ha')
    have hstatus := Agent.Ticked.status_of_ok hs
    -- the first agent's tick decides which branch is taken
    unfold Agent.drive at hs
    rw [tickAll]
    simp only [hs, hrest]
    simp only [List.map_cons, List.flatMap_cons, Agent.Ticked.remarks, hstatus, List.append_assoc]
    rfl

theorem drive_ok_of_tickAll_ok {tally : Tally}
    (h : (tickAll dt root surroundings agents).tally = .ok tally) :
    ∀ a ∈ agents, ∃ s, (Agent.drive dt root surroundings a).result = .ok s := by
  -- the tally counts from the back, so that of the others is a smaller one
  induction agents generalizing tally with
  | nil => exact fun a ha => absurd ha List.not_mem_nil
  | cons first rest ih =>
    intro a ha
    -- a fault of the first agent would be the update's, and the others are updated by themselves
    cases hfirst : (Agent.drive dt root surroundings first).result with
    | error fault =>
      unfold Agent.drive at hfirst
      rw [tickAll] at h
      simp only [hfirst] at h
      exact absurd h (by simp)
    | ok s =>
      unfold Agent.drive at hfirst
      rw [tickAll] at h
      simp only [hfirst] at h
      obtain rfl | ha := List.mem_cons.mp ha
      · exact ⟨s, hfirst⟩
      · cases hrest : (tickAll dt root surroundings rest).tally with
        | error fault =>
          rw [hrest] at h
          exact absurd h (by simp [Except.map])
        | ok tally' => exact ih hrest a ha

/-- The agents that an update drives. -/
def living (agents : List (Agent β)) : List (Agent β) :=
  agents.filter fun a => Driven.isAlive a.board

/-- The agents that an update removes. -/
def fallen (agents : List (Agent β)) : List (Agent β) :=
  agents.filter fun a => !Driven.isAlive a.board

theorem update_eq
    (h : ∀ a ∈ living agents, ∃ s, (Agent.drive dt root surroundings a).result = .ok s) :
    update dt root surroundings agents =
      { agents := (living agents).map fun a => (Agent.drive dt root surroundings a).agent
        journal := (fallen agents).map (fun a => .reaped (Host.agent a.board)) ++
          (living agents).flatMap fun a => (Agent.drive dt root surroundings a).remarks
        events := (living agents).flatMap fun a => (Agent.drive dt root surroundings a).events
        tally := .ok
          { Tally.ofStatuses
              ((living agents).map fun a => (Agent.drive dt root surroundings a).status) with
            reaped := (fallen agents).length } } := by
  -- the living are spelled out in the update, so the equation for them is too
  have htick := tickAll_eq h
  unfold living at htick
  rw [update]
  simp only [htick]
  rfl

theorem drive_ok_of_update_ok {tally : Tally}
    (h : (update dt root surroundings agents).tally = .ok tally) :
    ∀ a ∈ living agents, ∃ s, (Agent.drive dt root surroundings a).result = .ok s := by
  rw [update] at h
  -- the update hands on the fault of a tick, and only adds the dead to a tally
  cases htick : (tickAll dt root surroundings (living agents)).tally with
  | error fault =>
    unfold living at htick
    simp only [htick] at h
    exact absurd h (by simp [Except.map])
  | ok tally' => exact drive_ok_of_tickAll_ok htick

end Skirmish.Tree
