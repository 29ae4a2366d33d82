import Skirmish.Proofs.Tree.Order
import Skirmish.Proofs.Tree.Ticking

/-!
# Labels

A label reports what the node below it answers. The report goes into the trace and into nothing
else, so leaves that do not look at the trace cannot tell a tree from the same tree without its
labels.

* `Act.Resembles` — acts that do the same, as far as can be seen of the board, and make the same
  notes;
* `Act.SeesOnly` — acts that need to see no more of the board than that;
* `Node.unlabeled` — a tree with every label taken off, at any depth;
* `Node.tick_unlabeled` — if the trace cannot be seen, a tick of the tree without labels resembles
  the tick of the tree;
* `Agent.ticks_unlabeled` and `update_unlabeled` — the same for any number of ticks, whatever sinks
  are installed, and for updates of many agents;
* `Node.tick_onAgents` — reports that are entered into the sink one by one, while the tree is being
  ticked, leave the same sink as all of them entered at the end.

What can be seen is any function of the board that reports spare. A board that holds its trace shows
all but the trace; a board that leaves the trace to others shows everything. The induction follows
the tree. Since resemblance goes through one act after another, the cases need not look into any
outcome: where the tree stops, the tree without labels stops too.
-/

namespace Skirmish

/-! ### Sinks -/

namespace Trace.Sink

/-- A sink without what it has recorded. -/
def emptied : Sink → Sink
  | own _ => own .empty
  | sink => sink

@[simp] theorem emptied_absorb (sink : Sink) (events : List Event) :
    (sink.absorb events).emptied = sink.emptied := by
  cases sink <;> rfl

@[simp] theorem absorb_nil (sink : Sink) : sink.absorb [] = sink := by
  cases sink <;> rfl

theorem absorb_append (sink : Sink) (events others : List Event) :
    sink.absorb (events ++ others) = (sink.absorb events).absorb others := by
  cases sink with
  | discard | shared => rfl
  | own log => exact congrArg own (log.append_append events others).symm

end Trace.Sink

namespace Tree

variable {β ρ ν α γ δ : Type}

/-! ### Acts that see part of the board -/

/-- Whether a record is a note of a leaf. -/
def Record.isNote : Record ν → Bool
  | ticked .. => false
  | noted _ => true

/-- **What an outcome shows:** what can be seen of the board, the notes of leaves, and the result.
-/
def Outcome.shown (f : β → δ) (o : Outcome β (Record ν) α) : δ × List (Record ν) × Except Fault α :=
  (f o.board, o.trail.filter Record.isNote, o.result)

/-- **An act that does what another does,** as far as can be seen, on boards that look the same. -/
def Act.Resembles (f : β → δ) (act act' : Act β (Record ν) α) : Prop :=
  ∀ b b', f b' = f b → (act'.run b').shown f = (act.run b).shown f

/-- **Acts that see only this** of the board: neither what they do to it nor their result depends on
the rest. -/
abbrev Act.SeesOnly (f : β → δ) (act : Act β (Record ν) α) : Prop :=
  act.Resembles f act

namespace Act

variable {f : β → δ}

theorem resembles_pure (a : α) : (pure a : Act β (Record ν) α).SeesOnly f := by
  intro b b' same
  rw [run_pure, run_pure, Outcome.shown, same]
  rfl

theorem Resembles.bind {act act' : Act β (Record ν) α} {next next' : α → Act β (Record ν) γ}
    (h : act.Resembles f act') (hnext : ∀ a, (next a).Resembles f (next' a)) :
    (act >>= next).Resembles f (act' >>= next') := by
  intro b b' same
  have hfirst := h b b' same
  rw [run_bind, run_bind]
  revert hfirst
  rcases act.run b with ⟨b₁, trail, result⟩
  rcases act'.run b' with ⟨b₁', trail', result'⟩
  intro hfirst
  simp only [Outcome.shown, Prod.mk.injEq] at hfirst
  obtain ⟨hboard, hnotes, rfl⟩ := hfirst
  -- both first acts ended alike, so both go on with the same result or neither does
  cases result' with
  | error fault => exact Prod.ext hboard (Prod.ext hnotes rfl)
  | ok a =>
    -- the second acts start from boards that look the same
    have hsecond := hnext a b₁ b₁' hboard
    simp only [Outcome.shown, Prod.mk.injEq] at hsecond
    obtain ⟨hboard', hnotes', hresult⟩ := hsecond
    simp only [Outcome.shown, List.filter_append, hboard', hnotes, hnotes', hresult]

theorem seesOnly_id (act : Act β (Record ν) α) : act.SeesOnly id := by
  rintro b b' rfl
  rfl

end Act

/-! ### One tree -/

namespace Node

mutual

/-- **The tree without its labels,** at any depth. -/
def unlabeled : Node β ν → Node β ν
  | condition test => condition test
  | action run => action run
  | sequence children => sequence (unlabeledAll children)
  | selector children => selector (unlabeledAll children)
  | inverter child => inverter child.unlabeled
  | labeled _ child => child.unlabeled

/-- Trees without their labels. -/
def unlabeledAll : List (Node β ν) → List (Node β ν)
  | [] => []
  | child :: rest => child.unlabeled :: unlabeledAll rest

end

theorem unlabeledAll_eq_map (children : List (Node β ν)) :
    unlabeledAll children = children.map unlabeled := by
  induction children with
  | nil => rfl
  | cons child rest ih => rw [unlabeledAll, ih, List.map_cons]

variable [Host β] {f : β → δ} {dt : Float32} {root : Node β ν}

theorem report_resembles_pure (hspares : Host.Spares f) (label : String) (status : Status) :
    (report label status : Act β (Record ν) Unit).Resembles f (pure ()) := by
  intro b b' same
  -- the report spares what can be seen, and its record is no note
  exact Prod.ext (same.trans (hspares label status.text b).symm) rfl

theorem tickWhile_unlabeled (passing : Status) {children : List (Node β ν)}
    (h : ∀ child ∈ children, (child.tick dt).Resembles f (child.unlabeled.tick dt)) :
    (tickWhile dt passing children).Resembles f
      (tickWhile dt passing (children.map unlabeled)) := by
  induction children with
  | nil => exact Act.resembles_pure _
  | cons child rest ih =>
    rw [List.map_cons, tickWhile, tickWhile]
    refine (h child List.mem_cons_self).bind fun status => ?_
    -- the status is the same on both sides, so where one row is settled, the other is
    split
    · exact ih fun c hc => h c (List.mem_cons_of_mem child hc)
    · exact Act.resembles_pure _

/-- **A tick of the tree without labels** resembles the tick of the tree, if leaves cannot see the
trace. -/
theorem tick_unlabeled (hspares : Host.Spares f)
    (hleaf : ∀ leaf : Node β ν, leaf.IsLeafOf root → (leaf.tick dt).SeesOnly f) :
    (root.tick dt).Resembles f (root.unlabeled.tick dt) := by
  induction root using of_offspring with
  | h node ih =>
    have hbelow : ∀ child ∈ node.offspring, (child.tick dt).Resembles f (child.unlabeled.tick dt) :=
      fun child hchild => ih child hchild fun leaf h => hleaf leaf (.child hchild h)
    cases node with
    | condition test => exact hleaf _ (.self rfl)
    | action run => exact hleaf _ (.self rfl)
    | sequence children | selector children =>
      rw [unlabeled, unlabeledAll_eq_map, tick_of_passing? rfl, tick_of_passing? rfl]
      exact tickWhile_unlabeled _ hbelow
    | inverter child =>
      rw [unlabeled, tick, tick, ← bind_pure_comp, ← bind_pure_comp]
      exact (hbelow child List.mem_cons_self).bind fun _ => Act.resembles_pure _
    | labeled label child =>
      -- the tree without labels does nothing in the report's place, and gives the status on
      rw [unlabeled, tick, ← bind_pure (child.unlabeled.tick dt)]
      refine (hbelow child List.mem_cons_self).bind fun status => ?_
      rw [← pure_bind () fun _ => (pure status : Act β (Record ν) Status)]
      exact (report_resembles_pure hspares label status).bind fun _ => Act.resembles_pure _

end Node

/-! ### Ticks of one agent -/

namespace Agent

variable [Host β] {f : β → δ} {root : Node β ν} {agent agent' : Agent β}

/-- **Ticks one after another,** of the given durations: how each of them ended, and the agent
afterwards. -/
def ticks (root : Node β ν) : List Float32 → Agent β → List (Except Fault Status) × Agent β
  | [], agent => ([], agent)
  | dt :: rest, agent =>
    let first := tick dt root agent
    let others := ticks root rest first.agent
    (first.result :: others.1, others.2)

theorem tick_unlabeled (dt : Float32) (root : Node β ν) (hspares : Host.Spares f)
    (hleaf : ∀ leaf : Node β ν, leaf.IsLeafOf root → (leaf.tick dt).SeesOnly f)
    (same : f agent'.board = f agent.board) :
    (tick dt root.unlabeled agent').result = (tick dt root agent).result ∧
      f (tick dt root.unlabeled agent').agent.board = f (tick dt root agent).agent.board := by
  have hshown := Node.tick_unlabeled hspares hleaf _ _ same
  simp only [Outcome.shown, Prod.mk.injEq] at hshown
  exact ⟨hshown.2.2, hshown.1⟩

theorem emptied_sink_tick (dt : Float32) (root : Node β ν) (agent : Agent β) :
    (tick dt root agent).agent.sink.map Trace.Sink.emptied =
      agent.sink.map Trace.Sink.emptied := by
  rw [tick, Option.map_map]
  -- the sink takes events in or passes them on, and that is all that a tick does to it
  refine Option.map_congr ?_
  intro sink _
  exact sink.emptied_absorb _

theorem ticks_unlabeled (hspares : Host.Spares f)
    (hleaf : ∀ (leaf : Node β ν) dt, leaf.IsLeafOf root → (leaf.tick dt).SeesOnly f)
    (dts : List Float32) (same : f agent'.board = f agent.board) :
    (ticks root.unlabeled dts agent').1 = (ticks root dts agent).1 ∧
      f (ticks root.unlabeled dts agent').2.board = f (ticks root dts agent).2.board := by
  -- duration by duration: the boards need only look the same, so the two agents vary
  induction dts generalizing agent agent' with
  | nil => exact ⟨rfl, same⟩
  | cons dt rest ih =>
    obtain ⟨hresult, hboard⟩ := tick_unlabeled dt root hspares (fun leaf => hleaf leaf dt) same
    obtain ⟨hresults, hboards⟩ := ih hboard
    rw [ticks, ticks]
    exact ⟨List.cons_eq_cons.mpr ⟨hresult, hresults⟩, hboards⟩

theorem emptied_sink_ticks (root : Node β ν) (dts : List Float32) (agent : Agent β) :
    (ticks root dts agent).2.sink.map Trace.Sink.emptied =
      agent.sink.map Trace.Sink.emptied := by
  induction dts generalizing agent with
  | nil => rfl
  | cons dt rest ih =>
    rw [ticks]
    exact (ih _).trans (emptied_sink_tick dt root agent)

end Agent

/-! ### Trees whose boards hold the trace -/

/-- An act on a board, for the agent that has the board. It leaves the sink alone. -/
def Act.onAgents (act : Act β ρ α) : Act (Agent β) ρ α :=
  ⟨fun a => ⟨⟨(act.run a.board).board, a.sink⟩, (act.run a.board).trail, (act.run a.board).result⟩⟩

/-- The same act, after which the events of its records are entered into the sink. -/
def Act.entered (act : Act β (Record ν) α) : Act (Agent β) (Record ν) α :=
  ⟨fun a => ⟨⟨(act.run a.board).board, a.sink.map (·.absorb (events (act.run a.board).trail))⟩,
    (act.run a.board).trail, (act.run a.board).result⟩⟩

namespace Act

theorem seesOnly_onAgents (act : Act β ν α) :
    (act.onAgents.mapTrail Record.noted).SeesOnly Agent.board := by
  intro agent agent' same
  -- such a leaf computes from the board alone, and hands the sink on as it is
  simp only [Outcome.shown, run_mapTrail, onAgents, same]

theorem entered_pure (a : α) : (pure a : Act β (Record ν) α).entered = pure a := by
  ext1
  funext agent
  -- there is nothing to enter
  change Outcome.mk (Agent.mk agent.board (agent.sink.map (·.absorb []))) _ _ = _
  rw [funext Trace.Sink.absorb_nil, Option.map_id']
  rfl

/-- **Events may be entered** after each of two acts, or after the two together. -/
theorem entered_bind (act : Act β (Record ν) α) (next : α → Act β (Record ν) γ) :
    (act >>= next).entered = act.entered >>= fun a => (next a).entered := by
  ext1
  funext agent
  rw [run_bind]
  unfold entered
  simp only [run_bind]
  -- what is left to do depends on whether the first act ends with a fault
  rcases act.run agent.board with ⟨b, trail, fault | a⟩
  · rfl
  · have hsink : agent.sink.map (·.absorb (events (trail ++ ((next a).run b).trail))) =
        (agent.sink.map (·.absorb (events trail))).map
          (·.absorb (events ((next a).run b).trail)) := by
      rw [events_append, Option.map_map]
      exact congrArg (Option.map · agent.sink) (funext fun sink => sink.absorb_append _ _)
    simp only [hsink]

theorem entered_map (g : α → γ) (act : Act β (Record ν) α) :
    (g <$> act).entered = g <$> act.entered := by
  rw [← bind_pure_comp, ← bind_pure_comp, entered_bind]
  exact congrArg _ (funext fun a => entered_pure (g a))

theorem entered_noted (act : Act β ν α) :
    (act.mapTrail Record.noted).entered = act.onAgents.mapTrail Record.noted := by
  ext1
  funext agent
  -- a note is no event, so nothing is entered and the sink stays
  have hsink : agent.sink.map (·.absorb (events ((act.run agent.board).trail.map Record.noted))) =
      agent.sink := by
    rw [events_noted, funext Trace.Sink.absorb_nil, Option.map_id']
  unfold entered
  simp only [run_mapTrail, hsink]
  rfl

end Act

namespace Node

mutual

/-- **The tree for agents:** its boards hold the sink, which its leaves leave alone. -/
def onAgents : Node β ν → Node (Agent β) ν
  | condition test => condition test.onAgents
  | action run => action fun dt => (run dt).onAgents
  | sequence children => sequence (onAgentsAll children)
  | selector children => selector (onAgentsAll children)
  | inverter child => inverter child.onAgents
  | labeled label child => labeled label child.onAgents

/-- Trees for agents. -/
def onAgentsAll : List (Node β ν) → List (Node (Agent β) ν)
  | [] => []
  | child :: rest => child.onAgents :: onAgentsAll rest

end

theorem onAgentsAll_eq_map (children : List (Node β ν)) :
    onAgentsAll children = children.map onAgents := by
  induction children with
  | nil => rfl
  | cons child rest ih => rw [onAgentsAll, ih, List.map_cons]

variable [Host β] {dt : Float32}

theorem tickWhile_onAgents (passing : Status) {children : List (Node β ν)}
    (h : ∀ child ∈ children, child.onAgents.tick dt = (child.tick dt).entered) :
    tickWhile dt passing (children.map onAgents) = (tickWhile dt passing children).entered := by
  induction children with
  | nil => exact (Act.entered_pure passing).symm
  | cons child rest ih =>
    -- events are entered after the first child and after the rest, instead of after both
    rw [List.map_cons, tickWhile, tickWhile, Act.entered_bind, h child List.mem_cons_self]
    refine bind_congr fun status => ?_
    split
    · exact ih fun c hc => h c (List.mem_cons_of_mem child hc)
    · exact (Act.entered_pure status).symm

theorem tick_onAgents (root : Node β ν) : root.onAgents.tick dt = (root.tick dt).entered := by
  induction root using of_offspring with
  | h node ih =>
    cases node with
    | condition test => rw [onAgents, tick, tick, Act.entered_map, Act.entered_noted]
    | action run => rw [onAgents, tick, tick, Act.entered_noted]
    | sequence children | selector children =>
      rw [onAgents, onAgentsAll_eq_map, tick_of_passing? rfl, tick_of_passing? rfl]
      exact tickWhile_onAgents _ ih
    -- an inverter only turns the answer round, which neither board nor sink notices
    | inverter child =>
      rw [onAgents, tick, tick, Act.entered_map, ih child List.mem_cons_self]
    | labeled label child =>
      rw [onAgents, tick, tick, Act.entered_bind, ih child List.mem_cons_self]
      refine bind_congr fun status => ?_
      -- a report has one event, which an agent's board enters at once
      rw [Act.entered_bind, Act.entered_pure]
      rfl

end Node

/-! ### Updates of many agents -/

/-- The boards of some agents, without their sinks. -/
def boards (agents : List (Agent β)) : List β :=
  agents.map Agent.board

variable [Driven β γ] {agents agents' : List (Agent β)}

theorem boards_filter (p : β → Bool) (agents : List (Agent β)) :
    boards (agents.filter fun a => p a.board) = (boards agents).filter p := by
  rw [boards, boards, List.filter_map]
  rfl

/-- **Agents driven with and without labels** end with the same boards and the same tally, if boards
leave their trace to others. So they do if one of the ticks ends with a fault. -/
theorem tickAll_unlabeled (hspares : Host.Spares (id : β → β)) (dt : Float32) (root : Node β ν)
    (surroundings : γ) (same : boards agents' = boards agents) :
    (tickAll dt root.unlabeled surroundings agents').tally =
        (tickAll dt root surroundings agents).tally ∧
      boards (tickAll dt root.unlabeled surroundings agents').agents =
        boards (tickAll dt root surroundings agents).agents := by
  -- the two lists have the same boards, so they are taken apart together
  induction agents generalizing agents' with
  | nil =>
    obtain rfl := List.map_eq_nil_iff.mp same
    exact ⟨rfl, rfl⟩
  | cons agent rest ih =>
    obtain ⟨agent', rest', rfl, hagent, hrest⟩ := List.map_eq_cons_iff.mp same
    obtain ⟨htally, hboards⟩ := ih hrest
    have hrefresh : ({ agent' with board := Driven.refresh surroundings dt agent'.board } :
          Agent β).board =
        ({ agent with board := Driven.refresh surroundings dt agent.board } : Agent β).board := by
      rw [hagent]
    obtain ⟨hresult, hboard⟩ := Agent.tick_unlabeled dt root hspares
      (fun _ _ => Act.seesOnly_id _) hrefresh
    rw [tickAll, tickAll]
    simp only [hresult]
    -- the first agent's tick decides whether the others are driven
    split
    · exact ⟨rfl, List.cons_eq_cons.mpr ⟨hboard, hrest⟩⟩
    · refine ⟨?_, List.cons_eq_cons.mpr ⟨hboard, hboards⟩⟩
      change Except.map _ _ = Except.map _ _
      rw [htally]

/-- **Updates with and without labels:** the same agents are removed, and the others driven alike.
-/
theorem update_unlabeled (hspares : Host.Spares (id : β → β)) (dt : Float32) (root : Node β ν)
    (surroundings : γ) (same : boards agents' = boards agents) :
    (update dt root.unlabeled surroundings agents').tally =
        (update dt root surroundings agents).tally ∧
      boards (update dt root.unlabeled surroundings agents').agents =
        boards (update dt root surroundings agents).agents := by
  -- whether an agent lives is read from its board, so the same ones are removed
  have halive : boards (living agents') = boards (living agents) := by
    rw [living, living, boards_filter, boards_filter, same]
  -- the tally counts the removed, and only their number
  have hdead : (fallen agents').length = (fallen agents).length := by
    have hboards : boards (fallen agents') = boards (fallen agents) := by
      rw [fallen, fallen, boards_filter fun b => !Driven.isAlive b,
        boards_filter fun b => !Driven.isAlive b, same]
    simpa [boards] using congrArg List.length hboards
  obtain ⟨htally, hdriven⟩ := tickAll_unlabeled hspares dt root surroundings halive
  refine ⟨?_, hdriven⟩
  change Except.map (fun t : Tally => { t with reaped := (fallen agents').length })
      (tickAll dt root.unlabeled surroundings (living agents')).tally =
    Except.map (fun t : Tally => { t with reaped := (fallen agents).length })
      (tickAll dt root surroundings (living agents)).tally
  rw [hdead, htally]

end Tree

end Skirmish
