import Skirmish.Proofs.Tree.Ticking
import Skirmish.Tree.Puppet

/-!
# Nobody is lost in an update

An update drops the agents that are dead when it begins and drives each of the others once. An agent
that dies in its own tick is not dropped by the same update: it stays where it was, is counted as
ticked, and is found dead by the next one.

* `Settled` — what an update that completes does to a vector of agents, counts and journals;
* `settled_of_update_ok` — every update that completes does just this;
* `Calls` — updates one after another, with agents appended and boards overwritten in between;
* `Calls.length_eq` — whoever was there or came later is there or was removed;
* `update_conserves` — all of this together.

The dead and the living of a vector are two filters of it, so nobody is in both and nobody in
neither. Everything about many updates follows from this one fact about each of them.
-/

namespace Skirmish.Tree

variable {β ν γ : Type}

/-! ### Reading a journal -/

/-- The agent that was removed, if that is what a remark is about. -/
def Remark.reaped? : Remark ν → Option UInt64
  | reaped agent => some agent
  | _ => none

/-- The agent whose tree failed as a whole, if that is what a remark is about. -/
def Remark.rootFailed? : Remark ν → Option UInt64
  | rootFailed agent => some agent
  | _ => none

variable [Driven β γ]

/-- A tick removes nobody. -/
theorem reaped?_remarks (t : Agent.Ticked β ν) : t.remarks.filterMap Remark.reaped? = [] := by
  refine List.filterMap_eq_nil_iff.mpr ?_
  intro r hr
  -- a tick remarks on its records, and on the failure of its root
  obtain hr | hr := List.mem_append.mp hr
  · obtain ⟨record, -, rfl⟩ := List.mem_map.mp hr
    rfl
  · split at hr
    · obtain rfl := List.mem_singleton.mp hr
      rfl
    · exact absurd hr List.not_mem_nil

theorem rootFailed?_remarks (t : Agent.Ticked β ν) :
    t.remarks.filterMap Remark.rootFailed? =
      if t.status = .failure then [Host.agent t.agent.board] else [] := by
  have htrail : (t.trail.map Remark.during).filterMap Remark.rootFailed? = [] := by
    refine List.filterMap_eq_nil_iff.mpr ?_
    intro r hr
    obtain ⟨record, -, rfl⟩ := List.mem_map.mp hr
    rfl
  rw [Agent.Ticked.remarks, List.filterMap_append, htrail, List.nil_append]
  split <;> rfl

/-! ### One update -/

variable {dt : Float32} {root : Node β ν} {surroundings : γ} {agents : List (Agent β)}
  {tally : Tally}

/-- The agents whose tree fails in an update, as their ticks leave them. -/
def failing (dt : Float32) (root : Node β ν) (surroundings : γ) (agents : List (Agent β)) :
    List (Agent β) :=
  (agents.filter fun a => (Agent.drive dt root surroundings a).status = .failure).map fun a =>
    (Agent.drive dt root surroundings a).agent

/-- **What an update does** that completes with a tally. -/
structure Settled (dt : Float32) (root : Node β ν) (surroundings : γ) (agents : List (Agent β))
    (tally : Tally) : Prop where
  /-- Those who lived at the beginning are there afterwards, in their old order, each of them
  refreshed and then ticked once. -/
  left : (update dt root surroundings agents).agents =
    (agents.filter fun a => Driven.isAlive a.board).map fun a =>
      (Agent.tick dt root { a with board := Driven.refresh surroundings dt a.board }).agent
  /-- Whoever was dead at the beginning is counted as removed. -/
  reaped : tally.reaped = (agents.filter fun a => !Driven.isAlive a.board).length
  /-- Each tick had one status. -/
  ticked : tally.ticked = tally.success + tally.running + tally.failure
  /-- Each agent left was ticked. -/
  length : tally.ticked = (update dt root surroundings agents).agents.length
  /-- The statuses that were counted are those that the roots answered. -/
  ended : ∀ s : Status, tally.ended s =
    ((living agents).map fun a => (Agent.drive dt root surroundings a).status).count s
  /-- The removals come first in the journal, and after them, agent by agent, what each tick
  recorded and the failure of its root, if it failed. -/
  journal : (update dt root surroundings agents).journal =
    (fallen agents).map (fun a => .reaped (Host.agent a.board)) ++
      (living agents).flatMap fun a => (Agent.drive dt root surroundings a).remarks
  /-- Ticks journal no removals. -/
  removals : ((living agents).flatMap fun a =>
    (Agent.drive dt root surroundings a).remarks).filterMap Remark.reaped? = []
  /-- They journal one failure for each root that failed, in order. -/
  failures : ((living agents).flatMap fun a =>
    (Agent.drive dt root surroundings a).remarks).filterMap Remark.rootFailed? =
      (failing dt root surroundings (living agents)).map fun a => Host.agent a.board

theorem length_living_add_length_fallen (agents : List (Agent β)) :
    (living agents).length + (fallen agents).length = agents.length := by
  unfold living fallen
  -- a filter and its opposite together rearrange the whole vector
  rw [← List.length_append]
  exact (List.filter_append_perm _ _).length_eq

theorem ticked_eq_ended (statuses : List Status) :
    (Tally.ofStatuses statuses).ticked =
      (Tally.ofStatuses statuses).success + (Tally.ofStatuses statuses).running +
        (Tally.ofStatuses statuses).failure := by
  -- one count after another; each of them raises `ticked` and exactly one of the other three
  induction statuses with
  | nil => rfl
  | cons s rest ih =>
    change ((Tally.ofStatuses rest).count s).ticked = _
    cases s <;> simp only [Tally.ofStatuses, List.foldr_cons, Tally.count] at ih ⊢ <;> omega

theorem settled_of_update_ok (h : (update dt root surroundings agents).tally = .ok tally) :
    Settled dt root surroundings agents tally := by
  -- completing says that no tick faulted, so the update is `update_eq`, and every field is read off
  -- it
  have hupdate := update_eq (drive_ok_of_update_ok h)
  have htally : tally = { Tally.ofStatuses ((living agents).map fun a =>
      (Agent.drive dt root surroundings a).status) with reaped := (fallen agents).length } := by
    rw [hupdate] at h
    exact (Except.ok.inj h).symm
  have hagents : (update dt root surroundings agents).agents =
      (living agents).map fun a => (Agent.drive dt root surroundings a).agent := by
    rw [hupdate]
  refine ⟨hagents, ?_, ?_, ?_, ?_, congrArg Updated.journal hupdate, ?_, ?_⟩
  · rw [htally]
    rfl
  · rw [htally]
    exact ticked_eq_ended _
  · -- every agent left was counted once, for it gave one status
    rw [hagents, List.length_map, htally]
    exact (Tally.ticked_ofStatuses _).trans (List.length_map _)
  · intro s
    rw [← Tally.ended_ofStatuses, htally]
    cases s <;> rfl
  · rw [List.filterMap_flatMap]
    exact List.flatMap_eq_nil_iff.mpr fun a _ => reaped?_remarks _
  · rw [List.filterMap_flatMap, failing, List.map_map]
    -- the agents are independent of each other, so the induction forgets that they are the living
    -- ones
    generalize living agents = survivors
    induction survivors with
    | nil => rfl
    | cons a rest ih =>
      rw [List.flatMap_cons, ih, rootFailed?_remarks]
      -- a root that fails puts its agent on both lists, and any other on neither
      by_cases hfail : (Agent.drive dt root surroundings a).status = .failure
      · rw [if_pos hfail, List.filter_cons_of_pos (by simpa using hfail)]
        rfl
      · rw [if_neg hfail, List.filter_cons_of_neg (by simpa using hfail)]
        rfl

/-- An update completes if, and only if, the tick of each agent that lives does. -/
theorem exists_update_ok_iff :
    (∃ tally, (update dt root surroundings agents).tally = .ok tally) ↔
      ∀ a ∈ living agents, ∃ s, (Agent.drive dt root surroundings a).result = .ok s := by
  refine ⟨?_, ?_⟩
  · rintro ⟨tally, h⟩
    exact drive_ok_of_update_ok h
  · -- nothing else can stop an update: with all ticks done, the equation is its outcome
    intro h
    rw [update_eq h]
    exact ⟨_, rfl⟩

/-- **Whoever is dead when an update begins** is removed by it, and the removal is journaled. -/
theorem removed_of_dead (h : (update dt root surroundings agents).tally = .ok tally) {a : Agent β}
    (ha : a ∈ agents) (dead : Driven.isAlive a.board = false) :
    a ∉ living agents ∧
      .reaped (Host.agent a.board) ∈ (update dt root surroundings agents).journal := by
  refine ⟨?_, ?_⟩
  · -- one filter keeps who lives, the other who does not
    intro hliving
    have halive := (List.mem_filter.mp hliving).2
    rw [dead] at halive
    cases halive
  · -- the removals stand in front of everything else in the journal
    rw [(settled_of_update_ok h).journal]
    refine List.mem_append_left _ (List.mem_map.mpr ⟨a, ?_, rfl⟩)
    exact List.mem_filter.mpr ⟨ha, by rw [dead]; rfl⟩

/-- **Whoever lives when an update begins** is there afterwards, driven, even if the tick was
deadly. -/
theorem mem_agents_of_alive (h : (update dt root surroundings agents).tally = .ok tally)
    {a : Agent β} (ha : a ∈ agents) (alive : Driven.isAlive a.board = true) :
    (Agent.drive dt root surroundings a).agent ∈ (update dt root surroundings agents).agents := by
  -- who is driven was decided before the tick, so what the tick did to its health does not matter
  rw [(settled_of_update_ok h).left]
  exact List.mem_map.mpr ⟨a, List.mem_filter.mpr ⟨ha, alive⟩, rfl⟩

/-! ### Many updates -/

/-- **Calls** that a vector of agents goes through, with the number of agents appended and the
number of agents removed so far. In between, any board may be overwritten, the health with it. -/
inductive Calls (ν : Type) (start : List (Agent β)) : Nat → Nat → List (Agent β) → Prop
  /-- Nothing has happened yet. -/
  | start : Calls ν start 0 0 start
  /-- An update completes. -/
  | update {appended reaped : Nat} {agents : List (Agent β)}
      (h : Calls ν start appended reaped agents)
      (dt : Float32) (root : Node β ν) (surroundings : γ) {tally : Tally}
      (ok : (update dt root surroundings agents).tally = .ok tally) :
    Calls ν start appended (reaped + tally.reaped) (update dt root surroundings agents).agents
  /-- Agents come in behind the others. -/
  | append {appended reaped : Nat} {agents : List (Agent β)}
      (h : Calls ν start appended reaped agents)
      (newcomers : List (Agent β)) :
    Calls ν start (appended + newcomers.length) reaped (agents ++ newcomers)
  /-- Others write to the agents, each of which stays in its place. -/
  | write {appended reaped : Nat} {agents : List (Agent β)}
      (h : Calls ν start appended reaped agents)
      (agents' : List (Agent β)) (same : agents'.length = agents.length) :
    Calls ν start appended reaped agents'

/-- **Nobody is lost and nobody is there twice:** those of the beginning and those appended are
present or were removed. -/
theorem Calls.length_eq {start : List (Agent β)} {appended reaped : Nat}
    (h : Calls ν start appended reaped agents) :
    start.length + appended = agents.length + reaped := by
  -- by induction on the calls: only an update takes away, and it counts what it takes
  induction h with
  | start => rfl
  | @update appended reaped agents _ dt root surroundings tally ok ih =>
    have hsettled := settled_of_update_ok ok
    have hleft : (Tree.update dt root surroundings agents).agents.length =
        (living agents).length := by
      rw [hsettled.left, List.length_map, living]
    have hreaped : tally.reaped = (fallen agents).length := hsettled.reaped
    -- those driven stay, those counted go, and together they are all who were there
    have hsplit := length_living_add_length_fallen agents
    omega
  | append _ newcomers ih =>
    rw [List.length_append]
    omega
  | write _ agents' same ih => rw [ih, same]

/-- **An update loses, duplicates and reorders nothing,** for agents of any kind and any tree. It
completes unless the tick of an agent that lives does not. One that completes does what `Settled`
says: it removes those who are dead when it begins, drives each of the others once, and keeps count
and journal of that. An agent that dies in its own tick stays among the others and is removed by the
next update that finds it so; if it was revived in between, it is driven like the others. And over
any number of updates, with agents appended and boards overwritten in between, those of the
beginning and those appended are present or were removed. -/
theorem update_conserves (dt : Float32) (root : Node β ν) (surroundings : γ)
    (agents : List (Agent β)) :
    ((∃ tally, (update dt root surroundings agents).tally = .ok tally) ↔
      ∀ a ∈ living agents, ∃ s, (Agent.drive dt root surroundings a).result = .ok s) ∧
    (∀ tally, (update dt root surroundings agents).tally = .ok tally →
      Settled dt root surroundings agents tally ∧
      ∀ a ∈ living agents, ∀ a', a' = (Agent.drive dt root surroundings a).agent →
        Driven.isAlive a'.board = false →
        a' ∈ (update dt root surroundings agents).agents ∧
        ∀ (dt' : Float32) (root' : Node β ν) (surroundings' : γ) (later :
          List (Agent β)) (tally' : Tally),
          (update dt' root' surroundings' later).tally = .ok tally' →
          (a' ∈ later → a' ∉ living later ∧
            .reaped (Host.agent a'.board) ∈ (update dt' root' surroundings' later).journal) ∧
          ∀ revived ∈ later, Driven.isAlive revived.board = true →
            (Agent.drive dt' root' surroundings' revived).agent ∈
              (update dt' root' surroundings' later).agents) ∧
    ∀ appended reaped present, Calls ν agents appended reaped present →
      agents.length + appended = present.length + reaped := by
  refine ⟨exists_update_ok_iff, ?_, fun _ _ _ h => h.length_eq⟩
  intro tally h
  refine ⟨settled_of_update_ok h, ?_⟩
  -- an agent that died in its tick is left by this update, and the next one decides again
  rintro a ha a' rfl dead
  obtain ⟨hmem, halive⟩ := List.mem_filter.mp ha
  refine ⟨mem_agents_of_alive h hmem halive, ?_⟩
  intro dt' root' surroundings' later tally' h'
  exact ⟨fun hlater => removed_of_dead h' hlater dead,
    fun revived hlater halive => mem_agents_of_alive h' hlater halive⟩

/-- A puppet with some health and nothing else. -/
def fragile (id : UInt64) (health : Int) : Agent Puppet :=
  ⟨⟨id, health, [], 0, 0, 0, [], [], []⟩, none⟩

/-- A tree that hurts whoever is ticked, and fails. -/
def sting : Node Puppet Unit :=
  .action fun _ => Puppet.perform "sting" [.failure] [] 1

/-- Of three puppets the first is dead, and the second dies in its tick. The next update removes it,
after a fourth one has come in. -/
theorem update_conserves_fragile :
    (update 0.5 sting (1 : Int) [fragile 1 0, fragile 2 1, fragile 3 9]).tally =
      .ok ⟨2, 1, 0, 0, 2⟩ ∧
    Settled 0.5 sting (1 : Int) [fragile 1 0, fragile 2 1, fragile 3 9] ⟨2, 1, 0, 0, 2⟩ ∧
    ∃ present, Calls Unit [fragile 1 0, fragile 2 1, fragile 3 9] 1 2 present ∧
        present.length = 2 := by
  have hfirst : (update 0.5 sting (1 : Int) [fragile 1 0, fragile 2 1, fragile 3 9]).tally =
      .ok ⟨2, 1, 0, 0, 2⟩ := rfl
  have hcalls := ((Calls.start (ν := Unit)).update 0.5 sting (1 : Int) hfirst).append [fragile 4 1]
  have hsecond : (update 0.5 sting (2 : Int)
      ((update 0.5 sting (1 : Int) [fragile 1 0, fragile 2 1, fragile 3 9]).agents ++
        [fragile 4 1])).tally = .ok ⟨2, 1, 0, 0, 2⟩ := rfl
  have hconserves := update_conserves 0.5 sting (1 : Int) [fragile 1 0, fragile 2 1, fragile 3 9]
  have hpresent := hcalls.update 0.5 sting (2 : Int) hsecond
  refine ⟨hfirst, (hconserves.2.1 _ hfirst).1, _, hpresent, ?_⟩
  -- three to begin with and one newcomer; each of the two updates has removed one
  have hlength := hconserves.2.2 _ _ _ hpresent
  change 3 + (0 + 1) = _ + (0 + 1 + 1) at hlength
  omega

end Skirmish.Tree
