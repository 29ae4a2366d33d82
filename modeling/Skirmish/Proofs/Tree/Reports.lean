import Skirmish.Proofs.Tree.Labels
import Skirmish.Proofs.Tree.Order
import Skirmish.Tree
import Skirmish.Tree.Puppet

/-!
# What labels report

A label makes its record while the tree is being ticked, behind the records of everything below it.
So what a tick reports is what an account of the finished tick would list: one report for each
labelled node that was executed and answered, in the order in which the nodes were done.

* `Node.Report` — which labelled node answered what;
* `Node.AreReports` — the reports that a course of a tick calls for;
* `Node.fromLabels_tick` — the records that labels make are those of the walk's reports;
* `Node.tick_reports` — the trace and the journal of a tick are its reports.

All records of a tick carry the same agent and step, because leaves and reports leave both alone.
That is the only thing asked of them.
-/

namespace Skirmish.Tree

variable {β ν : Type}

/-- **The records of a trail that labels made.** -/
def fromLabels (trail : List (Record ν)) : List (Record ν) :=
  trail.filter fun r => !r.isNote

theorem fromLabels_append (trail records : List (Record ν)) :
    fromLabels (trail ++ records) = fromLabels trail ++ fromLabels records :=
  List.filter_append ..

theorem fromLabels_noted (notes : List ν) : fromLabels (notes.map Record.noted) = [] := by
  refine List.filter_eq_nil_iff.mpr ?_
  intro r hr
  obtain ⟨n, -, rfl⟩ := List.mem_map.mp hr
  exact Bool.false_ne_true

theorem events_fromLabels (trail : List (Record ν)) : events (fromLabels trail) = events trail := by
  rw [events, events, fromLabels, List.filterMap_filter]
  refine congrArg (List.filterMap · _) (funext fun r => ?_)
  -- notes have no events
  cases r <;> rfl

namespace Node

/-- **One report:** which labelled node answered what. -/
structure Report where
  /-- The node's place. -/
  place : List Nat
  /-- Its label. -/
  label : String
  /-- Its answer. -/
  status : Status

/-- **The reports that a course calls for:** one for each labelled node that was executed and
answered, in the order in which the nodes were done. -/
structure AreReports (visit : List Nat → Option (Visit β ν)) (reports : List Report) : Prop where
  /-- They come in order, so that there is one for each place at most. -/
  ordered : (reports.map Report.place).Pairwise DoneBefore
  /-- What they say is what happened. -/
  mem_iff : ∀ r, r ∈ reports ↔ ∃ v child, visit r.place = some v ∧ v.node = labeled r.label child ∧
    v.outcome.result = .ok r.status

/-- What a visited node has to report. -/
def report? (place : List Nat) (v : Visit β ν) : Option Report :=
  match v.node, v.outcome.result with
  | labeled label _, .ok status => some ⟨place, label, status⟩
  | _, _ => none

theorem report?_eq_some_iff {place : List Nat} {v : Visit β ν} {r : Report} :
    report? place v = some r ↔ place = r.place ∧ ∃ child, v.node = labeled r.label child ∧
      v.outcome.result = .ok r.status := by
  refine ⟨?_, ?_⟩
  · intro h
    unfold report? at h
    -- only a labelled node that answered has something to report
    split at h
    · next label child status hnode hresult =>
      obtain rfl := Option.some.inj h
      exact ⟨rfl, child, hnode, hresult⟩
    · cases h
  · rintro ⟨rfl, child, hnode, hresult⟩
    rw [report?, hnode, hresult]

/-- **What some visits have to report.** -/
def reportsOf (visits : List (List Nat × Visit β ν)) : List Report :=
  visits.filterMap fun v => report? v.1 v.2

theorem reportsOf_append (visits others : List (List Nat × Visit β ν)) :
    reportsOf (visits ++ others) = reportsOf visits ++ reportsOf others :=
  List.filterMap_append ..

variable [Host β]

/-- What a label reads from the board: the agent and its step. -/
def stamp (b : β) : UInt64 × UInt64 :=
  (Host.agent b, Host.step b)

namespace Report

/-- The record of a report. -/
def record (b : β) (r : Report) : Record ν :=
  .ticked r.label (Host.agent b) (Host.step b) r.status

/-- The event of a report. -/
def event (b : β) (r : Report) : Trace.Event :=
  ⟨Host.agent b, Host.step b, r.label, r.status.text⟩

/-- The journal's entry for a report. -/
def entry (b : β) (r : Report) : Journal.Entry :=
  ⟨.trace, .nodes, "bt tick",
    [("node", .plain r.label), ("agent", .count (Host.agent b).toNat),
      ("status", .quoted r.status.text)]⟩

theorem record_congr {b b' : β} (h : stamp b' = stamp b) :
    (record b' : Report → Record ν) = record b := by
  obtain ⟨hagent, hstep⟩ := Prod.mk.inj h
  funext r
  rw [record, record, hagent, hstep]

theorem events_map_record (b : β) (reports : List Report) :
    events (reports.map (record b : Report → Record ν)) = reports.map (event b) := by
  rw [events, List.filterMap_map, ← List.filterMap_eq_map]
  rfl

end Report

theorem records_map (b : β) (i : Nat) (visits : List (List Nat × Visit β ν)) :
    (reportsOf (visits.map fun v => (i :: v.1, v.2))).map (Report.record b : Report → Record ν) =
      (reportsOf visits).map (Report.record b) := by
  rw [reportsOf, reportsOf, List.filterMap_map, List.map_filterMap, List.map_filterMap]
  refine congrArg (List.filterMap · _) (funext fun v => ?_)
  -- the place is the only thing that is different, and records do not show it
  unfold report?
  simp only [Function.comp]
  split <;> rfl

variable {dt : Float32} {passing : Status} {children : List (Node β ν)} {root : Node β ν} {b : β}

/-! ### Reports and records -/

/-- **The records of some children** are those of the reports in their walk, if it is so for each
child. -/
theorem fromLabels_tickWhile
    (h : ∀ child ∈ children, ∀ b, fromLabels ((child.tick dt).run b).trail =
      (reportsOf (child.walk dt b)).map (Report.record b))
    (keeps : ∀ child ∈ children, (child.tick dt).Keeps stamp) (i : Nat) (b : β) :
    fromLabels ((tickWhile dt passing children).run b).trail =
      (reportsOf (walkFrom dt (some passing) i children b)).map (Report.record b) := by
  -- the reports of the first child come before those of the others, on both sides
  induction children generalizing i b with
  | nil => rfl
  | cons child rest ih =>
    have hfirst := h child List.mem_cons_self b
    by_cases hpass : ((child.tick dt).run b).result = .ok passing
    · have hrest := ih (fun c hc => h c (List.mem_cons_of_mem child hc))
        (fun c hc => keeps c (List.mem_cons_of_mem child hc)) (i + 1) ((child.tick dt).run b).board
      -- the next child finds another board, on which agent and step are the same
      rw [Report.record_congr (keeps child List.mem_cons_self b)] at hrest
      calc fromLabels ((tickWhile dt passing (child :: rest)).run b).trail
        _ = fromLabels ((child.tick dt).run b).trail ++
            fromLabels ((tickWhile dt passing rest).run ((child.tick dt).run b).board).trail := by
          rw [tickWhile_cons_of_passing hpass, Outcome.after, fromLabels_append]
        _ = (reportsOf (child.walk dt b)).map (Report.record b) ++
            (reportsOf (walkFrom dt (some passing) (i + 1) rest ((child.tick dt).run b).board)).map
              (Report.record b) := by
          rw [hfirst, hrest]
        _ = (reportsOf (walkFrom dt (some passing) i (child :: rest) b)).map (Report.record b) := by
          rw [walkFrom_cons_of_passing hpass, reportsOf_append, List.map_append, records_map]
    · -- no child behind this one is ticked, so none has anything to report
      rw [tickWhile_cons_of_ne hpass, walkFrom_cons_of_ne fun s hs => Option.some.inj hs ▸ hpass,
        records_map, hfirst]

theorem fromLabels_tick (hspares : Host.Spares (stamp : β → UInt64 × UInt64))
    (keeps : ∀ leaf : Node β ν, leaf.IsLeafOf root → (leaf.tick dt).Keeps stamp) (b : β) :
    fromLabels ((root.tick dt).run b).trail =
        (reportsOf (root.walk dt b)).map (Report.record b) := by
  induction root using of_offspring generalizing b with
  | h node ih =>
    -- the leaves of a child are leaves of the tree
    have hleaf : ∀ child ∈ node.offspring, ∀ leaf : Node β ν, leaf.IsLeafOf child →
        (leaf.tick dt).Keeps stamp := fun child hchild leaf h => keeps leaf (.child hchild h)
    have hbelow : ∀ child ∈ node.offspring, ∀ b, fromLabels ((child.tick dt).run b).trail =
        (reportsOf (child.walk dt b)).map (Report.record b) :=
      fun child hchild => ih child hchild (hleaf child hchild)
    cases node with
    | condition test =>
      rw [walk_of_isLeaf rfl, tick, Act.run_map, Act.run_mapTrail, fromLabels_noted]
      rfl
    | action run =>
      rw [walk_of_isLeaf rfl, tick, Act.run_mapTrail, fromLabels_noted]
      rfl
    | sequence children | selector children =>
      rw [walk_eq, reportsOf_append, List.map_append, tick_of_passing? rfl,
        fromLabels_tickWhile hbelow fun c hc => keeps_tick hspares (hleaf c hc)]
      exact (List.append_nil _).symm
    | inverter child =>
      rw [walk_inverter, reportsOf_append, List.map_append, records_map, tick, Act.run_map,
        ← hbelow child List.mem_cons_self b]
      exact (List.append_nil _).symm
    | labeled label child =>
      have hchild := hbelow child List.mem_cons_self b
      -- nothing below the label changes who the agent is and which step it is in
      have hstamp := keeps_tick hspares (hleaf child List.mem_cons_self) b
      rw [walk_labeled, reportsOf_append, List.map_append, records_map, ← hchild]
      rcases hrun : (child.tick dt).run b with ⟨b', trail, fault | status⟩
      · -- a child that ends with a fault leaves nothing to report
        rw [tick_labeled_of_error hrun]
        exact (List.append_nil _).symm
      · rw [tick_labeled_of_ok hrun, fromLabels_append]
        refine congrArg (fromLabels trail ++ ·) ?_
        -- the label's own record is made on the child's board, and carries the same stamp
        rw [hrun] at hstamp
        obtain ⟨hagent, hstep⟩ := Prod.mk.inj hstamp
        rw [hagent, hstep]
        rfl

theorem areReports_walk (dt : Float32) (root : Node β ν) (b : β) :
    AreReports (visit? dt · root b) (reportsOf (root.walk dt b)) where
  ordered := by
    refine List.pairwise_map.mpr (List.pairwise_filterMap.mpr ((walk_done dt root b).imp ?_))
    intro v later hdone r hr r' hr'
    -- each report is for the place of its visit
    rw [← (report?_eq_some_iff.mp hr).1, ← (report?_eq_some_iff.mp hr').1]
    exact hdone
  mem_iff r := by
    rw [reportsOf, List.mem_filterMap]
    refine ⟨?_, ?_⟩
    · rintro ⟨⟨place, v⟩, hv, hr⟩
      obtain ⟨rfl, child, hnode, hresult⟩ := report?_eq_some_iff.mp hr
      exact ⟨v, child, mem_walk_iff.mp hv, hnode, hresult⟩
    · -- a visit is met by the walk, and then it is reported
      rintro ⟨v, child, hv, hnode, hresult⟩
      exact ⟨(r.place, v), mem_walk_iff.mpr hv,
        report?_eq_some_iff.mpr ⟨rfl, child, hnode, hresult⟩⟩

/-- **Every visit answers** if the tick does: a fault would settle everything above it. -/
theorem IsCourse.answers {visit : List Nat → Option (Visit β ν)} (h : root.IsCourse dt b visit)
    {status : Status} (hroot : ((root.tick dt).run b).result = .ok status) (place : List Nat)
    (v : Visit β ν) (hv : visit place = some v) : ∃ s, v.outcome.result = .ok s := by
  -- the parent of a visit has answered, down from the root
  induction place using List.reverseRecOn generalizing v with
  | nil =>
    obtain rfl := Option.some.inj (h.whole.symm.trans hv)
    exact ⟨status, hroot⟩
  | append_singleton place i ih =>
    obtain ⟨parent, hparent, -⟩ := (h.child place i).mp (Option.isSome_iff_exists.mpr ⟨v, hv⟩)
    obtain ⟨s, hs⟩ := ih parent hparent
    cases hresult : v.outcome.result with
    | ok s => exact ⟨s, rfl⟩
    | error fault =>
      -- then no sibling follows, and the parent ends with the fault too
      have hlast : visit (place ++ [i + 1]) = none := by
        refine Option.not_isSome_iff_eq_none.mp fun hnext => ?_
        obtain ⟨_, -, -, helder⟩ := (h.child place (i + 1)).mp hnext
        obtain ⟨v', s', hv', hs', -⟩ := helder i (Nat.lt_succ_self i)
        obtain rfl := Option.some.inj (hv.symm.trans hv')
        rw [hresult] at hs'
        cases hs'
      have hfault := h.last place i parent v hparent hv hlast
      rw [hs, hresult] at hfault
      cases hfault

/-- **A tick reports what it did,** if leaves and reports leave agent and step alone. There is a
course of the tick and a list of the reports that it calls for: one for each labelled node that was
executed and answered, which is each that was executed if the tick ends with an answer. A log of the
agent's own gets the events of these reports behind what it had; a log that agents share gets them
too; and the journal gets their entries, with any sink and without one. All this is so whether the
sink is kept beside the board, and gets the events when the tick is over, or on it, and gets each of
them when it is reported. -/
theorem tick_reports (dt : Float32) (root : Node β ν) (b : β)
    (hspares : Host.Spares (stamp : β → UInt64 × UInt64))
    (keeps : ∀ leaf : Node β ν, leaf.IsLeafOf root → (leaf.tick dt).Keeps stamp) :
    ∃ visit reports, root.IsCourse dt b visit ∧ AreReports visit reports ∧
      (∀ status, ((root.tick dt).run b).result = .ok status →
        ∀ place v, visit place = some v → ∃ s, v.outcome.result = .ok s) ∧
      (∀ log, ∃ log', (Agent.tick dt root ⟨b, some (.own log)⟩).agent.sink = some (.own log') ∧
        log'.events.toList = log.events.toList ++ reports.map (Report.event b)) ∧
      (Agent.tick dt root ⟨b, some .shared⟩).events = reports.map (Report.event b) ∧
      (∀ (sink : Option Trace.Sink) (noteEntry : ν → Journal.Entry),
        (fromLabels (Agent.tick dt root ⟨b, sink⟩).trail).map (Record.entry noteEntry) =
          reports.map (Report.entry b)) ∧
      ∀ sink : Option Trace.Sink, (root.onAgents.tick dt).run ⟨b, sink⟩ =
        ⟨(Agent.tick dt root ⟨b, sink⟩).agent, (Agent.tick dt root ⟨b, sink⟩).trail,
          (Agent.tick dt root ⟨b, sink⟩).result⟩ := by
  have htrail := fromLabels_tick hspares keeps b
  have hevents : events ((root.tick dt).run b).trail =
      (reportsOf (root.walk dt b)).map (Report.event b) := by
    rw [← events_fromLabels, htrail, Report.events_map_record]
  refine ⟨_, _, tick_isCourse dt root b, areReports_walk dt root b, ?_, ?_, hevents, ?_, ?_⟩
  · intro status hstatus
    exact (tick_isCourse dt root b).answers hstatus
  · intro log
    exact ⟨_, rfl, by rw [Trace.Log.toList_append, hevents]⟩
  · intro sink noteEntry
    -- whether there is a sink makes no difference to the trail, which is the tree's own
    change (fromLabels ((root.tick dt).run b).trail).map (Record.entry noteEntry) = _
    rw [htrail, List.map_map]
    rfl
  · intro sink
    rw [tick_onAgents]
    rfl

/-- A post on a round, by the name of the leaf there. -/
def post (name : String) (status : Status) : Node Puppet Unit :=
  labeled name (action fun _ => Puppet.perform name [status] [] 0)

/-- A round that goes on until a post does not fail. -/
def round : Node Puppet Unit :=
  labeled "round" (selector [post "north" .failure, post "south" .running, post "east" .success])

/-- The third post of this round is not reached, and has nothing to report. -/
theorem tick_reports_round :
    let puppet : Puppet := ⟨7, 1, [], 3, 0, 0, [], [], []⟩
    Host.Spares (stamp : Puppet → UInt64 × UInt64) ∧
    (∀ leaf : Node Puppet Unit, leaf.IsLeafOf round → (leaf.tick 0.5).Keeps stamp) ∧
    ∃ visit reports, round.IsCourse 0.5 puppet visit ∧ AreReports visit reports ∧
      reports.map (Report.event puppet) =
        [⟨7, 3, "north", "failure"⟩, ⟨7, 3, "south", "running"⟩, ⟨7, 3, "round", "running"⟩] ∧
      ((round.onAgents.tick 0.5).run ⟨puppet, some (.own .empty)⟩).board.sink =
        some (.own ((Trace.Log.empty).append (reports.map (Report.event puppet)))) := by
  intro puppet
  have hspares : Host.Spares (stamp : Puppet → UInt64 × UInt64) := fun _ _ _ => rfl
  have hkeeps : ∀ leaf : Node Puppet Unit, leaf.IsLeafOf round → (leaf.tick 0.5).Keeps stamp := by
    intro leaf hleaf
    simp only [round, post, isLeafOf_labeled, isLeafOf_selector, List.mem_cons, List.not_mem_nil,
      or_false, exists_eq_or_imp, exists_eq_left, isLeafOf_action] at hleaf
    -- three posts, each with a leaf that only puts itself on record
    obtain rfl | rfl | rfl := hleaf
    · exact fun _ => rfl
    · exact fun _ => rfl
    · exact fun _ => rfl
  obtain ⟨visit, reports, hcourse, hreports, -, -, hshared, -, hentered⟩ :=
    tick_reports 0.5 round puppet hspares hkeeps
  refine ⟨hspares, hkeeps, visit, reports, hcourse, hreports, hshared.symm.trans rfl, ?_⟩
  rw [hentered, ← hshared]
  rfl

end Node

end Skirmish.Tree
