import Skirmish.Proofs.Tree.Order

/-!
# Duality

Inversion exchanges what lets a sequence go on with what lets a selector go on, and leaves an
unfinished node unfinished, which settles both. So a tree may be turned round as a formula is: its
composites exchanged and its leaves inverted.

* `Node.dual` — the tree turned round;
* `Node.IsEvenHanded` — trees whose boards take in a report and its opposite alike;
* `Node.tickWhile_turned` — a row of children that are turned round, for either composite;
* `Node.tick_dual` — the dual tree does the same and answers the opposite, in labels too;
* `Node.leafVisits_walk_dual` — and by the same leaves, each below the inverter that it was given;
* `Node.deMorgan` — all of it.

The induction is over the tree, and both composites are one case, for each is the other one's dual.
Labels are the one thing that could tell a tree from its dual, for the board hears the opposite from
them. A tree without labels is even-handed on any board.
-/

namespace Skirmish.Tree

variable {β ρ σ ν α γ : Type}

namespace Act

theorem mapTrail_bind (f : ρ → σ) (act : Act β ρ α) (next : α → Act β ρ γ) :
    (act >>= next).mapTrail f = act.mapTrail f >>= fun a => (next a).mapTrail f := by
  ext1
  funext b
  rw [run_mapTrail, run_bind, run_bind, run_mapTrail]
  -- what is left to do depends on whether the first act ends with a fault
  rcases act.run b with ⟨b', trail, fault | a⟩
  · rfl
  · simp [run_mapTrail]

theorem mapTrail_id (act : Act β ρ α) : act.mapTrail id = act := by
  ext1
  funext b
  rw [run_mapTrail, List.map_id]

theorem mapTrail_pure (f : ρ → σ) (a : α) : (pure a : Act β ρ α).mapTrail f = pure a := rfl

theorem mapTrail_map (f : ρ → σ) (g : α → γ) (act : Act β ρ α) :
    (g <$> act).mapTrail f = g <$> act.mapTrail f := by
  rw [← bind_pure_comp, ← bind_pure_comp, mapTrail_bind]
  rfl

end Act

/-- **A record turned round:** a label reports the opposite. -/
def Record.inverted : Record ν → Record ν
  | ticked node agent step status => ticked node agent step status.invert
  | noted note => noted note

theorem Act.mapTrail_inverted_noted (act : Act β ν α) :
    (act.mapTrail Record.noted).mapTrail Record.inverted = act.mapTrail Record.noted := by
  ext1
  funext b
  rw [run_mapTrail, run_mapTrail, List.map_map]
  rfl

/-- **An act turned round:** it answers the opposite, and its records are translated. -/
def Act.turned (f : Record ν → Record ν) (act : Act β (Record ν) Status) :
    Act β (Record ν) Status :=
  Status.invert <$> act.mapTrail f

namespace Act

variable {f : Record ν → Record ν}

theorem turned_pure (status : Status) :
    (pure status : Act β (Record ν) Status).turned f = pure status.invert := by
  rw [turned, mapTrail_pure, map_pure]

theorem turned_bind (act : Act β (Record ν) α) (next : α → Act β (Record ν) Status) :
    (act >>= next).turned f = act.mapTrail f >>= fun a => (next a).turned f := by
  rw [turned, mapTrail_bind, map_bind]
  rfl

theorem bind_turned (act : Act β (Record ν) Status) (next : Status → Act β (Record ν) γ) :
    act.turned f >>= next = act.mapTrail f >>= fun status => next status.invert := by
  rw [turned, bind_map_left]

theorem run_turned (act : Act β (Record ν) Status) (b : β) :
    (act.turned f).run b =
      ⟨(act.run b).board, (act.run b).trail.map f, (act.run b).result.map Status.invert⟩ := by
  rw [turned, run_map, run_mapTrail]

end Act

namespace Node

/-! ### Trees turned round -/

mutual

/-- **The dual tree:** composites are exchanged and leaves inverted, and all else stays as it is. -/
def dual : Node β ν → Node β ν
  | condition test => inverter (condition test)
  | action run => inverter (action run)
  | sequence children => selector (dualAll children)
  | selector children => sequence (dualAll children)
  | inverter child => inverter child.dual
  | labeled label child => labeled label child.dual

def dualAll : List (Node β ν) → List (Node β ν)
  | [] => []
  | child :: rest => child.dual :: dualAll rest

end

theorem dualAll_eq_map (children : List (Node β ν)) : dualAll children = children.map dual := by
  induction children with
  | nil => rfl
  | cons child rest ih => rw [dualAll, ih, List.map_cons]

theorem isLeaf_dual (node : Node β ν) : node.dual.isLeaf = false := by
  cases node <;> rfl

theorem dual_of_isLeaf {node : Node β ν} (h : node.isLeaf = true) : node.dual = inverter node := by
  cases node with
  | condition | action => rfl
  | sequence | selector | inverter | labeled => cases h

theorem passing?_dual {node : Node β ν} (h : node.isLeaf = false) :
    node.dual.passing? = node.passing?.map Status.invert := by
  cases node with
  | condition | action => cases h
  | sequence | selector | inverter | labeled => rfl

theorem offspring_dual {node : Node β ν} (h : node.isLeaf = false) :
    node.dual.offspring = node.offspring.map dual := by
  cases node with
  | condition | action => cases h
  | sequence children | selector children => exact dualAll_eq_map children
  | inverter | labeled => rfl

/-- **Trees whose reports do not tell opposites apart:** what the board makes of the report of a
label in the tree, it makes of the opposite too. -/
def IsEvenHanded [Host β] (root : Node β ν) : Prop :=
  ∀ place label child, at? place root = some (labeled label child) → ∀ (status : Status) (b : β),
    Host.emit label status.invert.text b = Host.emit label status.text b

theorem IsEvenHanded.offspring [Host β] {node child : Node β ν} (h : node.IsEvenHanded)
    (hchild : child ∈ node.offspring) : child.IsEvenHanded := by
  intro place label below hplace
  obtain ⟨i, hi⟩ := List.mem_iff_getElem?.mp hchild
  -- a label below the child is one below the node, at a longer place
  refine h (i :: place) label below ?_
  rw [at?, hi]
  exact hplace

/-! ### Leaves -/

/-- **The leaves among some visits.** -/
def leafVisits (visits : List (List Nat × Visit β ν)) : List (List Nat × Visit β ν) :=
  visits.filter (·.2.node.isLeaf)

theorem leafVisits_append (visits others : List (List Nat × Visit β ν)) :
    leafVisits (visits ++ others) = leafVisits visits ++ leafVisits others :=
  List.filter_append ..

theorem leafVisits_map (g : List Nat → List Nat) (visits : List (List Nat × Visit β ν)) :
    leafVisits (visits.map fun v => (g v.1, v.2)) = (leafVisits visits).map fun v => (g v.1, v.2) :=
  List.filter_map ..

variable [Host β] {dt : Float32} {b : β}

/-! ### The same answers, turned round -/

/-- **A row of children that are turned round** goes on where the row itself does, and is settled
with the opposite answer. -/
theorem tickWhile_turned (passing : Status) {f : Record ν → Record ν} {turn : Node β ν → Node β ν}
    {children : List (Node β ν)}
    (h : ∀ child ∈ children, (turn child).tick dt = (child.tick dt).turned f) :
    tickWhile dt passing.invert (children.map turn) = (tickWhile dt passing children).turned f := by
  -- the empty row answers what lets a parent go on, and turned round what lets the other kind go on
  induction children with
  | nil => exact (Act.turned_pure passing).symm
  | cons child rest ih =>
    have hrest := ih fun c hc => h c (List.mem_cons_of_mem child hc)
    rw [List.map_cons, tickWhile, tickWhile, h child List.mem_cons_self, Act.bind_turned,
      Act.turned_bind]
    refine bind_congr fun status => ?_
    -- inversion keeps statuses apart, so both rows go on or both are settled
    by_cases hs : status = passing
    · rw [if_pos hs, if_pos (congrArg _ hs), hrest]
    · have hne : status.invert ≠ passing.invert := by
        intro heq
        exact hs (by rw [← status.invert_invert, heq, passing.invert_invert])
      rw [if_neg hs, if_neg hne, Act.turned_pure]

theorem report_invert {label : String} {status : Status}
    (h : ∀ b : β, Host.emit label status.invert.text b = Host.emit label status.text b) :
    (report label status.invert : Act β (Record ν) Unit) =
      (report label status).mapTrail Record.inverted := by
  ext1
  funext b
  change Outcome.mk (Host.emit label status.invert.text b) _ _ = _
  rw [h b]
  rfl

theorem tick_dual {node : Node β ν} (heven : node.IsEvenHanded) :
    node.dual.tick dt = (node.tick dt).turned Record.inverted := by
  induction node using of_offspring with
  | h node ih =>
    -- what the board makes of reports below a child is part of what it makes of the tree
    have hbelow : ∀ child ∈ node.offspring,
        child.dual.tick dt = (child.tick dt).turned Record.inverted :=
      fun child hchild => ih child hchild (heven.offspring hchild)
    cases node with
    -- the inverter around a leaf does just what the dual tree has to do
    | condition test =>
      rw [dual, tick, tick, tick, Act.turned, Act.mapTrail_map, Act.mapTrail_inverted_noted]
    | action run => rw [dual, tick, tick, tick, Act.turned, Act.mapTrail_inverted_noted]
    | sequence children =>
      rw [dual, dualAll_eq_map, tick_of_passing? rfl, tick_of_passing? rfl]
      exact tickWhile_turned .success hbelow
    | selector children =>
      rw [dual, dualAll_eq_map, tick_of_passing? rfl, tick_of_passing? rfl]
      exact tickWhile_turned .failure hbelow
    | inverter child =>
      rw [dual, tick, tick, hbelow child List.mem_cons_self, Act.turned, Act.turned,
        Act.mapTrail_map]
    | labeled label child =>
      rw [dual, tick, tick, hbelow child List.mem_cons_self, Act.bind_turned, Act.turned_bind]
      refine bind_congr fun status => ?_
      -- the board cannot tell the label's report from the one that the tree itself makes
      rw [Act.turned_bind, report_invert (heven [] label child rfl status)]
      simp only [Act.turned_pure]

theorem board_dual {node : Node β ν} (heven : node.IsEvenHanded) (b : β) :
    ((node.dual.tick dt).run b).board = ((node.tick dt).run b).board := by
  rw [tick_dual heven, Act.run_turned]

theorem result_dual {node : Node β ν} (heven : node.IsEvenHanded) (b : β) :
    ((node.dual.tick dt).run b).result = ((node.tick dt).run b).result.map Status.invert := by
  rw [tick_dual heven, Act.run_turned]

theorem result_dual_eq_ok_iff {node : Node β ν} (heven : node.IsEvenHanded) {status : Status} :
    ((node.dual.tick dt).run b).result = .ok status.invert ↔
      ((node.tick dt).run b).result = .ok status := by
  rw [result_dual heven]
  -- a fault is no status on either side
  rcases ((node.tick dt).run b).result with fault | s
  · exact ⟨nofun, nofun⟩
  · refine ⟨?_, fun h => congrArg _ h⟩
    intro h
    have hinvert : s.invert = status.invert := Except.ok.inj h
    rw [← s.invert_invert, hinvert, status.invert_invert]

/-! ### The same leaves -/

theorem leafVisits_walk {node : Node β ν} (h : node.isLeaf = false) (b : β) :
    leafVisits (node.walk dt b) = leafVisits (walkFrom dt node.passing? 0 node.offspring b) := by
  -- the walk ends with the node itself, which is no leaf
  have hown : leafVisits [([], (⟨node, b, (node.tick dt).run b⟩ : Visit β ν))] = [] :=
    List.filter_eq_nil_iff.mpr (by simp [h])
  rw [walk_eq, leafVisits_append, hown, List.append_nil]

theorem leafVisits_walkFrom_dual {passing : Option Status} {children : List (Node β ν)}
    (heven : ∀ child ∈ children, child.IsEvenHanded)
    (h : ∀ child ∈ children, ∀ b, leafVisits (child.dual.walk dt b) =
      (leafVisits (child.walk dt b)).map fun v => (v.1 ++ [0], v.2)) (i : Nat) (b : β) :
    leafVisits (walkFrom dt (passing.map Status.invert) i (children.map dual) b) =
      (leafVisits (walkFrom dt passing i children b)).map fun v => (v.1 ++ [0], v.2) := by
  induction children generalizing i b with
  | nil => rfl
  | cons child rest ih =>
    -- a place below the child gets its number in front and the inverter at its end
    have hfirst : leafVisits ((child.dual.walk dt b).map fun v => (i :: v.1, v.2)) =
        (leafVisits ((child.walk dt b).map fun v => (i :: v.1, v.2))).map
          fun v => (v.1 ++ [0], v.2) := by
      rw [leafVisits_map, leafVisits_map, h child List.mem_cons_self, List.map_map, List.map_map]
      rfl
    have hchild := heven child List.mem_cons_self
    rw [List.map_cons]
    obtain ⟨s, rfl, hresult⟩ | hne := goes_on_or_settles dt passing child b
    · -- the child lets both rows go on, and leaves them the same board
      have hrest := ih (fun c hc => heven c (List.mem_cons_of_mem child hc))
        (fun c hc => h c (List.mem_cons_of_mem child hc)) (i + 1) ((child.tick dt).run b).board
      have hdual := (result_dual_eq_ok_iff hchild).mpr hresult
      rw [Option.map_some] at hrest ⊢
      rw [walkFrom_cons_of_passing hresult, walkFrom_cons_of_passing hdual, board_dual hchild,
        leafVisits_append, leafVisits_append, hfirst, hrest, List.map_append]
    · -- the child settles both rows
      have hdual : ∀ s, passing.map Status.invert = some s →
          ((child.dual.tick dt).run b).result ≠ .ok s := by
        intro s hs hresult
        obtain ⟨t, ht, rfl⟩ := Option.map_eq_some_iff.mp hs
        exact hne t ht ((result_dual_eq_ok_iff hchild).mp hresult)
      rw [walkFrom_cons_of_ne hne, walkFrom_cons_of_ne hdual, hfirst]

/-- **The dual tree ticks the same leaves** on the same boards in the same order. Each of them is
below the inverter that it was given. -/
theorem leafVisits_walk_dual {node : Node β ν} (heven : node.IsEvenHanded) (b : β) :
    leafVisits (node.dual.walk dt b) =
      (leafVisits (node.walk dt b)).map fun v => (v.1 ++ [0], v.2) := by
  -- from the children up, for every board that they may be ticked on
  induction node using of_offspring generalizing b with
  | h node ih =>
    cases hleaf : node.isLeaf with
    | false =>
      rw [leafVisits_walk hleaf, leafVisits_walk node.isLeaf_dual, passing?_dual hleaf,
        offspring_dual hleaf]
      have hbelow : ∀ child ∈ node.offspring, child.IsEvenHanded :=
        fun _ hchild => heven.offspring hchild
      exact leafVisits_walkFrom_dual hbelow
        (fun child hchild => ih child hchild (hbelow child hchild)) 0 b
    | true =>
      -- the leaf is all that there is, here and below the inverter
      have hinverter : (inverter node).isLeaf = false := rfl
      rw [dual_of_isLeaf hleaf, walk_inverter, walk_of_isLeaf hleaf]
      simp [leafVisits, hleaf, hinverter]

/-! ### Inverters -/

theorem tick_inverter_eq_turned (child : Node β ν) :
    (inverter child).tick dt = (child.tick dt).turned id := by
  rw [tick, Act.turned, Act.mapTrail_id]

/-- **A composite below an inverter** is the other one of inverted children. -/
theorem tick_inverter_sequence (children : List (Node β ν)) :
    (inverter (sequence children)).tick dt = (selector (children.map inverter)).tick dt := by
  rw [tick_inverter_eq_turned, tick_of_passing? rfl, tick_of_passing? rfl]
  -- an inverter turns its child round and leaves the records alone
  exact (tickWhile_turned .success fun child _ => tick_inverter_eq_turned child).symm

theorem tick_inverter_selector (children : List (Node β ν)) :
    (inverter (selector children)).tick dt = (sequence (children.map inverter)).tick dt := by
  rw [tick_inverter_eq_turned, tick_of_passing? rfl, tick_of_passing? rfl]
  exact (tickWhile_turned .failure fun child _ => tick_inverter_eq_turned child).symm

theorem tick_inverter_inverter (child : Node β ν) :
    (inverter (inverter child)).tick dt = child.tick dt := by
  rw [tick, tick, Functor.map_map, funext Status.invert_invert]
  exact id_map _

/-! ### Both trees -/

/-- **The leaves that were executed,** in their order, given the visit at every place where there
was one. -/
def executedLeaves (root : Node β ν) (visit : List Nat → Option (Visit β ν)) :
    List (List Nat × Visit β ν) :=
  leafVisits (root.places.filterMap fun place => (visit place).map (place, ·))

/-- **A tree turned round** ticks the same leaves in the same order, each on the board that it finds
in the tree itself and with the same outcome. It leaves the same board, answers the opposite, and so
do its labels; a fault stays a fault. It is so for every tree without labels, and for trees with
labels if what the board makes of their reports does not depend on the answer. In particular, an
inverter goes through a composite to its children and makes the other composite of it, and two
inverters are none. -/
theorem deMorgan (dt : Float32) (root : Node β ν) (b : β) :
    (root.IsEvenHanded →
      (∃ visit visit', root.IsCourse dt b visit ∧ root.dual.IsCourse dt b visit' ∧
        executedLeaves root.dual visit' =
          (executedLeaves root visit).map fun v => (v.1 ++ [0], v.2)) ∧
      ((root.dual.tick dt).run b).board = ((root.tick dt).run b).board ∧
      ((root.dual.tick dt).run b).result = ((root.tick dt).run b).result.map Status.invert ∧
      ((root.dual.tick dt).run b).trail = ((root.tick dt).run b).trail.map Record.inverted) ∧
    (∀ children : List (Node β ν),
      (inverter (sequence children)).tick dt = (selector (children.map inverter)).tick dt) ∧
    (∀ children : List (Node β ν),
      (inverter (selector children)).tick dt = (sequence (children.map inverter)).tick dt) ∧
    ∀ child : Node β ν, (inverter (inverter child)).tick dt = child.tick dt := by
  refine ⟨?_, tick_inverter_sequence, tick_inverter_selector, tick_inverter_inverter⟩
  intro heven
  refine ⟨?_, board_dual heven b, result_dual heven b, ?_⟩
  · exact ⟨_, _, tick_isCourse dt root b, tick_isCourse dt root.dual b,
      leafVisits_walk_dual heven b⟩
  · rw [tick_dual heven, Act.run_turned]

end Node

end Skirmish.Tree
