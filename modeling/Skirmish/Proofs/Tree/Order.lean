import Mathlib.Data.List.Induction
import Mathlib.Logic.ExistsUnique
import Skirmish.Proofs.Tree.Visits

/-!
# The order of a tick

A tick is what its visited nodes do, one after another, and what they do is up to the leaves:

* `Node.existsUnique_isCourse` — the visits of a tick are its course, and it has no other;
* `Node.tick_rule` — what holds of the leaves' ticks holds of the tree's.
-/

/-! ## The order of a tick

Which nodes a tick executes depends on what the leaves before them have made of the board. Still
they are executed in a fixed order, from left to right, and nothing happens but what they do.

* `Node.IsCourse` — which places of a tree are visited in a tick, and what follows from that: who is
  executed, on which board, with which answer, and in which order;
* `Node.perform_executed` — what the visited nodes do themselves, one after another, is the whole
  tick;
* `Node.existsUnique_isCourse` — the visits are the course of the tick, and it has no other.

Each rule about a place is a rule about the children of one node, carried down by induction on the
place. Only the composition goes the other way, from the children up, along the walk.
-/

namespace Skirmish.Tree

/-- An outcome whose result does not matter, except for a fault. -/
def Outcome.done {β ρ α : Type} (o : Outcome β ρ α) : Outcome β ρ Unit :=
  ⟨o.board, o.trail, o.result.map fun _ => ()⟩

namespace Node

variable {β ν : Type} [Host β]

/-- **What a node does itself,** given its result. A leaf does all of its act, a label reports its
status unless there is none, and all other nodes leave everything to their children. -/
def own (dt : Float32) (result : Except Fault Status) : Node β ν → Act β (Record ν) Unit
  | condition test => discard (test.mapTrail .noted)
  | action run => discard ((run dt).mapTrail .noted)
  | labeled label _ =>
    match result with
    | .ok status => report label status
    | .error _ => pure ()
  | sequence _ => pure ()
  | selector _ => pure ()
  | inverter _ => pure ()

end Node

variable {β ν : Type} [Host β]

/-- What some executed nodes do themselves, one after another. -/
def perform (dt : Float32) (visits : List (Visit β ν)) : Act β (Record ν) Unit :=
  forM visits fun v => v.node.own dt v.outcome.result

namespace Node

/-- **The course of a tick,** given by the visit at every place where there was one. -/
structure IsCourse (dt : Float32) (root : Node β ν) (b : β)
    (visit : List Nat → Option (Visit β ν)) : Prop where
  /-- The root is executed, and what comes of it is the tick. -/
  whole : visit [] = some ⟨root, b, (root.tick dt).run b⟩
  /-- A child is executed exactly if its parent is, and if all children in front of it were and
  answered what lets their parent go on. -/
  child : ∀ place i, (visit (place ++ [i])).isSome = true ↔
    ∃ parent, visit place = some parent ∧ i < parent.node.offspring.length ∧
      ∀ j < i, ∃ v s, visit (place ++ [j]) = some v ∧ v.outcome.result = .ok s ∧
        parent.node.passing? = some s
  /-- A visit is to the node at its place. -/
  located : ∀ place v, visit place = some v → at? place root = some v.node
  /-- No place is forgotten in the order below. -/
  listed : ∀ place v, visit place = some v → place ∈ root.places
  /-- A first child finds its parent's board. -/
  first : ∀ place parent v, visit place = some parent → visit (place ++ [0]) = some v →
    v.before = parent.before
  /-- Any other child finds the board that its elder sibling left. -/
  next : ∀ place i elder v, visit (place ++ [i]) = some elder → visit (place ++ [i + 1]) = some v →
    v.before = elder.outcome.board
  /-- What comes of a visit is the node's tick on the board it found. -/
  ticked : ∀ place v, visit place = some v → v.outcome = (v.node.tick dt).run v.before
  /-- A composite without children has the status that lets composites of its kind go on. -/
  empty : ∀ place v s, visit place = some v → v.node.offspring = [] → v.node.passing? = some s →
    v.outcome.result = .ok s
  /-- Any other node has its result from the last child executed. -/
  last : ∀ place i parent v, visit place = some parent → visit (place ++ [i]) = some v →
    visit (place ++ [i + 1]) = none → parent.outcome.result =
      v.outcome.result.map parent.node.answer
  /-- Leaves are executed from left to right. -/
  ordered : (root.places.filter fun place => (visit place).any (·.node.isLeaf)).Pairwise (· < ·)
  /-- The tick is what the executed nodes do themselves, one after another. -/
  composed : (perform dt (root.places.filterMap visit)).run b = ((root.tick dt).run b).done

variable {dt : Float32} {children : List (Node β ν)} {b : β} {i : Nat} {child : Node β ν}
  {status : Status}

/-! ### Composition -/

theorem run_perform_append (visits others : List (Visit β ν)) (b : β) :
    (perform dt (visits ++ others)).run b =
      (do perform dt visits; perform dt others : Act β (Record ν) Unit).run b := by
  rw [perform, List.forM_append]
  rfl

theorem perform_singleton (v : Visit β ν) :
    perform dt [v] = v.node.own dt v.outcome.result := by
  rw [perform, List.forM_cons, List.forM_nil, bind_pure_unit]

theorem map_snd_walk_child (child : Node β ν) (b : β) (i : Nat) :
    ((child.walk dt b).map fun v => (i :: v.1, v.2)).map Prod.snd =
      child.places.filterMap (visit? dt · child b) := by
  rw [List.map_map, ← map_snd_walk]
  rfl

/-- **What the visits below some children do is what the children do in turn,** if it is so for each
child. -/
theorem run_perform_from
    (ih : ∀ child ∈ children, ∀ b,
      (perform dt (child.places.filterMap (visit? dt · child b))).run b =
        ((child.tick dt).run b).done) :
    (perform dt ((walkFrom dt (some status) i children b).map Prod.snd)).run b =
      ((tickWhile dt status children).run b).done := by
  -- the numbers of the children do not matter, but the walk mentions them
  induction children generalizing i b with
  | nil => rfl
  | cons child rest ihrest =>
    have hrun := ih child List.mem_cons_self b
    by_cases hpass : ((child.tick dt).run b).result = .ok status
    · -- the child lets its parent go on: what is below it is done first, and the others continue on
      -- its board
      have hothers := ihrest (fun c hc => ih c (List.mem_cons_of_mem child hc))
        (i := i + 1) (b := ((child.tick dt).run b).board)
      -- its visits do what its tick does, so they end well too
      have hdone : (perform dt (child.places.filterMap (visit? dt · child b))).run b =
          ⟨((child.tick dt).run b).board, ((child.tick dt).run b).trail, .ok ()⟩ := by
        rw [hrun, Outcome.done, hpass]
        rfl
      rw [walkFrom_cons_of_passing hpass, List.map_append, map_snd_walk_child, run_perform_append,
        Act.run_bind_of_ok hdone, hothers, tickWhile_cons_of_passing hpass]
      rfl
    · -- no child behind this one is reached, so nothing is left to do
      rw [walkFrom_cons_of_ne fun s hs => Option.some.inj hs ▸ hpass, map_snd_walk_child, hrun,
        tickWhile_cons_of_ne hpass]

theorem perform_executed (node : Node β ν) (b : β) :
    (perform dt (node.places.filterMap (visit? dt · node b))).run b =
      ((node.tick dt).run b).done := by
  -- from the children up, for every board: a node is ticked on the board that its elder sibling
  -- left
  induction node using of_offspring generalizing b with
  | h node ih =>
    rw [← map_snd_walk]
    -- what the nodes below do comes first, then what the node does itself; below a leaf there is
    -- nothing
    cases node with
    | condition test =>
      rw [walk_of_isLeaf rfl, List.map_singleton, perform_singleton, own, tick, Act.run_map,
        Act.run_discard]
      rcases ((test.mapTrail Record.noted).run b).result with fault | answer <;> rfl
    | action run =>
      rw [walk_of_isLeaf rfl, List.map_singleton, perform_singleton, own, tick, Act.run_discard]
      rfl
    | sequence children | selector children =>
      rw [walk_eq, List.map_append, run_perform_append, List.map_singleton, perform_singleton, own,
        bind_pure_unit, tick_of_passing? rfl]
      exact run_perform_from ih
    | inverter child =>
      -- the child's answer is turned round, which leaves board and trail as they are
      rw [walk_inverter, List.map_append, map_snd_walk_child, run_perform_append,
        List.map_singleton, perform_singleton, own, bind_pure_unit, ih child List.mem_cons_self,
        tick, Act.run_map]
      rcases (child.tick dt).run b with ⟨b', trail, fault | s⟩ <;> rfl
    | labeled label child =>
      -- a label reports what its child answered, and nothing if that ended with a fault
      have hchild := ih child List.mem_cons_self b
      rw [walk_labeled, List.map_append, map_snd_walk_child, run_perform_append, List.map_singleton,
        perform_singleton]
      rcases hrun : (child.tick dt).run b with ⟨b', trail, fault | s⟩
      · rw [hrun] at hchild
        rw [Act.run_bind_of_error hchild, tick_labeled_of_error hrun]
        rfl
      · rw [hrun] at hchild
        rw [Act.run_bind_of_ok hchild, tick_labeled_of_ok hrun]
        rfl

/-! ### The course -/

/-- **The visits found from the root are the course of the tick.** -/
theorem tick_isCourse (dt : Float32) (root : Node β ν) (b : β) :
    root.IsCourse dt b (visit? dt · root b) where
  whole := rfl
  -- a child is reached from the visit above it, by passing all elder siblings
  child place i := by
    rw [visit?_append, Option.isSome_bind, Option.any_eq_true]
    refine exists_congr fun parent => and_congr_right fun hparent => ?_
    rw [Option.isSome_map, isSome_reached?_iff]
    refine and_congr_right fun _ => forall_congr' fun j => imp_congr_right fun _ => ?_
    -- the elder siblings that are reached are those visited
    rw [visit?_append, hparent, Option.bind_some]
    refine ⟨?_, ?_⟩
    · rintro ⟨c, s, hc, hresult, hpass⟩
      exact ⟨_, s, by rw [hc, Option.map_some], hresult, hpass⟩
    · rintro ⟨v, s, hv, hresult, hpass⟩
      obtain ⟨c, hc, rfl⟩ := Option.map_eq_some_iff.mp hv
      exact ⟨c, s, hc, hresult, hpass⟩
  located place v h := located_of_visit? h
  listed place v h := mem_places_iff.mpr (Option.isSome_iff_exists.mpr ⟨_, located_of_visit? h⟩)
  -- the eldest child finds its parent's board, and any other one what its elder sibling left
  first place parent v hparent hv := by
    rw [visit?_append, hparent] at hv
    obtain ⟨c, hc, rfl⟩ := Option.map_eq_some_iff.mp hv
    exact before_of_reached?_zero hc
  next place i elder v helder hv := by
    rw [visit?_append] at helder hv
    obtain ⟨parent, hparent, helder⟩ := Option.bind_eq_some_iff.mp helder
    rw [hparent] at hv
    obtain ⟨c, hc, rfl⟩ := Option.map_eq_some_iff.mp helder
    obtain ⟨c', hc', rfl⟩ := Option.map_eq_some_iff.mp hv
    exact before_of_reached?_succ hc hc'
  ticked place v h := ticked_of_visit? h
  -- a composite without children answers at once, and any other node like the last child executed
  empty place v s hv hnone hpass := by
    rw [ticked_of_visit? hv, tick_of_passing? hpass, hnone]
    rfl
  last place i parent v hparent hv hlast := by
    rw [visit?_append, hparent] at hv hlast
    obtain ⟨c, hc, rfl⟩ := Option.map_eq_some_iff.mp hv
    rw [ticked_of_visit? hparent]
    exact result_of_last hc (Option.map_eq_none_iff.mp hlast)
  ordered := by
    have hleaf : ∀ place, (visit? dt place root b).any (·.node.isLeaf) = true →
        root.isLeafAt place = true := by
      intro place h
      obtain ⟨v, hv, hv'⟩ := (Option.any_eq_true _ _).mp h
      rw [isLeafAt, located_of_visit? hv]
      exact hv'
    -- the leaves executed are some of all leaves
    have hsome := (leaves_increase root).filter fun place =>
      (visit? dt place root b).any (·.node.isLeaf)
    rw [List.filter_filter] at hsome
    refine List.filter_congr ?_ ▸ hsome
    intro place _
    exact Bool.eq_iff_iff.mpr (by simpa using hleaf place)
  composed := perform_executed root b

/-- **A tick has one course only.** The rules about places alone determine every visit. -/
theorem IsCourse.unique {root : Node β ν} {visit visit' : List Nat → Option (Visit β ν)}
    (h : root.IsCourse dt b visit) (h' : root.IsCourse dt b visit') : visit = visit' := by
  funext place
  -- a visit depends on the one above it and, on the same level, on those before it
  induction place using List.reverseRecOn with
  | nil => rw [h.whole, h'.whole]
  | append_singleton place i ih =>
    induction i using Nat.strongRecOn with
    | ind i ihi =>
      have hsome : (visit (place ++ [i])).isSome = (visit' (place ++ [i])).isSome := by
        refine Bool.eq_iff_iff.mpr ?_
        rw [h.child, h'.child, ih]
        refine exists_congr fun parent => and_congr_right fun _ => and_congr_right fun _ => ?_
        refine forall_congr' fun j => forall_congr' fun hj => ?_
        rw [ihi j hj]
      cases hv : visit (place ++ [i]) with
      | none =>
        rw [hv] at hsome
        exact (Option.isNone_iff_eq_none.mp (Option.isSome_eq_false_iff.mp hsome.symm)).symm
      | some v =>
        rw [hv] at hsome
        obtain ⟨v', hv'⟩ := Option.isSome_iff_exists.mp hsome.symm
        obtain ⟨parent, hparent, -, helder⟩ :=
          (h.child place i).mp (Option.isSome_iff_exists.mpr ⟨v, hv⟩)
        have hnode : v.node = v'.node :=
          Option.some.inj ((h.located _ v hv).symm.trans (h'.located _ v' hv'))
        -- the board comes from the parent or from the elder sibling, which are the same in both
        have hbefore : v.before = v'.before := by
          cases i with
          | zero =>
            rw [h.first place parent v hparent hv, h'.first place parent v' (ih ▸ hparent) hv']
          | succ i =>
            obtain ⟨e, -, he, -⟩ := helder i (Nat.lt_succ_self i)
            rw [h.next place i e v he hv,
              h'.next place i e v' ((ihi i (Nat.lt_succ_self i)).symm.trans he) hv']
        have houtcome : v.outcome = v'.outcome := by
          rw [h.ticked _ v hv, h'.ticked _ v' hv', hnode, hbefore]
        rw [hv', Option.some.injEq, Visit.mk.injEq]
        exact ⟨hnode, hbefore, houtcome⟩

/-- **Every tick has a course, and only one.** -/
theorem existsUnique_isCourse (dt : Float32) (root : Node β ν) (b : β) :
    ∃! visit, root.IsCourse dt b visit :=
  ⟨_, tick_isCourse dt root b, fun _ h => h.unique (tick_isCourse dt root b)⟩

end Node

end Skirmish.Tree

/-! ## What leaves decide

Composites and inverters never touch the board, labels only report to it, and none of them makes
anything of the frame's duration. So what becomes of the board is up to the leaves and to the way in
which it takes reports in.

* `Node.IsLeafOf` — the leaves of a tree;
* `Act.IsCongruence` — relations that acts put together inherit from their parts;
* `Node.tick_rule` — if such a relation holds of every leaf's ticks, it holds of the tree's;
* `Node.tick_congr` — if no leaf tells two durations apart, the tree does not either;
* `Host.Spares` — reports that leave something on the board alone;
* `Node.keeps_tick` — what every leaf and every report leaves alone, the tree leaves alone;
* `Node.commutes_tick` — if every leaf and every report does the same on a changed board, the tree
  does too.

The last three are cases of the rule, and they hold for ticks that end with a fault too: what was
done up to there was done by leaves.
-/

namespace Skirmish.Tree

variable {β ρ σ ν α γ δ : Type}

/-- **Reports that leave something on the board alone.** -/
def Host.Spares [Host β] (f : β → δ) : Prop :=
  ∀ (label status : String) (b : β), f (Host.emit label status b) = f b

/-- **Relations between acts** that hold of acts put together if they hold of the parts. -/
structure Act.IsCongruence (R : ∀ {α : Type}, Act β ρ α → Act β ρ α → Prop) : Prop where
  /-- To do nothing is related to itself. -/
  pure {α : Type} (a : α) : R (pure a) (pure a)
  /-- One act after another is related to what is related to them, one after the other. -/
  bind {α γ : Type} {act act' : Act β ρ α} {next next' : α → Act β ρ γ} (h : R act act')
    (hnext : ∀ a, R (next a) (next' a)) : R (act >>= next) (act' >>= next')

/-- **Acts that leave something on the board alone,** however they end. -/
def Act.Keeps (f : β → δ) (act : Act β ρ α) : Prop :=
  ∀ b, f (act.run b).board = f b

namespace Act

variable {f : β → δ}

theorem keeps_pure (a : α) : (pure a : Act β ρ α).Keeps f := fun _ => rfl

theorem Keeps.bind {act : Act β ρ α} {next : α → Act β ρ γ} (h : act.Keeps f)
    (hnext : ∀ a, (next a).Keeps f) : (act >>= next).Keeps f := by
  intro b
  rw [run_bind]
  -- a fault ends both at the board of the first act
  cases (act.run b).result with
  | error fault => exact h b
  | ok a => exact (hnext a _).trans (h b)

theorem Keeps.map {act : Act β ρ α} (g : α → γ) (h : act.Keeps f) : (g <$> act).Keeps f := by
  intro b
  rw [run_map]
  exact h b

end Act

/-- The outcome with its board changed. -/
def Outcome.mapBoard (f : β → β) (o : Outcome β ρ α) : Outcome β ρ α :=
  ⟨f o.board, o.trail, o.result⟩

/-- **An act that does on changed boards what another does:** it makes the same records and comes to
the same end, and the board it leaves is changed in the same way. -/
def Act.Mirrors (f : β → β) (act act' : Act β ρ α) : Prop :=
  ∀ b, act'.run (f b) = (act.run b).mapBoard f

/-- **Acts that do the same** on changed boards. -/
abbrev Act.Commutes (f : β → β) (act : Act β ρ α) : Prop :=
  act.Mirrors f act

namespace Act

variable {f : β → β}

theorem commutes_pure (a : α) : (pure a : Act β ρ α).Commutes f := fun _ => rfl

theorem Mirrors.bind {act act' : Act β ρ α} {next next' : α → Act β ρ γ} (h : act.Mirrors f act')
    (hnext : ∀ a, (next a).Mirrors f (next' a)) : (act >>= next).Mirrors f (act' >>= next') := by
  intro b
  rw [run_bind, run_bind, h b]
  -- the first act ends alike on both boards, so either both go on or neither does
  rcases act.run b with ⟨b', trail, fault | a⟩
  · rfl
  · change Outcome.mk ((next' a).run (f b')).board (trail ++ ((next' a).run (f b')).trail)
      ((next' a).run (f b')).result = _
    rw [hnext a b']
    rfl

theorem Mirrors.map {act act' : Act β ρ α} (g : α → γ) (h : act.Mirrors f act') :
    (g <$> act).Mirrors f (g <$> act') := by
  intro b
  rw [run_map, run_map, h b]
  rfl

theorem Mirrors.mapTrail {act act' : Act β ρ α} (g : ρ → σ) (h : act.Mirrors f act') :
    (act.mapTrail g).Mirrors f (act'.mapTrail g) := by
  intro b
  rw [run_mapTrail, run_mapTrail, h b]
  rfl

theorem commutes_get_bind {next : β → Act β ρ α}
    (h : ∀ b, (next (f b)).run (f b) = ((next b).run b).mapBoard f) :
    ((get : Act β ρ β) >>= next).Commutes f := by
  intro b
  rw [run_bind_of_ok (run_get _), run_bind_of_ok (run_get _), h b]
  rfl

end Act

namespace Node

/-- **The leaves of a tree.** -/
inductive IsLeafOf (leaf : Node β ν) : Node β ν → Prop
  /-- A leaf is its own. -/
  | self (h : leaf.isLeaf = true) : IsLeafOf leaf leaf
  /-- A node has the leaves of its children. -/
  | child {node child : Node β ν} (hchild : child ∈ node.offspring) (h : IsLeafOf leaf child) :
    IsLeafOf leaf node

section

variable {leaf : Node β ν}

theorem isLeafOf_iff {node : Node β ν} :
    leaf.IsLeafOf node ↔
      (node.isLeaf = true ∧ leaf = node) ∨ ∃ child ∈ node.offspring, leaf.IsLeafOf child := by
  refine ⟨?_, ?_⟩
  · intro h
    cases h with
    | self h => exact .inl ⟨h, rfl⟩
    | child hchild h => exact .inr ⟨_, hchild, h⟩
  · rintro (⟨h, rfl⟩ | ⟨child, hchild, h⟩)
    · exact .self h
    · exact .child hchild h

@[simp] theorem isLeafOf_condition (test : Act β ν Bool) :
    leaf.IsLeafOf (condition test) ↔ leaf = condition test := by
  rw [isLeafOf_iff]
  simp [isLeaf, offspring]

@[simp] theorem isLeafOf_action (run : Float32 → Act β ν Status) :
    leaf.IsLeafOf (action run) ↔ leaf = action run := by
  rw [isLeafOf_iff]
  simp [isLeaf, offspring]

@[simp] theorem isLeafOf_sequence (children : List (Node β ν)) :
    leaf.IsLeafOf (sequence children) ↔ ∃ child ∈ children, leaf.IsLeafOf child := by
  rw [isLeafOf_iff]
  simp [isLeaf, offspring]

@[simp] theorem isLeafOf_selector (children : List (Node β ν)) :
    leaf.IsLeafOf (selector children) ↔ ∃ child ∈ children, leaf.IsLeafOf child := by
  rw [isLeafOf_iff]
  simp [isLeaf, offspring]

@[simp] theorem isLeafOf_labeled (label : String) (child : Node β ν) :
    leaf.IsLeafOf (labeled label child) ↔ leaf.IsLeafOf child := by
  rw [isLeafOf_iff]
  simp [isLeaf, offspring]

end

variable [Host β] {dt dt' : Float32} {root : Node β ν} {f : β → δ}

/-! ### Ticks from leaves -/

section Rule

variable {R : ∀ {α : Type}, Act β (Record ν) α → Act β (Record ν) α → Prop}

theorem tickWhile_rule (hR : Act.IsCongruence R) (passing : Status) {children : List (Node β ν)}
    (h : ∀ child ∈ children, R (child.tick dt) (child.tick dt')) :
    R (tickWhile dt passing children) (tickWhile dt' passing children) := by
  -- the status decides whether to go on, and it is the same bound variable on both sides
  induction children with
  | nil => exact hR.pure _
  | cons child rest ih =>
    rw [tickWhile, tickWhile]
    refine hR.bind (h child List.mem_cons_self) ?_
    intro status
    split
    · exact ih fun c hc => h c (List.mem_cons_of_mem child hc)
    · exact hR.pure _

/-- **The rule for trees.** A congruence that relates reports to themselves, and the tick of each
leaf to the leaf's tick of another duration, relates the ticks of the tree. -/
theorem tick_rule (dt dt' : Float32) (hR : Act.IsCongruence R)
    (hreport : ∀ label status, R (report label status) (report label status))
    (h : ∀ leaf, IsLeafOf leaf root → R (leaf.tick dt) (leaf.tick dt')) :
    R (root.tick dt) (root.tick dt') := by
  induction root using of_offspring with
  | h node ih =>
    -- a leaf of a child is a leaf of the node, so the hypothesis is handed down
    have hbelow : ∀ child ∈ node.offspring, R (child.tick dt) (child.tick dt') :=
      fun child hchild => ih child hchild fun leaf hleaf => h leaf (.child hchild hleaf)
    cases node with
    | condition test => exact h _ (.self rfl)
    | action run => exact h _ (.self rfl)
    | sequence children | selector children =>
      rw [tick_of_passing? rfl, tick_of_passing? rfl]
      exact tickWhile_rule hR _ hbelow
    | inverter child =>
      -- a map is a bind with a pure act behind it, which the congruence covers
      rw [tick, tick, ← bind_pure_comp, ← bind_pure_comp]
      exact hR.bind (hbelow child List.mem_cons_self) fun _ => hR.pure _
    | labeled label child =>
      rw [tick, tick]
      refine hR.bind (hbelow child List.mem_cons_self) ?_
      intro status
      exact hR.bind (hreport label status) fun _ => hR.pure _

end Rule

theorem tick_congr (h : ∀ leaf, IsLeafOf leaf root → leaf.tick dt = leaf.tick dt') :
    root.tick dt = root.tick dt' := by
  refine tick_rule (R := Eq) dt dt' ⟨fun _ => rfl, ?_⟩ (fun _ _ => rfl) h
  -- equality is a congruence
  intro α γ act act' next next' hact hnext
  rw [hact, funext hnext]

theorem keeps_tick (hspares : Host.Spares f)
    (h : ∀ leaf, IsLeafOf leaf root → (leaf.tick dt).Keeps f) : (root.tick dt).Keeps f :=
  tick_rule (R := fun act _ => act.Keeps f) dt dt ⟨Act.keeps_pure, Act.Keeps.bind⟩
    (fun label status b => hspares label status.text b) h

/-- **If every leaf does the same on a changed board,** the tree does, as long as the change does
not show in reports and makes no difference to how they are taken in. -/
theorem commutes_tick {f : β → β} (hagent : ∀ b, Host.agent (f b) = Host.agent b)
    (hstep : ∀ b, Host.step (f b) = Host.step b)
    (hemit : ∀ label status b, Host.emit label status (f b) = f (Host.emit label status b))
    (h : ∀ leaf, IsLeafOf leaf root → (leaf.tick dt).Commutes f) : (root.tick dt).Commutes f := by
  refine tick_rule (R := Act.Mirrors f) dt dt ⟨Act.commutes_pure, Act.Mirrors.bind⟩ ?_ h
  -- a report tells the agent and the step, and then it is the board's turn
  intro label status b
  change Outcome.mk (Host.emit label status.text (f b))
    [Record.ticked label (Host.agent (f b)) (Host.step (f b)) status] (.ok ()) = _
  rw [hagent, hstep, hemit]
  rfl

end Node

end Skirmish.Tree
