import Mathlib.Logic.Relation
import Skirmish.Proofs.Tree.Labels
import Skirmish.Tree.Puppet

/-!
# Grouping

A composite among the children of a composite of its own kind might as well have its children there
itself: the first of them that settles the one settles the other. So composites associate, and an
empty one is their unit. And a tree cannot tell what its subtrees look like, only what they do.

* `Node.tickWhile_nested` — a composite of the same kind dissolves among its siblings;
* `Node.Context` — a tree with a hole at any depth; each place in a tree is one
  (`Node.exists_fill_of_at?`);
* `Node.tick_fill_rule` — what is put into the hole matters only through what it does;
* `Node.Regrouped` — trees that differ in nothing but how composites are grouped;
* `Node.composites_associate` — such trees do the same.

Everything rests on one law, `Node.tickWhile_append`: a row of children is one part of it after the
other, and the second part is left out where the first one is settled. After it the monad laws are
enough, so the proofs here look at no board. The laws hold of faults and trails too, and of labels,
whatever the board makes of their reports.
-/

namespace Skirmish.Tree

/-- **Acts that do the same** to every board and come to the same end, whatever they report. -/
def Act.Alike {β ρ α : Type} (act act' : Act β ρ α) : Prop :=
  ∀ b, (act.run b).board = (act'.run b).board ∧ (act.run b).result = (act'.run b).result

theorem Act.isCongruence_alike {β ρ : Type} : IsCongruence (@Alike β ρ) where
  pure _ _ := ⟨rfl, rfl⟩
  bind {α γ act act' next next'} h hnext := by
    intro b
    obtain ⟨hboard, hresult⟩ := h b
    rw [run_bind, run_bind]
    revert hboard hresult
    rcases act.run b with ⟨b₁, trail, result⟩
    rcases act'.run b with ⟨b₁', trail', result'⟩
    rintro rfl rfl
    -- equal results are both faults or both values, and equal boards are where the second acts
    -- start
    cases result with
    | error fault => exact ⟨rfl, rfl⟩
    | ok a => exact hnext a b₁

namespace Node

variable {β ν : Type}

/-! ### Contexts -/

/-- **A tree with a hole in it.** -/
inductive Context (β ν : Type) where
  /-- Nothing but the hole. -/
  | hole
  /-- The hole is in a child of a sequence. -/
  | sequence (before : List (Node β ν)) (inner : Context β ν) (behind : List (Node β ν))
  /-- The hole is in a child of a selector. -/
  | selector (before : List (Node β ν)) (inner : Context β ν) (behind : List (Node β ν))
  /-- The hole is below an inverter. -/
  | inverter (inner : Context β ν)
  /-- The hole is below a label. -/
  | labeled (label : String) (inner : Context β ν)

namespace Context

/-- The tree with its hole filled. -/
def fill : Context β ν → Node β ν → Node β ν
  | hole, node => node
  | sequence before inner behind, node => .sequence (before ++ inner.fill node :: behind)
  | selector before inner behind, node => .selector (before ++ inner.fill node :: behind)
  | inverter inner, node => .inverter (inner.fill node)
  | labeled label inner, node => .labeled label (inner.fill node)

/-- The place of the hole. -/
def place : Context β ν → List Nat
  | hole => []
  | sequence before inner _ => before.length :: inner.place
  | selector before inner _ => before.length :: inner.place
  | inverter inner => 0 :: inner.place
  | labeled _ inner => 0 :: inner.place

end Context

theorem at?_fill (ctx : Context β ν) (node : Node β ν) : at? ctx.place (ctx.fill node) =
    some node := by
  induction ctx with
  | hole => rfl
  | sequence before inner behind ih | selector before inner behind ih =>
    -- the siblings in front fill the places up to that of the hole
    rw [Context.fill, Context.place, at?, offspring, List.getElem?_append_right (Nat.le_refl _),
      Nat.sub_self, List.getElem?_cons_zero, Option.bind_some, ih]
  | inverter inner ih | labeled label inner ih => exact ih

theorem exists_siblings {children : List (Node β ν)} {i : Nat} {child : Node β ν}
    (h : children[i]? = some child) :
    ∃ before behind, before.length = i ∧ before ++ child :: behind = children := by
  obtain ⟨hi, rfl⟩ := List.getElem?_eq_some_iff.mp h
  refine ⟨children.take i, children.drop (i + 1), List.length_take_of_le (Nat.le_of_lt hi), ?_⟩
  rw [← List.drop_eq_getElem_cons hi, List.take_append_drop]

/-- **Whatever is at a place in a tree** fills a hole there. -/
theorem exists_fill_of_at? {place : List Nat} {root node : Node β ν}
    (h : at? place root = some node) :
    ∃ ctx : Context β ν, ctx.place = place ∧ ctx.fill node = root := by
  -- down the place, with the tree getting smaller
  induction place generalizing root with
  | nil => exact ⟨.hole, rfl, (Option.some.inj h).symm⟩
  | cons i rest ih =>
    rw [at?] at h
    obtain ⟨child, hchild, hnode⟩ := Option.bind_eq_some_iff.mp h
    -- the hole is in a child, which the rest of the tree is put around
    obtain ⟨ctx, rfl, rfl⟩ := ih hnode
    cases root with
    | condition | action => cases hchild
    | sequence children =>
      obtain ⟨before, behind, rfl, hsplit⟩ := exists_siblings hchild
      obtain rfl : before ++ ctx.fill node :: behind = children := hsplit
      exact ⟨.sequence before ctx behind, rfl, rfl⟩
    | selector children =>
      obtain ⟨before, behind, rfl, hsplit⟩ := exists_siblings hchild
      obtain rfl : before ++ ctx.fill node :: behind = children := hsplit
      exact ⟨.selector before ctx behind, rfl, rfl⟩
    | inverter child =>
      cases i with
      | zero =>
        obtain rfl : child = ctx.fill node := Option.some.inj hchild
        exact ⟨.inverter ctx, rfl, rfl⟩
      | succ i => cases hchild
    | labeled label child =>
      cases i with
      | zero =>
        obtain rfl : child = ctx.fill node := Option.some.inj hchild
        exact ⟨.labeled label ctx, rfl, rfl⟩
      | succ i => cases hchild

variable [Host β] {dt : Float32} {passing : Status}

/-! ### Rows of children -/

/-- **A row of children in two parts.** The second part is left out if the first one is settled. -/
theorem tickWhile_append (children others : List (Node β ν)) :
    tickWhile dt passing (children ++ others) = do
      let status ← tickWhile dt passing children
      if status = passing then tickWhile dt passing others else return status := by
  -- the first part child by child, with the monad laws moving the brackets
  induction children with
  | nil => rw [List.nil_append, tickWhile, pure_bind, if_pos rfl]
  | cons child rest ih =>
    rw [List.cons_append, tickWhile, tickWhile, bind_assoc]
    refine bind_congr fun status => ?_
    by_cases hs : status = passing
    · rw [if_pos hs, if_pos hs, ih]
    · -- the child settles the first part, and with it the whole
      rw [if_neg hs, if_neg hs, pure_bind, if_neg hs]

theorem tickWhile_nested {node : Node β ν} (h : node.passing? = some passing)
    (before behind : List (Node β ν)) :
    tickWhile dt passing (before ++ [node] ++ behind) =
      tickWhile dt passing (before ++ node.offspring ++ behind) := by
  -- what is in front of the node is the same on both sides
  have hnode : tickWhile dt passing ([node] ++ behind) =
      tickWhile dt passing (node.offspring ++ behind) := by
    rw [tickWhile_append node.offspring, ← tick_of_passing? h]
    rfl
  rw [List.append_assoc, List.append_assoc, tickWhile_append, tickWhile_append before, hnode]

theorem tick_sequence_nested (xs ys zs : List (Node β ν)) :
    (sequence (xs ++ [sequence ys] ++ zs)).tick dt = (sequence (xs ++ ys ++ zs)).tick dt := by
  rw [tick_of_passing? rfl, tick_of_passing? rfl]
  exact tickWhile_nested rfl xs zs

theorem tick_selector_nested (xs ys zs : List (Node β ν)) :
    (selector (xs ++ [selector ys] ++ zs)).tick dt = (selector (xs ++ ys ++ zs)).tick dt := by
  rw [tick_of_passing? rfl, tick_of_passing? rfl]
  exact tickWhile_nested rfl xs zs

/-! ### What a context can tell -/

section Rule

variable {R : ∀ {α : Type}, Act β (Record ν) α → Act β (Record ν) α → Prop} {old new : Node β ν}

theorem tickWhile_exchanged (hR : Act.IsCongruence R)
    (hrefl : ∀ {α : Type} (act : Act β (Record ν) α), R act act) (h : R (old.tick dt) (new.tick dt))
    (before behind : List (Node β ν)) :
    R (tickWhile dt passing (before ++ old :: behind))
      (tickWhile dt passing (before ++ new :: behind)) := by
  rw [tickWhile_append, tickWhile_append]
  refine hR.bind (hrefl _) fun status => ?_
  -- what stands in the hole is only ticked if all before it let their parent go on
  split
  · rw [tickWhile, tickWhile]
    exact hR.bind h fun _ => hrefl _
  · exact hrefl _

/-- **A tree cannot tell what fills its hole,** but for what that does. If two fillings do related
things, so do the trees, for any relation that acts put together inherit from their parts. -/
theorem tick_fill_rule (hR : Act.IsCongruence R)
    (hrefl : ∀ {α : Type} (act : Act β (Record ν) α), R act act) (ctx : Context β ν)
    (h : R (old.tick dt) (new.tick dt)) : R ((ctx.fill old).tick dt) ((ctx.fill new).tick dt) := by
  -- from the hole outwards: each layer binds what is in it to acts that are the same on both sides
  induction ctx with
  | hole => exact h
  | sequence before inner behind ih | selector before inner behind ih =>
    rw [Context.fill, Context.fill, tick_of_passing? rfl, tick_of_passing? rfl]
    exact tickWhile_exchanged hR hrefl ih before behind
  | inverter inner ih =>
    rw [Context.fill, Context.fill, tick, tick, ← bind_pure_comp, ← bind_pure_comp]
    exact hR.bind ih fun _ => hrefl _
  | labeled label inner ih =>
    -- related answers are reported alike, so the board takes the same report in
    rw [Context.fill, Context.fill, tick, tick]
    exact hR.bind ih fun _ => hrefl _

end Rule

/-- **Trees that do the same** to every board and answer the same, whatever they report. -/
def Alike (dt : Float32) (old new : Node β ν) : Prop :=
  (old.tick dt).Alike (new.tick dt)

/-! ### Regrouping -/

/-- **A composite of the same kind among the children,** and its own children in its stead. -/
inductive Flattens : Node β ν → Node β ν → Prop
  | sequence (xs ys zs : List (Node β ν)) :
    Flattens (.sequence (xs ++ [.sequence ys] ++ zs)) (.sequence (xs ++ ys ++ zs))
  | selector (xs ys zs : List (Node β ν)) :
    Flattens (.selector (xs ++ [.selector ys] ++ zs)) (.selector (xs ++ ys ++ zs))

/-- **Trees that differ in how composites are grouped:** in any number of composites, at any depth,
one way or the other. -/
def Regrouped : Node β ν → Node β ν → Prop :=
  Relation.EqvGen fun tree tree' =>
    ∃ (ctx : Context β ν) (old new : Node β ν), Flattens old new ∧ ctx.fill old = tree ∧
      ctx.fill new = tree'

theorem Flattens.tick_eq {old new : Node β ν} (h : Flattens old new) :
    old.tick dt = new.tick dt := by
  cases h with
  | sequence xs ys zs => exact tick_sequence_nested xs ys zs
  | selector xs ys zs => exact tick_selector_nested xs ys zs

theorem Regrouped.tick_eq {tree tree' : Node β ν} (h : Regrouped tree tree') :
    tree.tick dt = tree'.tick dt := by
  -- equal ticks are an equivalence, so single regroupings are all there is to look at
  induction h with
  | rel tree tree' h =>
    -- one group is dissolved somewhere in the tree, and the rest of the tree cannot tell
    obtain ⟨ctx, old, new, hflat, rfl, rfl⟩ := h
    refine tick_fill_rule (R := Eq) ⟨fun _ => rfl, ?_⟩ (fun _ => rfl) ctx hflat.tick_eq
    intro α γ act act' next next' hact hnext
    rw [hact, funext hnext]
  | refl tree => rfl
  | symm tree tree' _ ih => exact ih.symm
  | trans tree tree' tree'' _ _ ih ih' => exact ih.trans ih'

/-- **Composites associate,** with the empty ones as units, in any surroundings. A sequence in a
sequence and a selector in a selector dissolve; whatever is at a place in a tree may be exchanged
for anything that does the same; and so may the groups in a tree be formed in any way. -/
theorem composites_associate (dt : Float32) :
    (∀ xs ys zs : List (Node β ν),
      (sequence (xs ++ [sequence ys] ++ zs)).tick dt = (sequence (xs ++ ys ++ zs)).tick dt) ∧
    (∀ xs ys zs : List (Node β ν),
      (selector (xs ++ [selector ys] ++ zs)).tick dt = (selector (xs ++ ys ++ zs)).tick dt) ∧
    (∀ (place : List Nat) (root old new : Node β ν), at? place root = some old → Alike dt old new →
      ∃ ctx : Context β ν, ctx.fill old = root ∧ (∀ node, at? place (ctx.fill node) = some node) ∧
        Alike dt root (ctx.fill new)) ∧
    ∀ tree tree' : Node β ν, Regrouped tree tree' → tree.tick dt = tree'.tick dt := by
  refine ⟨tick_sequence_nested, tick_selector_nested, ?_, fun _ _ h => h.tick_eq⟩
  intro place root old new hplace halike
  -- the place determines the surroundings, which are the same for both fillings
  obtain ⟨ctx, rfl, rfl⟩ := exists_fill_of_at? hplace
  refine ⟨ctx, rfl, at?_fill ctx, ?_⟩
  exact tick_fill_rule Act.isCongruence_alike (fun _ _ => ⟨rfl, rfl⟩) ctx halike

/-- A leaf that is put on record and gives an answer. -/
def answering (name : String) (status : Status) : Node (Agent Puppet) Unit :=
  action fun _ => (Puppet.perform name [status] [] 0).onAgents

/-- A leaf that looks at the trace: whether nothing has been reported yet. -/
def silence : Node (Agent Puppet) Unit :=
  condition do
    let agent ← Act.get
    return agent.sink == some (.own .empty)

/-- A watch with an errand in it: a sequence, turned round, behind something that fails and says so.
-/
def watch (errand : Node (Agent Puppet) Unit) : Node (Agent Puppet) Unit :=
  labeled "watch" (selector
    [labeled "rest" (answering "rest" .failure), inverter errand, answering "call" .success])

/-- Of an errand that stops in an inner sequence, because the trace is not empty any more, the
groups do not matter, nor do they to the watch that it is a part of. -/
theorem composites_associate_watch :
    let grouped : Node (Agent Puppet) Unit := sequence ([answering "go" .success] ++
      [sequence [silence, answering "take" .success]] ++ [answering "return" .success])
    let plain : Node (Agent Puppet) Unit := sequence ([answering "go" .success] ++
      [silence, answering "take" .success] ++ [answering "return" .success])
    let agent : Agent Puppet := ⟨⟨7, 1, [], 3, 0, 0, [], [], []⟩, some (.own .empty)⟩
    at? [0, 1, 0] (watch grouped) = some grouped ∧ Alike 0.5 grouped plain ∧
    (∃ ctx : Context (Agent Puppet) Unit, ctx.fill grouped = watch grouped ∧
      (∀ node, at? [0, 1, 0] (ctx.fill node) = some node) ∧
        Alike 0.5 (watch grouped) (ctx.fill plain)) ∧
    Regrouped (watch plain) (watch grouped) ∧
    (watch plain).tick 0.5 = (watch grouped).tick 0.5 ∧
    (((watch plain).tick 0.5).run agent).board.board.ticked = ["go", "rest"] ∧
    (((watch plain).tick 0.5).run agent).board.sink =
      some (.own ⟨#[⟨7, 3, "rest", "failure"⟩, ⟨7, 3, "watch", "success"⟩]⟩) := by
  intro grouped plain agent
  -- the watch fails at rest, and then its errand stops at the silence that the report has broken
  obtain ⟨hsequence, -, hexchange, hregroup⟩ :=
    composites_associate (β := Agent Puppet) (ν := Unit) 0.5
  have hplace : at? [0, 1, 0] (watch grouped) = some grouped := rfl
  have halike : Alike 0.5 grouped plain := by
    intro puppet
    rw [hsequence]
    exact ⟨rfl, rfl⟩
  have hregrouped : Regrouped (watch plain) (watch grouped) :=
    .symm _ _ (.rel _ _ ⟨.labeled "watch" (.selector [labeled "rest" (answering "rest" .failure)]
      (.inverter .hole) [answering "call" .success]), grouped, plain, .sequence _ _ _, rfl, rfl⟩)
  exact ⟨hplace, halike, hexchange _ _ _ _ hplace halike, hregrouped,
    hregroup _ _ hregrouped, rfl, rfl⟩

end Node

end Skirmish.Tree
