import Skirmish.Proofs.Tree.Ticking
import Skirmish.Tree

/-!
# Places and visits

Which nodes of a tree there are, and which of them a tick executes:

* `Node.places_done` — the places of a tree in the order in which nodes are done;
* `Node.walk` — the visits of a tick in that order.
-/

/-! ## Places in a tree

An occurrence of a node in a tree is named by its place: the numbers of the children that lead to it
from the root. One subtree that occurs several times has several places.

* `Node.offspring` — the children of any node, with an induction over them (`Node.of_offspring`);
* `Node.at?` — the node at a place;
* `Node.places` — all places, those of a node's children from left to right and then its own;
* `Node.mem_places_iff` — these are the places that lead to a node;
* `Node.places_done` — they come in the order in which nodes are done (`Node.DoneBefore`): the left
  before the right, and what is below before what is above;
* `Node.leaves_increase` — among them the places of leaves increase in the order of words, in which
  the first number that differs decides. That is the order in which a walk from left to right meets
  them.
-/

namespace Skirmish.Tree.Node

variable {β ν : Type}

/-- The nodes right below a node. -/
def offspring : Node β ν → List (Node β ν)
  | condition _ => []
  | action _ => []
  | sequence children => children
  | selector children => children
  | inverter child => [child]
  | labeled _ child => [child]

theorem sizeOf_lt_of_mem_offspring {child node : Node β ν} (h : child ∈ node.offspring) :
    sizeOf child < sizeOf node := by
  cases node with
  | condition | action => exact absurd h List.not_mem_nil
  | sequence children | selector children =>
    -- the two composites hold their children in a list, so the size goes down in two steps
    have hlt : sizeOf child < sizeOf children := List.sizeOf_lt_of_mem h
    simp only [sequence.sizeOf_spec, selector.sizeOf_spec]
    omega
  | inverter child | labeled _ child =>
    rw [List.mem_singleton.mp h]
    simp only [inverter.sizeOf_spec, labeled.sizeOf_spec]
    omega

/-- **Induction over a tree:** what holds of a node if it holds of its children holds of all nodes.
-/
theorem of_offspring {P : Node β ν → Prop}
    (h : ∀ node : Node β ν, (∀ child ∈ node.offspring, P child) → P node) (node : Node β ν) :
    P node :=
  h node fun child _ => of_offspring h child
termination_by node
decreasing_by exact sizeOf_lt_of_mem_offspring ‹_›

/-- Whether a node is a leaf. A composite without children is none. -/
def isLeaf : Node β ν → Bool
  | condition _ => true
  | action _ => true
  | _ => false

/-- **The node at a place.** -/
def at? : List Nat → Node β ν → Option (Node β ν)
  | [], node => some node
  | i :: place, node => node.offspring[i]?.bind (at? place)

mutual

/-- **The places in a tree,** in the order in which a walk from left to right is done with them. -/
def places : Node β ν → List (List Nat)
  | condition _ => [[]]
  | action _ => [[]]
  | sequence children => placesFrom 0 children ++ [[]]
  | selector children => placesFrom 0 children ++ [[]]
  | inverter child => child.places.map (0 :: ·) ++ [[]]
  | labeled _ child => child.places.map (0 :: ·) ++ [[]]

/-- The places in some trees that are children numbered from `i` on. -/
def placesFrom : Nat → List (Node β ν) → List (List Nat)
  | _, [] => []
  | i, child :: rest => child.places.map (i :: ·) ++ placesFrom (i + 1) rest

end

theorem places_eq (node : Node β ν) : node.places = placesFrom 0 node.offspring ++ [[]] := by
  cases node <;> simp [places, placesFrom, offspring]

theorem offspring_of_isLeaf {node : Node β ν} (h : node.isLeaf = true) : node.offspring = [] := by
  cases node with
  | condition | action => rfl
  | sequence | selector | inverter | labeled => cases h

/-! ### All places -/

theorem mem_placesFrom_iff {children : List (Node β ν)} {i : Nat} {place : List Nat} :
    place ∈ placesFrom i children ↔
      ∃ k rest, place = (i + k) :: rest ∧ ∃ child, children[k]? = some child ∧
        rest ∈ child.places := by
  -- the induction moves the number of the first child on, so it is for all numbers at once
  induction children generalizing i with
  | nil => simp [placesFrom]
  | cons first others ih =>
    rw [placesFrom, List.mem_append, List.mem_map, ih]
    refine ⟨?_, ?_⟩
    · rintro (⟨rest, hrest, rfl⟩ | ⟨k, rest, rfl, child, hchild, hrest⟩)
      · exact ⟨0, rest, rfl, first, rfl, hrest⟩
      · exact ⟨k + 1, rest, by rw [Nat.add_assoc, Nat.add_comm 1], child, hchild, hrest⟩
    · rintro ⟨k, rest, rfl, child, hchild, hrest⟩
      -- the first child has the number in front, and any other one is a child of the tail
      cases k with
      | zero =>
        obtain rfl : first = child := Option.some.inj hchild
        exact .inl ⟨rest, hrest, rfl⟩
      | succ k =>
        exact .inr ⟨k, rest, by rw [Nat.add_assoc, Nat.add_comm 1], child, hchild, hrest⟩

theorem mem_places_iff {place : List Nat} {node : Node β ν} :
    place ∈ node.places ↔ (at? place node).isSome = true := by
  -- down the place: its first number picks a child, the rest is a place in that child
  induction place generalizing node with
  | nil => simp [places_eq, at?]
  | cons i rest ih =>
    rw [places_eq, List.mem_append, mem_placesFrom_iff, at?]
    refine ⟨?_, ?_⟩
    · rintro (⟨k, rest', heq, child, hchild, hrest⟩ | hnil)
      · obtain ⟨rfl, rfl⟩ := List.cons.inj heq
        rw [Nat.zero_add, hchild]
        exact ih.mp hrest
      · -- the node's own place is empty, and this one is not
        exact absurd (List.mem_singleton.mp hnil) (List.cons_ne_nil i rest)
    · intro h
      cases hchild : node.offspring[i]? with
      | none =>
        rw [hchild] at h
        cases h
      | some child =>
        rw [hchild] at h
        exact .inl ⟨i, rest, by rw [Nat.zero_add], child, hchild, ih.mpr h⟩

/-! ### The order of places -/

/-- **The order in which nodes are done:** a node after all that are below it, and after all that
are left of it or of a node above it. -/
def DoneBefore (place later : List Nat) : Prop :=
  ∃ above,
    (∃ i below, place = above ++ i :: below ∧ later = above) ∨
    ∃ i j below below', i < j ∧ place = above ++ i :: below ∧ later = above ++ j :: below'

theorem DoneBefore.cons {place later : List Nat} (i : Nat) (h : DoneBefore place later) :
    DoneBefore (i :: place) (i :: later) := by
  -- the way up to where the two places part becomes one longer
  obtain ⟨above, ⟨k, below, rfl, rfl⟩ | ⟨k, j, below, below', hlt, rfl, rfl⟩⟩ := h
  · exact ⟨i :: later, .inl ⟨k, below, rfl, rfl⟩⟩
  · exact ⟨i :: above, .inr ⟨k, j, below, below', hlt, rfl, rfl⟩⟩

theorem doneBefore_nil (i : Nat) (below : List Nat) : DoneBefore (i :: below) [] :=
  ⟨[], .inl ⟨i, below, rfl, rfl⟩⟩

theorem doneBefore_of_lt {i j : Nat} (h : i < j) (below below' : List Nat) :
    DoneBefore (i :: below) (j :: below') :=
  ⟨[], .inr ⟨i, j, below, below', h, rfl, rfl⟩⟩

theorem placesFrom_done {children : List (Node β ν)}
    (h : ∀ child ∈ children, child.places.Pairwise DoneBefore) (i : Nat) :
    (placesFrom i children).Pairwise DoneBefore := by
  induction children generalizing i with
  | nil => exact List.Pairwise.nil
  | cons child rest ih =>
    rw [placesFrom]
    refine List.pairwise_append.mpr ⟨?_, ?_, ?_⟩
    · -- a number in front does not change the order
      exact List.pairwise_map.mpr ((h child List.mem_cons_self).imp (DoneBefore.cons i))
    · exact ih (fun c hc => h c (List.mem_cons_of_mem child hc)) (i + 1)
    · -- the first child's number is less than all others
      intro place hplace later hlater
      obtain ⟨below, -, rfl⟩ := List.mem_map.mp hplace
      obtain ⟨k, below', rfl, -⟩ := mem_placesFrom_iff.mp hlater
      exact doneBefore_of_lt (by omega) below below'

/-- **The places of a tree are in the order in which its nodes are done.** So none is there twice.
-/
theorem places_done (node : Node β ν) : node.places.Pairwise DoneBefore := by
  induction node using of_offspring with
  | h node ih =>
    rw [places_eq]
    refine List.pairwise_append.mpr ⟨placesFrom_done ih 0, List.pairwise_singleton _ _, ?_⟩
    -- the node's own place comes last, and everything before it is below the node
    intro place hplace later hlater
    obtain ⟨k, below, rfl, -⟩ := mem_placesFrom_iff.mp hplace
    rw [List.mem_singleton.mp hlater]
    exact doneBefore_nil _ below

/-- The way to a place may be gone in two parts. -/
theorem at?_append (place below : List Nat) (node : Node β ν) :
    at? (place ++ below) node = (at? place node).bind (at? below) := by
  induction place generalizing node with
  | nil => rfl
  | cons i rest ih =>
    rw [List.cons_append, at?, at?, Option.bind_assoc]
    exact congrArg _ (funext ih)

/-- Whether there is a leaf at a place. -/
def isLeafAt (node : Node β ν) (place : List Nat) : Bool :=
  (at? place node).any isLeaf

theorem at?_of_isLeafAt {node : Node β ν} {place : List Nat} (h : node.isLeafAt place = true)
    (i : Nat) (below : List Nat) : at? (place ++ i :: below) node = none := by
  obtain ⟨leaf, hleaf, hisLeaf⟩ := (Option.any_eq_true _ _).mp h
  rw [at?_append, hleaf, Option.bind_some, at?, offspring_of_isLeaf hisLeaf]
  rfl

/-- **The places of leaves increase.** No leaf is below another one, so the one that is done before
is on the left. -/
theorem leaves_increase (node : Node β ν) :
    (node.places.filter node.isLeafAt).Pairwise (· < ·) := by
  refine ((places_done node).filter _).imp_of_mem ?_
  intro place later hplace hlater hdone
  obtain ⟨above, ⟨i, below, rfl, rfl⟩ | ⟨i, j, below, below', hlt, rfl, rfl⟩⟩ := hdone
  · -- below: that would be a place below a leaf, and there is none
    have hnone := at?_of_isLeafAt (List.mem_filter.mp hlater).2 i below
    have hsome := mem_places_iff.mp (List.mem_filter.mp hplace).1
    rw [hnone] at hsome
    cases hsome
  · -- left: the first number that differs is the smaller one
    exact List.append_left_lt (List.Lex.rel hlt)

end Skirmish.Tree.Node

/-! ## The visits of a tick

Which nodes a tick executes depends on what the leaves before them have made of the board. A visit
says that a node was executed, on which board, and what came of it.

* `Visit` — a node that was executed, with the board it found and what came of it;
* `Node.visit?` — the visit at a place, found by going down to it;
* `Node.result_of_last` — a node answers what its last executed child answered;
* `Node.walk` — all visits with their places, in the order in which the nodes were done.

A visit is found from the root by asking at every node on the way whether the child is reached. A
walk is made from the children up (`Node.walk_eq`): the visits below the children that are reached,
and then the node's own.
-/

namespace Skirmish.Tree

/-- **A node that was executed.** -/
structure Visit (β ν : Type) where
  /-- The node. -/
  node : Node β ν
  /-- The board it found. -/
  before : β
  /-- What came of it. -/
  outcome : Outcome β (Record ν) Status

namespace Node

variable {β ν : Type}

/-- The status that lets a composite go on to its next child, and that it has if none is left. -/
def passing? : Node β ν → Option Status
  | sequence _ => some .success
  | selector _ => some .failure
  | _ => none

/-- What a node answers when its last executed child has answered. -/
def answer : Node β ν → Status → Status
  | inverter _ => Status.invert
  | _ => id

variable [Host β]

/-! ### Visits -/

/-- The child with a number and the board that it is ticked on, if the children before it answer
what lets their parent go on. -/
def reached? (dt : Float32) (passing : Option Status) :
    List (Node β ν) → β → Nat → Option (Node β ν × β)
  | [], _, _ => none
  | child :: _, b, 0 => some (child, b)
  | child :: rest, b, i + 1 =>
    match ((child.tick dt).run b).result with
    | .ok status =>
      if passing = some status then reached? dt passing rest ((child.tick dt).run b).board i
        else none
    | .error _ => none

/-- **The visit at a place** below a node that is ticked on a board. -/
def visit? (dt : Float32) : List Nat → Node β ν → β → Option (Visit β ν)
  | [], node, b => some ⟨node, b, (node.tick dt).run b⟩
  | i :: place, node, b =>
    (reached? dt node.passing? node.offspring b i).bind fun c => visit? dt place c.1 c.2

variable {dt : Float32} {passing : Option Status} {children : List (Node β ν)} {b b' b'' : β}
  {c c' : Node β ν} {i : Nat} {node : Node β ν} {status : Status}

theorem getElem?_of_reached? (h : reached? dt passing children b i = some (c, b')) :
    children[i]? = some c := by
  -- the board changes from child to child while the list gets shorter
  induction children generalizing b i with
  | nil => cases h
  | cons child rest ih =>
    cases i with
    | zero =>
      rw [reached?, Option.some.injEq, Prod.mk.injEq] at h
      rw [List.getElem?_cons_zero, h.1]
    | succ i =>
      rw [reached?] at h
      split at h
      · split at h
        · exact ih h
        · cases h
      · cases h

/-- **Who is reached:** a child is, if all before it are and answer what lets their parent go on. -/
theorem isSome_reached?_iff : (reached? dt passing children b i).isSome = true ↔
    i < children.length ∧ ∀ j < i, ∃ c s, reached? dt passing children b j = some c ∧
      ((c.1.tick dt).run c.2).result = .ok s ∧ passing = some s := by
  -- the board that the first child leaves is the one that the others start from
  induction children generalizing b i with
  | nil => simp [reached?]
  | cons child rest ih =>
    cases i with
    | zero => simp [reached?]
    | succ i =>
      rw [reached?, List.length_cons, Nat.succ_lt_succ_iff]
      -- the first child decides, and if it lets the parent go on, the others do
      refine ⟨?_, ?_⟩
      · intro h
        split at h
        · next s hs =>
          split at h
          · next hpass =>
            obtain ⟨hlength, hothers⟩ := ih.mp h
            refine ⟨hlength, ?_⟩
            intro j hj
            cases j with
            | zero => exact ⟨_, s, rfl, hs, hpass⟩
            | succ j =>
              obtain ⟨c, s', hc, hresult, hs'⟩ := hothers j (Nat.lt_of_succ_lt_succ hj)
              refine ⟨c, s', ?_, hresult, hs'⟩
              rw [reached?, hs]
              simp only [if_pos hpass, hc]
          · cases h
        · cases h
      · rintro ⟨hlength, hothers⟩
        obtain ⟨c, s, hc, hresult, hpass⟩ := hothers 0 (Nat.succ_pos i)
        obtain rfl := Option.some.inj hc
        simp only [hresult, if_pos hpass]
        refine ih.mpr ⟨hlength, ?_⟩
        intro j hj
        obtain ⟨c, s', hc, hresult', hs'⟩ := hothers (j + 1) (Nat.succ_lt_succ hj)
        rw [reached?, hresult] at hc
        simp only [if_pos hpass] at hc
        exact ⟨c, s', hc, hresult', hs'⟩

theorem before_of_reached?_zero (h : reached? dt passing children b 0 = some (c, b')) : b' = b := by
  cases children with
  | nil => cases h
  | cons child rest =>
    rw [reached?, Option.some.injEq, Prod.mk.injEq] at h
    exact h.2.symm

theorem before_of_reached?_succ (h : reached? dt passing children b i = some (c, b'))
    (h' : reached? dt passing children b (i + 1) = some (c', b'')) :
    b'' = ((c.tick dt).run b').board := by
  -- both children are looked for in the same list; the younger one is met one step later
  induction children generalizing b i with
  | nil => cases h
  | cons child rest ih =>
    rw [reached?] at h'
    split at h'
    · next s hs =>
      split at h'
      · next hpass =>
        -- either the elder one is the first child, or both are among the others
        cases i with
        | zero =>
          obtain ⟨rfl, rfl⟩ := Prod.mk.inj (Option.some.inj h)
          exact before_of_reached?_zero h'
        | succ i =>
          rw [reached?, hs] at h
          simp only [if_pos hpass] at h
          exact ih h h'
      · cases h'
    · cases h'

/-- **A visit below a visit:** the child is reached on the way down from its parent. -/
theorem visit?_append (place : List Nat) (i : Nat) (node : Node β ν) (b : β) :
    visit? dt (place ++ [i]) node b = (visit? dt place node b).bind fun parent =>
      (reached? dt parent.node.passing? parent.node.offspring parent.before i).map fun c =>
        ⟨c.1, c.2, (c.1.tick dt).run c.2⟩ := by
  -- down the place; at its end the parent is there, and one more step reaches the child
  induction place generalizing node b with
  | nil =>
    rw [List.nil_append, visit?, visit?, Option.bind_some, Option.map_eq_bind]
    rfl
  | cons j rest ih =>
    rw [List.cons_append, visit?, visit?, Option.bind_assoc]
    exact congrArg _ (funext fun c => ih c.1 c.2)

theorem located_of_visit? {place : List Nat} {v : Visit β ν}
    (h : visit? dt place node b = some v) : at? place node = some v.node := by
  -- a child is reached only if it is there, so the way of the visit is also a way in the tree
  induction place generalizing node b with
  | nil =>
    obtain rfl := Option.some.inj h
    rfl
  | cons i rest ih =>
    rw [visit?] at h
    obtain ⟨c, hc, hv⟩ := Option.bind_eq_some_iff.mp h
    rw [at?, getElem?_of_reached? hc]
    exact ih hv

theorem ticked_of_visit? {place : List Nat} {v : Visit β ν}
    (h : visit? dt place node b = some v) : v.outcome = (v.node.tick dt).run v.before := by
  induction place generalizing node b with
  | nil =>
    obtain rfl := Option.some.inj h
    rfl
  | cons i rest ih =>
    rw [visit?] at h
    obtain ⟨c, -, hv⟩ := Option.bind_eq_some_iff.mp h
    exact ih hv

/-! ### Results -/

/-- Children in turn, as long as they answer what lets their parent go on. -/
def tickWhile (dt : Float32) (passing : Status) : List (Node β ν) → Act β (Record ν) Status
  | [] => return passing
  | child :: rest => do
    let status ← child.tick dt
    if status = passing then tickWhile dt passing rest else return status

theorem tickSequence_eq_tickWhile (children : List (Node β ν)) :
    tickSequence dt children = tickWhile dt .success children := by
  induction children with
  | nil => rw [tickSequence, tickWhile]
  | cons child rest ih =>
    rw [tickSequence, tickWhile]
    refine congrArg _ (funext fun status => ?_)
    -- of the three statuses one goes on, in both definitions the same
    cases status <;> simp [ih]

theorem tickSelector_eq_tickWhile (children : List (Node β ν)) :
    tickSelector dt children = tickWhile dt .failure children := by
  induction children with
  | nil => rw [tickSelector, tickWhile]
  | cons child rest ih =>
    rw [tickSelector, tickWhile]
    refine congrArg _ (funext fun status => ?_)
    cases status <;> simp [ih]

/-- **Both composites are one thing,** up to the status that lets them go on. -/
theorem tick_of_passing? (h : node.passing? = some status) :
    node.tick dt = tickWhile dt status node.offspring := by
  -- only the two composites have a status that lets them go on
  cases node with
  | sequence children =>
    obtain rfl := Option.some.inj h
    rw [tick, offspring, tickSequence_eq_tickWhile]
  | selector children =>
    obtain rfl := Option.some.inj h
    rw [tick, offspring, tickSelector_eq_tickWhile]
  | condition | action | inverter | labeled => cases h

variable {child : Node β ν} {rest : List (Node β ν)}

theorem tickWhile_cons_of_passing (h : ((child.tick dt).run b).result = .ok status) :
    (tickWhile dt status (child :: rest)).run b =
      ((tickWhile dt status rest).run ((child.tick dt).run b).board).after
        ((child.tick dt).run b).trail := by
  rcases hrun : (child.tick dt).run b with ⟨b', trail, result⟩
  rw [hrun] at h
  obtain rfl : result = .ok status := h
  rw [tickWhile, Act.run_bind_of_ok hrun, if_pos rfl]

/-- **Any other child settles the composite.** -/
theorem tickWhile_cons_of_ne (h : ((child.tick dt).run b).result ≠ .ok status) :
    (tickWhile dt status (child :: rest)).run b = (child.tick dt).run b := by
  rcases hrun : (child.tick dt).run b with ⟨b', trail, fault | s⟩
  · rw [tickWhile, Act.run_bind_of_error hrun]
  · -- the child has answered, but not what lets its parent go on
    have hs : s ≠ status := fun heq => h (by rw [hrun, heq])
    rw [tickWhile, Act.run_bind_of_ok hrun, if_neg hs, Act.run_pure, Outcome.after_mk,
      List.append_nil]

theorem reached?_cons_succ (h : ((child.tick dt).run b).result = .ok status) :
    reached? dt (some status) (child :: rest) b (i + 1) =
      reached? dt (some status) rest ((child.tick dt).run b).board i := by
  rw [reached?, h]
  exact if_pos rfl

theorem reached?_cons_succ_of_ne (h : ∀ s, passing = some s → ((child.tick dt).run b).result ≠
    .ok s) :
    reached? dt passing (child :: rest) b (i + 1) = none := by
  rw [reached?]
  split
  · next s hs => exact if_neg fun hpass => h s hpass hs
  · rfl

/-- **A composite's result is that of the last child executed.** -/
theorem result_tickWhile (h : reached? dt (some status) children b i = some (c, b'))
    (hlast : reached? dt (some status) children b (i + 1) = none) :
    ((tickWhile dt status children).run b).result = ((c.tick dt).run b').result := by
  -- the last child executed may be this one or one behind it, and the first answer tells which
  induction children generalizing b i with
  | nil => cases h
  | cons child rest ih =>
    by_cases hpass : ((child.tick dt).run b).result = .ok status
    · -- the child passes, so the result is that of the others, if there are any
      rw [reached?_cons_succ hpass] at hlast
      rw [tickWhile_cons_of_passing hpass]
      cases i with
      | zero =>
        obtain ⟨rfl, rfl⟩ := Prod.mk.inj (Option.some.inj h)
        cases rest with
        | nil => exact hpass.symm
        | cons => cases hlast
      | succ i =>
        rw [reached?_cons_succ hpass] at h
        exact ih h hlast
    · -- the child settles the composite, so it is itself the last one
      rw [tickWhile_cons_of_ne hpass]
      cases i with
      | zero =>
        obtain ⟨rfl, rfl⟩ := Prod.mk.inj (Option.some.inj h)
        rfl
      | succ i =>
        rw [reached?_cons_succ_of_ne fun s hs => Option.some.inj hs ▸ hpass] at h
        cases h

theorem result_of_last (h : reached? dt node.passing? node.offspring b i = some (c, b'))
    (hlast : reached? dt node.passing? node.offspring b (i + 1) = none) :
    ((node.tick dt).run b).result = ((c.tick dt).run b').result.map node.answer := by
  cases node with
  | condition | action => cases h
  | sequence children | selector children =>
    rw [tick_of_passing? rfl, result_tickWhile h hlast]
    rcases ((c.tick dt).run b').result with _ | s <;> rfl
  | inverter child =>
    -- there is only one child, so it is the last executed
    cases i with
    | zero =>
      obtain ⟨rfl, rfl⟩ := Prod.mk.inj (Option.some.inj h)
      rw [tick, Act.run_map]
      rfl
    | succ i => exact absurd (getElem?_of_reached? h) (by simp [offspring])
  | labeled label child =>
    cases i with
    | zero =>
      obtain ⟨rfl, rfl⟩ := Prod.mk.inj (Option.some.inj h)
      rcases hrun : (child.tick dt).run b with ⟨b', trail, fault | s⟩
      · rw [tick_labeled_of_error hrun]
        rfl
      · rw [tick_labeled_of_ok hrun]
        rfl
    | succ i => exact absurd (getElem?_of_reached? h) (by simp [offspring])

/-! ### Walks -/

/-- **All visits of a tick with their places,** in the order in which the nodes were done. -/
def walk (dt : Float32) (node : Node β ν) (b : β) : List (List Nat × Visit β ν) :=
  node.places.filterMap fun place => (visit? dt place node b).map (place, ·)

/-- The visits in some children that are numbered from `i` on, up to the first that does not let
their parent go on. -/
def walkFrom (dt : Float32) (passing : Option Status) :
    Nat → List (Node β ν) → β → List (List Nat × Visit β ν)
  | _, [], _ => []
  | i, child :: rest, b =>
    (child.walk dt b).map (fun v => (i :: v.1, v.2)) ++
      match ((child.tick dt).run b).result with
      | .ok status =>
        if passing = some status then
          walkFrom dt passing (i + 1) rest ((child.tick dt).run b).board
        else []
      | .error _ => []

theorem walkFrom_cons_of_passing (h : ((child.tick dt).run b).result = .ok status) :
    walkFrom dt (some status) i (child :: rest) b =
      (child.walk dt b).map (fun v => (i :: v.1, v.2)) ++
        walkFrom dt (some status) (i + 1) rest ((child.tick dt).run b).board := by
  rw [walkFrom, h]
  simp only [if_true]

theorem walkFrom_cons_of_ne (h : ∀ s, passing = some s → ((child.tick dt).run b).result ≠ .ok s) :
    walkFrom dt passing i (child :: rest) b =
      (child.walk dt b).map fun v => (i :: v.1, v.2) := by
  rw [walkFrom]
  refine (congrArg _ ?_).trans (List.append_nil _)
  split
  · next s hs => exact if_neg fun hpass => h s hpass hs
  · rfl

theorem walkFrom_only (child : Node β ν) (i : Nat) (b : β) :
    walkFrom dt none i [child] b = (child.walk dt b).map fun v => (i :: v.1, v.2) :=
  walkFrom_cons_of_ne nofun

/-- A child lets its parent go on to the next one, or it settles the parent. -/
theorem goes_on_or_settles (dt : Float32) (passing : Option Status) (child : Node β ν) (b : β) :
    (∃ s, passing = some s ∧ ((child.tick dt).run b).result = .ok s) ∨
      ∀ s, passing = some s → ((child.tick dt).run b).result ≠ .ok s := by
  by_cases h : ∃ s, passing = some s ∧ ((child.tick dt).run b).result = .ok s
  · exact .inl h
  · exact .inr fun s hs hresult => h ⟨s, hs, hresult⟩

/-- What is found at the places in some children, if it is found by reaching the child first. -/
theorem filterMap_placesFrom (visit : List Nat → Option (List Nat × Visit β ν))
    (hvisit : ∀ k place, visit ((i + k) :: place) =
      (reached? dt passing children b k).bind fun c =>
        (visit? dt place c.1 c.2).map ((i + k) :: place, ·)) :
    (placesFrom i children).filterMap visit = walkFrom dt passing i children b := by
  -- child by child: those that are reached give their walks, and behind the first that settles the
  -- parent nothing is found
  induction children generalizing i b with
  | nil => rfl
  | cons child rest ih =>
    -- the first child is reached in any case
    have hfirst : (child.places.map (i :: ·)).filterMap visit =
        (child.walk dt b).map fun v => (i :: v.1, v.2) := by
      rw [walk, List.filterMap_map, List.map_filterMap]
      refine congrArg (List.filterMap · _) (funext fun place => ?_)
      refine (hvisit 0 place).trans ?_
      rw [reached?, Option.bind_some, Option.map_map]
      rfl
    rw [placesFrom, List.filterMap_append, hfirst]
    obtain ⟨s, rfl, hresult⟩ | hne := goes_on_or_settles dt passing child b
    · -- the others are reached from the board that this child left, under numbers that are one
      -- higher
      rw [walkFrom_cons_of_passing hresult]
      refine congrArg _ (ih ?_)
      intro k place
      rw [Nat.add_assoc, Nat.add_comm 1, hvisit, reached?_cons_succ hresult]
    · -- no child behind this one is reached
      have hnone : (placesFrom (i + 1) rest).filterMap visit = [] := by
        refine List.filterMap_eq_nil_iff.mpr ?_
        intro place hplace
        obtain ⟨k, below, rfl, -⟩ := mem_placesFrom_iff.mp hplace
        rw [Nat.add_assoc, Nat.add_comm 1, hvisit, reached?_cons_succ_of_ne hne]
        rfl
      rw [hnone, List.append_nil, walkFrom_cons_of_ne hne]

/-- **A walk goes through the children that are reached,** and then comes to the node itself. -/
theorem walk_eq (dt : Float32) (node : Node β ν) (b : β) :
    node.walk dt b =
      walkFrom dt node.passing? 0 node.offspring b ++ [([], ⟨node, b, (node.tick dt).run b⟩)] := by
  rw [walk, places_eq, List.filterMap_append]
  -- below the root a visit is found through the child; the root's own place is the last one
  refine congrArg (· ++ _) (filterMap_placesFrom _ ?_)
  intro k place
  rw [Nat.zero_add, visit?, Option.map_bind]
  rfl

theorem walk_of_isLeaf (h : node.isLeaf = true) (b : β) :
    node.walk dt b = [([], ⟨node, b, (node.tick dt).run b⟩)] := by
  rw [walk_eq, offspring_of_isLeaf h]
  rfl

theorem walk_inverter (child : Node β ν) (b : β) :
    (inverter child).walk dt b = (child.walk dt b).map (fun v => (0 :: v.1, v.2)) ++
      [([], ⟨inverter child, b, ((inverter child).tick dt).run b⟩)] := by
  rw [walk_eq]
  exact congrArg (· ++ _) (walkFrom_only child 0 b)

theorem walk_labeled (label : String) (child : Node β ν) (b : β) :
    (labeled label child).walk dt b = (child.walk dt b).map (fun v => (0 :: v.1, v.2)) ++
      [([], ⟨labeled label child, b, ((labeled label child).tick dt).run b⟩)] := by
  rw [walk_eq]
  exact congrArg (· ++ _) (walkFrom_only child 0 b)

theorem walk_done (dt : Float32) (node : Node β ν) (b : β) :
    (node.walk dt b).Pairwise fun v later => DoneBefore v.1 later.1 := by
  -- a walk leaves places out, and adds none
  refine List.pairwise_filterMap.mpr ((places_done node).imp ?_)
  intro place later hdone v hv w hw
  obtain ⟨-, -, rfl⟩ := Option.map_eq_some_iff.mp hv
  obtain ⟨-, -, rfl⟩ := Option.map_eq_some_iff.mp hw
  exact hdone

theorem map_snd_walk (dt : Float32) (node : Node β ν) (b : β) :
    (node.walk dt b).map Prod.snd = node.places.filterMap (visit? dt · node b) := by
  rw [walk, List.map_filterMap]
  refine congrArg (List.filterMap · _) (funext fun place => ?_)
  rw [Option.map_map]
  exact Option.map_id'

/-- **A walk meets exactly the visits.** -/
theorem mem_walk_iff {place : List Nat} {v : Visit β ν} :
    (place, v) ∈ node.walk dt b ↔ visit? dt place node b = some v := by
  rw [walk, List.mem_filterMap]
  refine ⟨?_, ?_⟩
  · rintro ⟨place', -, h⟩
    obtain ⟨v', hv, heq⟩ := Option.map_eq_some_iff.mp h
    obtain ⟨rfl, rfl⟩ := Prod.mk.inj heq
    exact hv
  · intro h
    -- a visit is to a node of the tree, so its place is among those gone through
    have hplace : place ∈ node.places :=
      mem_places_iff.mpr (Option.isSome_iff_exists.mpr ⟨_, located_of_visit? h⟩)
    exact ⟨place, hplace, by rw [h, Option.map_some]⟩

end Node

end Skirmish.Tree
