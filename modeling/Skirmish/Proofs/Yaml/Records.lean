import Mathlib
import Skirmish.Proofs.Records
import Skirmish.Proofs.Yaml.Scalars
import Skirmish.Yaml.Source

/-!
# Reading records

What reading costs, and that a record is the same with a type and without one:

* `Reading.Costs` — an act with its answer and its price;
* `Node.IsRecord.agrees_fields` — the fields of a record, either way.
-/

/-! ## What reading a document costs

To follow an alias costs one of those that may still be followed, and nothing else costs anything.
So an act of reading has an answer and a price, and it gives the answer whenever the price can be
paid.

* `Reading.Costs` — an act with its answer and its price;
* `Reading.Costs.bind` and `Reading.Costs.mapM` — prices add up;
* `Reading.Agrees` — an act and another one that has the same answer without reading anything;
* `Node.target?` and `Node.toll` — what an alias stands for and what following it costs;
* `Node.named?` — the entries of a mapping by name;
* `Content.of?` and `Content.toll` — the content of a node, and the aliases in it.
-/

namespace Skirmish.Yaml

variable {α β γ : Type} {d : Document}

/-! ### Acts of reading -/

namespace Reading

/-- **An act with its answer and its price.** It gives the answer if the price can be paid, and
refuses the document otherwise. -/
def Costs (d : Document) (act : Reading α) (answer : Option α) (price : ℕ) : Prop :=
  ∀ left, act d left = if price ≤ left then answer.map (·, left - price) else none

theorem costs_pure (a : α) : Costs d (pure a) (some a) 0 := by
  intro left
  rw [if_pos left.zero_le]
  rfl

theorem costs_ofOption (answer : Option α) : Costs d (ofOption answer) answer 0 := by
  intro left
  rw [if_pos left.zero_le]
  cases answer with
  | none => rfl
  | some a => rfl

theorem costs_refuse (price : ℕ) : Costs d (refuse : Reading α) none price := by
  intro left
  rw [Option.map_none, ite_self]
  rfl

theorem Costs.bind {act : Reading α} {next : α → Reading β} {answer : Option α}
    {answer' : α → Option β} {price price' : ℕ} (h : Costs d act answer price)
    (hnext : ∀ a, answer = some a → Costs d (next a) (answer' a) price') :
    Costs d (act >>= next) (answer.bind answer') (price + price') := by
  intro left
  change (act d left).bind (fun (a, left) => next a d left) = _
  rw [h left]
  -- what the first act leaves is what the second one has to pay with
  by_cases hprice : price ≤ left
  · rw [if_pos hprice]
    cases answer with
    | none => simp
    | some a =>
      change next a d (left - price) = _
      rw [hnext a rfl, Nat.sub_sub, Option.bind_some]
      exact if_congr (by omega) rfl rfl
  · rw [if_neg hprice, if_neg (by omega)]
    rfl

theorem Costs.map {act : Reading α} {answer : Option α} {price : ℕ} (h : Costs d act answer price)
    (f : α → β) : Costs d (do return f (← act)) (answer.map f) price := by
  rw [← Nat.add_zero price, Option.map_eq_bind]
  exact h.bind fun a _ => costs_pure (f a)

theorem Costs.bind_some {act : Reading α} {next : α → Reading β} {a : α} {answer : Option β}
    {price price' : ℕ} (h : Costs d act (some a) price) (hnext : Costs d (next a) answer price') :
    Costs d (act >>= next) answer (price + price') :=
  h.bind fun _ hsame => Option.some.inj hsame ▸ hnext

theorem Costs.bind_none {act : Reading α} {price : ℕ} (h : Costs d act none price)
    (next : α → Reading β) : Costs d (act >>= next) none price := by
  have hrefused : Costs d (act >>= next) ((none : Option α).bind fun _ => none) (price + 0) :=
    h.bind (by simp)
  exact hrefused

theorem Costs.mapM {act : α → Reading β} {answer : α → Option β} {price : α → ℕ} {items : List α}
    (h : ∀ a ∈ items, Costs d (act a) (answer a) (price a)) :
    Costs d (items.mapM act) (items.mapM answer) (items.map price).sum := by
  -- on the row; the price of the rest is known before its answer is
  induction items with
  | nil => exact costs_pure []
  | cons a items ih =>
    obtain ⟨ha, hitems⟩ := List.forall_mem_cons.mp h
    rw [List.mapM_cons, List.mapM_cons, List.map_cons, List.sum_cons, Option.bind_eq_bind]
    refine ha.bind fun b _ => ?_
    have hrest := (ih hitems).map (b :: ·)
    rw [Option.map_eq_bind] at hrest
    exact hrest

theorem Costs.run? {act : Reading α} {answer : Option α} {price : ℕ} (h : Costs d act answer price)
    (hprice : price ≤ 100 * d.root.extent) : act.run? d = answer := by
  change (act d _).map (·.1) = _
  rw [h, if_pos hprice, Option.map_map]
  exact Option.map_id'

theorem Costs.run?_eq_none {act : Reading α} {price : ℕ} (h : Costs d act none price) :
    act.run? d = none := by
  change (act d _).map (·.1) = _
  rw [h, Option.map_none, ite_self]
  rfl

theorem Costs.of_run? {act : Reading α} {answer : Option α} {price : ℕ}
    (h : Costs d act answer price) {a : α} (hrun : act.run? d = some a) :
    answer = some a ∧ price ≤ 100 * d.root.extent := by
  change (act d _).map (·.1) = some a at hrun
  rw [h] at hrun
  split at hrun
  · next hprice =>
    rw [Option.map_map] at hrun
    exact ⟨(Option.map_id'.symm.trans hrun), hprice⟩
  · cases hrun

/-! ### Two ways to read the same -/

/-- **Two acts that agree:** the first has an answer at a bounded price, and the second has the same
answer without reading anything. -/
def Agrees (d : Document) (act act' : Reading α) (most : ℕ) : Prop :=
  ∃ answer price, price ≤ most ∧ Costs d act answer price ∧ act' = ofOption answer

theorem agrees_pure (a : α) : Agrees d (pure a) (pure a) 0 :=
  ⟨some a, 0, le_rfl, costs_pure a, rfl⟩

theorem Agrees.mono {act act' : Reading α} {most most' : ℕ} (h : Agrees d act act' most)
    (hle : most ≤ most') : Agrees d act act' most' := by
  obtain ⟨answer, price, hprice, hcosts, hact⟩ := h
  exact ⟨answer, price, hprice.trans hle, hcosts, hact⟩

/-- **Acts after acts** agree if the second one's are told what becomes of the first one's answer.
-/
theorem Costs.agrees_bind {act : Reading α} {next : α → Reading β} {next' : γ → Reading β}
    {answer : Option α} {price most : ℕ} (h : Costs d act answer price) (f : α → γ)
    (hnext : ∀ a, answer = some a → Agrees d (next a) (next' (f a)) most) :
    Agrees d (act >>= next) (ofOption (answer.map f) >>= next') (price + most) := by
  -- a refusal ends both acts, and nothing more is paid
  cases answer with
  | none => exact ⟨none, price, by omega, h.bind_none next, rfl⟩
  | some a =>
    obtain ⟨answer', price', hprice', hcosts', hact⟩ := hnext a rfl
    exact ⟨answer', price + price', by omega, h.bind_some hcosts', hact⟩

theorem Agrees.bind {act act' : Reading α} {next next' : α → Reading β} {most most' : ℕ}
    (h : Agrees d act act' most) (hnext : ∀ a, Agrees d (next a) (next' a) most') :
    Agrees d (act >>= next) (act' >>= next') (most + most') := by
  obtain ⟨answer, price, hprice, hcosts, rfl⟩ := h
  have hall := hcosts.agrees_bind id fun a _ => hnext a
  rw [Option.map_id] at hall
  exact hall.mono (by omega)

end Reading

/-! ### Names -/

namespace Node

/-- What a node stands for, which is itself unless it is an alias. -/
def target? (d : Document) : Node → Option Node
  | .alias anchor => d.anchored.lookup anchor
  | node => some node

/-- What it costs to follow a node. -/
def toll : Node → ℕ
  | .alias _ => 1
  | _ => 0

theorem costs_follow (node : Node) :
    Reading.Costs d (Reading.follow node) (node.target? d) node.toll := by
  intro left
  -- only an alias looks at what is left
  match node, left with
  | .alias anchor, 0 => rfl
  | .alias anchor, left + 1 => rfl
  | .scalar s, left => rfl
  | .sequence tag items, left => rfl
  | .mapping tag entries, left => rfl

/-- The name that a node is: the text of the scalar that it stands for. -/
def name? (d : Document) (node : Node) : Option String :=
  (node.target? d).bind fun
    | .scalar s => some s.text
    | _ => none

theorem costs_name (node : Node) : Reading.Costs d node.name (node.name? d) node.toll := by
  unfold name name?
  rw [← Nat.add_zero node.toll]
  refine (costs_follow node).bind fun target _ => ?_
  -- a collection has no name, and an alias does not stand for another alias
  cases target with
  | scalar s => exact Reading.costs_pure _
  | sequence _ _ | mapping _ _ | «alias» _ => exact Reading.costs_refuse 0

/-- The entries of the mapping that a node stands for. -/
def entries (d : Document) (node : Node) : List (Node × Node) :=
  match node.target? d with
  | some (.mapping _ entries) => entries
  | _ => []

/-- What it costs to find the names of the entries. -/
def tollOfNames (d : Document) (node : Node) : ℕ :=
  node.toll + ((node.entries d).map fun e => e.1.toll).sum

/-- Entries with their names. -/
def label? (d : Document) (entries : List (Node × Node)) : Option (List (String × Node)) :=
  entries.mapM fun e => (e.1.name? d).map (·, e.2)

/-- Whether a node is a mapping by name: a mapping, or nothing written. -/
def named? (d : Document) (node : Node) : Option (List (String × Node)) :=
  (node.target? d).bind fun
    | .mapping _ entries => label? d entries
    | .scalar s => if s.style = .plain && s.text.isEmpty then some [] else none
    | _ => none

theorem costs_named (node : Node) :
    Reading.Costs d node.named (node.named? d) (node.tollOfNames d) := by
  unfold named named? tollOfNames entries
  refine (costs_follow node).bind fun target htarget => ?_
  rw [htarget]
  cases target with
  | mapping _ entries =>
    exact Reading.Costs.mapM fun e _ => (costs_name e.1).map (·, e.2)
  | scalar s =>
    -- nothing written has no entries
    change Reading.Costs d (if _ then _ else _) (if _ then _ else _) 0
    split
    · exact Reading.costs_pure []
    · exact Reading.costs_refuse 0
  | sequence _ _ | «alias» _ => exact Reading.costs_refuse _

end Node

/-! ### Contents -/

namespace Content

/-- **What a node stands for,** if its collections are nested at most so deep and any number of
aliases may be followed. -/
def of? (d : Document) : ℕ → Node → Option Content
  | depth, node =>
    (node.target? d).bind fun
      | .scalar s => ofScalar? s
      | .alias _ => none
      | .sequence tag items =>
        match depth with
        | 0 => none
        | depth + 1 => if refusesTag tag then none else (items.mapM (of? d depth)).map sequence
      | .mapping tag entries =>
        match depth with
        | 0 => none
        | depth + 1 =>
          if refusesTag tag then none
          else
            (entries.mapM fun e : Node × Node =>
              (of? d depth e.1).bind fun key => (of? d depth e.2).map (key, ·)).map mapping

/-- How many aliases are followed to read a node whose collections are nested at most so deep. -/
def toll (d : Document) : ℕ → Node → ℕ
  | 0, node => node.toll
  | depth + 1, node =>
    node.toll +
      match node.target? d with
      | some (.sequence _ items) => (items.map (toll d depth)).sum
      | some (.mapping _ entries) => (entries.map fun e => toll d depth e.1 + toll d depth e.2).sum
      | _ => 0

/-- **Reading without a type** gives the content at the price of its aliases. -/
theorem costs_read (depth : ℕ) (node : Node) :
    Reading.Costs d (read depth node) (of? d depth node) (toll d depth node) := by
  -- on how deep collections may be nested
  induction depth generalizing node with
  | zero =>
    unfold read of? toll
    rw [← Nat.add_zero node.toll]
    refine (Node.costs_follow node).bind fun target _ => ?_
    cases target with
    | scalar s => exact Reading.costs_ofOption _
    | sequence _ _ | mapping _ _ | «alias» _ => exact Reading.costs_refuse 0
  | succ depth ih =>
    unfold read of? toll
    refine (Node.costs_follow node).bind fun target htarget => ?_
    rw [htarget]
    cases target with
    | scalar s => exact Reading.costs_ofOption _
    | «alias» _ => exact Reading.costs_refuse 0
    | sequence tag items =>
      simp only
      split
      · exact Reading.costs_refuse _
      · -- the items one by one, each as deep as is left
        exact (Reading.Costs.mapM fun item _ => ih item).map sequence
    | mapping tag entries =>
      simp only
      split
      · exact Reading.costs_refuse _
      · exact (Reading.Costs.mapM fun e _ => (ih e.1).bind fun key _ =>
          (ih e.2).map (key, ·)).map mapping

def pair? (d : Document) (depth : ℕ) (e : Node × Node) : Option (Content × Content) :=
  (of? d depth e.1).bind fun key => (of? d depth e.2).map (key, ·)

/-- **A node with a content** is a scalar, a sequence or a mapping, and so is its content. -/
theorem of?_cases {depth : ℕ} {node : Node} {content : Content}
    (h : of? d depth node = some content) :
    (∃ s, node.target? d = some (.scalar s) ∧ ofScalar? s = some content) ∨
      (∃ tag items values, node.target? d = some (.sequence tag items) ∧
        content = .sequence values) ∨
      ∃ tag entries depth' values, node.target? d = some (.mapping tag entries) ∧
        depth = depth' + 1 ∧ entries.mapM (pair? d depth') = some values ∧
        content = .mapping values := by
  unfold of? at h
  obtain ⟨target, htarget, h⟩ := Option.bind_eq_some_iff.mp h
  -- by what the node stands for; a collection needs a level of its own
  cases target with
  | scalar s => exact .inl ⟨s, htarget, h⟩
  | «alias» anchor => cases h
  | sequence tag items =>
    cases depth with
    | zero => cases h
    | succ depth =>
      change (if _ then none else _) = _ at h
      split at h
      · cases h
      · obtain ⟨values, -, rfl⟩ := Option.map_eq_some_iff.mp h
        exact .inr (.inl ⟨tag, items, values, htarget, rfl⟩)
  | mapping tag entries =>
    cases depth with
    | zero => cases h
    | succ depth =>
      change (if _ then none else _) = _ at h
      split at h
      · cases h
      · obtain ⟨values, hvalues, rfl⟩ := Option.map_eq_some_iff.mp h
        exact .inr (.inr ⟨tag, entries, depth, values, htarget, rfl, hvalues, rfl⟩)

theorem toll_eq_of_mapping {node : Node} {tag : Option Tag} {entries : List (Node × Node)}
    (depth : ℕ) (h : node.target? d = some (.mapping tag entries)) :
    toll d (depth + 1) node =
      node.toll + (entries.map fun e => toll d depth e.1 + toll d depth e.2).sum := by
  rw [toll, h]

theorem toll_le (depth : ℕ) (node : Node) : node.toll ≤ toll d depth node := by
  cases depth with
  | zero => exact le_rfl
  | succ depth => exact Nat.le_add_right _ _

end Content

end Skirmish.Yaml

/-! ## Records with and without a type

A record that is met where one is expected is read by the names of its entries. Without a type every
value in it is read, and the names are looked up afterwards.

* `Node.IsRecord` — mappings with texts for names, and what is no record at all;
* `Node.IsRecord.fields?_eq` — its fields are the same either way;
* `Node.IsRecord.agrees_fields` — and they cost no more than the whole of it;
* `Node.IsRecord.forall₂_fields` — each of them is of the kind that goes with its name;
* `Node.IsNumber.agrees_single` — a number is the same either way.
-/

namespace Skirmish.Yaml

open Content (of?)

variable {d : Document} {depth : ℕ} {node : Node} {content : Content} {names : List String}

/-- **A number, or no scalar at all.** -/
def Node.IsNumber (d : Document) (node : Node) : Prop :=
  ∀ s, node.target? d = some (.scalar s) → s.IsOrdinary

/-- **A record, or something that is none:** a mapping with texts for names and with values of the
right kind, and neither a sequence nor nothing at all. -/
structure Node.IsRecord (d : Document) (kind : String → Node → Prop) (node : Node) : Prop where
  /-- The names are texts. -/
  texts : ∀ e ∈ node.entries d, ∀ s, e.1.target? d = some (.scalar s) →
    ∃ text, Content.ofScalar? s = some (.text text)
  /-- The values are of the kind that goes with the name. -/
  kinds : ∀ e ∈ node.entries d, ∀ name, e.1.name? d = some name → kind name e.2
  /-- There are names. -/
  noSequence : ∀ tag items, node.target? d ≠ some (.sequence tag items)
  /-- Something is written. -/
  written : ∀ s, node.target? d = some (.scalar s) → (s.style = .plain && s.text.isEmpty) = false

/-! ### Numbers -/

def Node.number : Node → Reading Float32
  | .scalar s =>
    if mayBe "float" s then return Numeric.narrow (← Reading.ofOption (real? s.text.toList))
    else Reading.refuse
  | _ => Reading.refuse

theorem Node.single_eq (node : Node) : Source.single node = Reading.follow node >>= Node.number :=
    rfl

theorem Node.IsNumber.agrees_single (h : node.IsNumber d)
    (hcontent : of? d depth node = some content) :
    Reading.Agrees d (Source.single node) (Source.single content) node.toll := by
  refine ⟨content.single?, node.toll, le_rfl, ?_, rfl⟩
  rw [Node.single_eq, ← Nat.add_zero node.toll]
  have hfollow := Node.costs_follow node (d := d)
  obtain ⟨s, htarget, hs⟩ | ⟨tag, items, values, htarget, rfl⟩ |
    ⟨tag, entries, _, values, htarget, -, -, rfl⟩ := Content.of?_cases hcontent
  · rw [htarget] at hfollow
    refine hfollow.bind_some ?_
    rw [(h s htarget).single?_ofScalar? hs, Node.number]
    split
    · exact (Reading.costs_ofOption _).map Numeric.narrow
    · exact Reading.costs_refuse 0
  · -- a collection is no number
    rw [htarget] at hfollow
    exact hfollow.bind_some (Reading.costs_refuse 0)
  · rw [htarget] at hfollow
    exact hfollow.bind_some (Reading.costs_refuse 0)

/-! ### Fields -/

def Content.orNull (d : Document) (depth : ℕ) (node : Node) : Content :=
  (of? d depth node).getD .null

theorem orNull_eq (h : of? d depth node = some content) :
    Content.orNull d depth node = content := by
  rw [Content.orNull, h, Option.getD_some]

/-- **A name is the same** with a type and without. -/
theorem name?_eq
    (htext : ∀ s, node.target? d = some (.scalar s) →
      ∃ text, Content.ofScalar? s = some (.text text))
    (hcontent : of? d depth node = some content) :
    content.name? names = (node.name? d).map some := by
  unfold Node.name?
  obtain ⟨s, htarget, hs⟩ | ⟨tag, items, values, htarget, rfl⟩ |
    ⟨tag, entries, _, values, htarget, -, -, rfl⟩ := Content.of?_cases hcontent
  · obtain ⟨text, htext⟩ := htext s htarget
    -- a text is its own name, as it is not read as anything else
    obtain rfl := Option.some.inj (htext.symm.trans hs)
    have hsame : text = s.text := isAtom_ofScalar? htext
    rw [htarget, hsame]
    rfl
  · -- a collection is no name
    rw [htarget]
    rfl
  · rw [htarget]
    rfl

theorem mapM_name?_eq {entries : List (Node × Node)} {values : List (Content × Content)}
    (htexts : ∀ e ∈ entries, ∀ s, e.1.target? d = some (.scalar s) →
      ∃ text, Content.ofScalar? s = some (.text text))
    (hvalues : entries.mapM (Content.pair? d depth) = some values) :
    (values.mapM fun e => return (← Content.name? names e.1, e.2)) =
      (Node.label? d entries).map (List.map fun e => (some e.1, Content.orNull d depth e.2)) := by
  -- on the entries
  induction entries generalizing values with
  | nil =>
    obtain rfl := Option.some.inj hvalues
    rfl
  | cons e entries ih =>
    obtain ⟨htext, htexts⟩ := List.forall_mem_cons.mp htexts
    obtain ⟨value, rest, hvalue, hrest, rfl⟩ := mapM_cons_eq_some hvalues
    obtain ⟨key, hkey, hvalue⟩ := Option.bind_eq_some_iff.mp hvalue
    obtain ⟨content, hcontent, rfl⟩ := Option.map_eq_some_iff.mp hvalue
    have hname : key.name? names = (e.1.name? d).map some := name?_eq htext hkey
    unfold Node.label? at ih ⊢
    rw [List.mapM_cons, List.mapM_cons, ih htexts hrest, hname]
    -- a name that cannot be read spoils the row on both sides
    cases e.1.name? d with
    | none => rfl
    | some name =>
      cases entries.mapM fun e => (e.1.name? d).map (·, e.2) with
      | none => rfl
      | some named =>
        rw [← orNull_eq hcontent]
        rfl

/-- The fields of a record. -/
def Node.fields? (d : Document) (names : List String) (node : Node) : Option (List (Option Node)) :=
  (node.named? d).bind (Record.named? names)

theorem Node.costs_fields (names : List String) (node : Node) :
    Reading.Costs d (Source.fields names node) (node.fields? d names) (node.tollOfNames d) :=
  (Node.costs_named node).bind fun _ _ => Reading.costs_ofOption _

theorem Node.IsRecord.fields?_eq {kind : String → Node → Prop} (h : node.IsRecord d kind)
    (hcontent : of? d (depth + 1) node = some content) :
    content.fields? names =
      (node.fields? d names).map (List.map (Option.map (Content.orNull d depth))) := by
  unfold Node.fields? Node.named?
  obtain ⟨s, htarget, hs⟩ | ⟨tag, items, values, htarget, rfl⟩ |
    ⟨tag, entries, depth', values, htarget, hdepth, hvalues, rfl⟩ := Content.of?_cases hcontent
  · -- a scalar is no record either way
    rw [htarget]
    change _ = Option.map _ (Option.bind (if (s.style = .plain && s.text.isEmpty) then _ else _) _)
    rw [h.written s htarget]
    cases content with
    | mapping _ | sequence _ => exact absurd (isAtom_ofScalar? hs) id
    | _ => rfl
  · -- a sequence could be read by position, but a record is none
    exact absurd htarget (h.noSequence tag items)
  · obtain rfl := Nat.succ.inj hdepth
    have htexts := h.texts
    unfold Node.entries at htexts
    rw [htarget] at htexts ⊢
    change Option.bind (values.mapM fun e => return (← Content.name? names e.1, e.2))
      (Record.named? (names.map some)) = ((Node.label? d entries).bind _).map _
    -- the names are looked up in the same way, and contents only come along
    rw [mapM_name?_eq htexts hvalues]
    cases Node.label? d entries with
    | none => rfl
    | some named => exact Record.named?_map (Option.some_injective _) _ names named

/-! ### What the fields cost -/

theorem of?_of_mem_entries (hcontent : of? d (depth + 1) node = some content) {e : Node × Node}
    (he : e ∈ node.entries d) : of? d depth e.2 = some (Content.orNull d depth e.2) := by
  unfold Node.entries at he
  obtain ⟨s, htarget, -⟩ | ⟨tag, items, values, htarget, -⟩ |
    ⟨tag, entries, depth', values, htarget, hdepth, hvalues, -⟩ := Content.of?_cases hcontent
  · rw [htarget] at he
    cases he
  · rw [htarget] at he
    cases he
  · obtain rfl := Nat.succ.inj hdepth
    rw [htarget] at he
    -- the mapping has a content, so each of its entries has one
    obtain ⟨value, hvalue⟩ := exists_answer_of_mapM hvalues he
    obtain ⟨key, -, hvalue⟩ := Option.bind_eq_some_iff.mp hvalue
    obtain ⟨content, hcontent, -⟩ := Option.map_eq_some_iff.mp hvalue
    rw [orNull_eq hcontent, hcontent]

theorem label?_entries_of_named? {named : List (String × Node)} (h : node.named? d = some named) :
    Node.label? d (node.entries d) = some named := by
  unfold Node.named? at h
  unfold Node.entries
  obtain ⟨target, htarget, h⟩ := Option.bind_eq_some_iff.mp h
  rw [htarget]
  cases target with
  | mapping tag entries => exact h
  | scalar s =>
    -- nothing is written, and there are no entries
    change (if _ then _ else _) = _ at h
    split at h
    · exact h
    · cases h
  | sequence _ _ | «alias» _ => cases h

theorem exists_entry_of_named? {named : List (String × Node)} (h : node.named? d = some named)
    {name : String} {value : Node} (hvalue : (name, value) ∈ named) :
    ∃ e ∈ node.entries d, e.1.name? d = some name ∧ e.2 = value := by
  obtain ⟨e, he, hlabel⟩ := exists_of_mem_mapM (label?_entries_of_named? h) hvalue
  obtain ⟨name', hname, heq⟩ := Option.map_eq_some_iff.mp hlabel
  obtain ⟨rfl, hsame⟩ := Prod.mk.inj heq
  exact ⟨e, he, hname, hsame⟩

/-- **Reading a record** is at least reading its names and its values. -/
theorem le_toll (depth : ℕ) (node : Node) :
    node.tollOfNames d + ((node.entries d).map fun e => Content.toll d depth e.2).sum ≤
      Content.toll d (depth + 1) node := by
  unfold Node.tollOfNames Node.entries
  -- only a mapping has entries to be paid for
  split
  · next tag entries htarget =>
    have hnames : (entries.map fun e => e.1.toll).sum ≤
        (entries.map fun e => Content.toll d depth e.1).sum :=
      List.sum_le_sum fun e _ => Content.toll_le depth e.1
    rw [Content.toll_eq_of_mapping depth htarget, List.sum_map_add]
    omega
  · exact Content.toll_le (depth + 1) node

theorem map_entries_eq {γ : Type} {named : List (String × Node)} (h : node.named? d = some named)
    (f : Node → γ) :
    (node.entries d).map (fun e => f e.2) = named.map fun e => f e.2 := by
  refine map_eq_of_mapM (fun e named hlabel => ?_) (label?_entries_of_named? h)
  obtain ⟨name, -, rfl⟩ := Option.map_eq_some_iff.mp hlabel
  rfl

theorem sum_fields?_le {size : Node → ℕ} {fields : List (Option Node)} (hnames : names.Nodup)
    (h : node.fields? d names = some fields) :
    (fields.map (Record.sizeOf? size)).sum ≤ ((node.entries d).map fun e => size e.2).sum := by
  obtain ⟨named, hnamed, hfields⟩ := Option.bind_eq_some_iff.mp h
  rw [map_entries_eq hnamed]
  exact Record.sum_named?_le size hnames hfields

theorem Node.IsRecord.agrees_fields {β : Type} {kind : String → Node → Prop}
    (h : node.IsRecord d kind) (hcontent : of? d (depth + 1) node = some content)
    (hnames : names.Nodup)
    {next : List (Option Node) → Reading β} {next' : List (Option Content) → Reading β}
    (hnext : ∀ fields, node.fields? d names = some fields →
      Reading.Agrees d (next fields) (next' (fields.map (Option.map (Content.orNull d depth))))
        (fields.map (Record.sizeOf? (Content.toll d depth))).sum) :
    Reading.Agrees d (Source.fields names node >>= next) (Source.fields names content >>= next')
      (Content.toll d (depth + 1) node) := by
  have huntyped : Source.fields names content =
      Reading.ofOption
        ((node.fields? d names).map (List.map (Option.map (Content.orNull d depth)))) := by
    rw [← h.fields?_eq hcontent]
    rfl
  have hvalues : ∀ fields, node.fields? d names = some fields →
      Reading.Agrees d (next fields) (next' (fields.map (Option.map (Content.orNull d depth))))
        ((node.entries d).map fun e => Content.toll d depth e.2).sum :=
    fun fields hfields => (hnext fields hfields).mono (sum_fields?_le hnames hfields)
  -- names are paid for first, and the values that are asked for come out of the rest
  rw [huntyped]
  exact ((node.costs_fields names).agrees_bind _ hvalues).mono (le_toll depth node)

theorem Node.IsRecord.forall₂_fields {kind : String → Node → Prop} {fields : List (Option Node)}
    (h : node.IsRecord d kind) (hcontent : of? d (depth + 1) node = some content)
    (hfields : node.fields? d names = some fields) :
    List.Forall₂ (fun name field => name ∈ names ∧ ∀ value, field = some value →
      kind name value ∧ of? d depth value = some (Content.orNull d depth value)) names fields := by
  obtain ⟨named, hnamed, hfields⟩ := Option.bind_eq_some_iff.mp hfields
  refine (forall₂_of_mapM hfields).imp ?_
  rintro name _ ⟨hname, honly⟩
  refine ⟨hname, ?_⟩
  rintro value rfl
  -- a field holds the value of an entry with its name
  obtain ⟨e, he, hlabel, rfl⟩ := exists_entry_of_named? hnamed (Record.mem_of_only? honly)
  exact ⟨h.kinds e he name hlabel, of?_of_mem_entries hcontent he⟩

end Skirmish.Yaml
