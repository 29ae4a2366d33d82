import Skirmish.Proofs.Yaml.Anchors
import Skirmish.Proofs.Yaml.Records

/-!
# What is written where

A value in a document is found by the names that lead to it. It does not matter where among the
entries of its mapping it stands, nor which other names there are.

* `Document.valuesAt` — the values that some names lead to;
* `Node.IsTable` — mappings in which no name of interest occurs twice;
* `Node.single?` — the number that a node stands for;
* `Reading.Settles` — acts of reading that have an answer exactly if a condition allows one;
* `Reading.settles_fields` and `Reading.settles_single` — what records and numbers are read from;
* `Document.tollOfNames_le` — no table costs more than the document is large;
* `Rearranges` — other orders of entries, and other names, as a relation between nodes.
-/

namespace Skirmish.Yaml

variable {d : Document} {node value : Node} {name : String} {names path : List String}

/-! ### Values by name -/

def Node.under (d : Document) (node : Node) (name : String) : List Node :=
  ((node.entries d).filter fun e => e.1.name? d = some name).map (·.2)

/-- The values that some names lead to from a node. -/
def Node.valuesAt (d : Document) : List String → Node → List Node
  | [], node => [node]
  | name :: path, node => (node.under d name).flatMap (valuesAt d path)

/-- **The values that some names lead to.** -/
def Document.valuesAt (d : Document) (path : List String) : List Node :=
  d.root.valuesAt d path

/-- **A table:** a mapping by name, or nothing written, in which none of these names occurs twice.
-/
structure Node.IsTable (d : Document) (names : List String) (node : Node) : Prop where
  /-- It is a mapping by name. -/
  isMapping : (node.named? d).isSome = true
  /-- No name occurs twice. -/
  once : ∀ name ∈ names, (node.under d name).length ≤ 1

instance (d : Document) (names : List String) (node : Node) : Decidable (node.IsTable d names) :=
  decidable_of_iff ((node.named? d).isSome = true ∧ ∀ name ∈ names, (node.under d name).length ≤ 1)
    ⟨fun h => ⟨h.1, h.2⟩, fun h => ⟨h.isMapping, h.once⟩⟩

/-- **The number that a node stands for:** a scalar that may be one and that is written like one,
rounded to single precision. -/
def Node.single? (d : Document) (node : Node) : Option Float32 :=
  (node.target? d).bind fun
    | .scalar s => if mayBe "float" s then (real? s.text.toList).map Numeric.narrow else none
    | _ => none

theorem Node.valuesAt_append (path path' : List String) (node : Node) :
    node.valuesAt d (path ++ path') = (node.valuesAt d path).flatMap (valuesAt d path') := by
  -- on the first part of the way, from any node
  induction path generalizing node with
  | nil => exact (List.append_nil _).symm
  | cons name path ih =>
    calc node.valuesAt d (name :: (path ++ path'))
        = (node.under d name).flatMap fun value =>
            (value.valuesAt d path).flatMap (valuesAt d path') :=
          List.flatMap_congr fun value _ => ih value
      _ = (node.valuesAt d (name :: path)).flatMap (valuesAt d path') := List.flatMap_assoc.symm

theorem Document.valuesAt_concat (d : Document) (path : List String) (name : String) :
    d.valuesAt (path ++ [name]) = (d.valuesAt path).flatMap fun node => node.under d name := by
  unfold Document.valuesAt
  rw [Node.valuesAt_append]
  exact List.flatMap_congr fun value _ => List.flatMap_singleton' _

/-! ### How large they are -/

theorem Node.one_le_extent (node : Node) : 1 ≤ node.extent := by
  cases node with
  | scalar _ | «alias» _ => exact le_rfl
  | sequence _ _ | mapping _ _ => exact Nat.le_add_left 1 (_ + 1)

theorem Node.toll_le_one (node : Node) : node.toll ≤ 1 := by
  cases node with
  | «alias» _ => exact le_rfl
  | scalar _ | sequence _ _ | mapping _ _ => exact Nat.zero_le 1

/-- **No anchored node is larger** than the whole document. -/
def Document.Fits (d : Document) : Prop :=
  ∀ e ∈ d.anchored, e.2.extent ≤ d.root.extent

section Fits

variable (hfits : d.Fits)
include hfits

theorem extent_target_le (hnode : node.extent ≤ d.root.extent) {target : Node}
    (h : node.target? d = some target) : target.extent ≤ d.root.extent := by
  -- an alias leads to an anchored node, and anything else to itself
  cases node with
  | «alias» anchor =>
    obtain ⟨before, after, hanchored, -⟩ := List.lookup_eq_some_iff.mp h
    have hmem : (anchor, target) ∈ d.anchored := by
      rw [hanchored]
      exact List.mem_append_right before List.mem_cons_self
    exact hfits (anchor, target) hmem
  | scalar _ | sequence _ _ | mapping _ _ =>
    obtain rfl := Option.some.inj h
    exact hnode

theorem sum_extent_entries_le (hnode : node.extent ≤ d.root.extent) :
    ((node.entries d).map Node.extentOfEntry).sum ≤ d.root.extent := by
  unfold Node.entries
  split
  · next tag entries htarget =>
    calc (entries.map Node.extentOfEntry).sum = Node.extentOfEntries entries :=
      (Node.extentOfEntries_eq entries).symm
      _ ≤ (Node.mapping tag entries).extent := Nat.le_add_right _ 2
      _ ≤ d.root.extent := extent_target_le hfits hnode htarget
  · exact Nat.zero_le _

/-- **The values of a document** are no larger than it. -/
theorem Document.extent_le (h : value ∈ d.valuesAt path) : value.extent ≤ d.root.extent := by
  have hall : ∀ node : Node, node.extent ≤ d.root.extent → value ∈ node.valuesAt d path →
      value.extent ≤ d.root.extent := by
    clear h
    intro node hnode h
    -- on the way, from any node that is not too large
    induction path generalizing node with
    | nil =>
      obtain rfl := List.mem_singleton.mp h
      exact hnode
    | cons name path ih =>
      obtain ⟨next, hnext, h⟩ := List.mem_flatMap.mp h
      obtain ⟨e, he, rfl⟩ := List.mem_map.mp hnext
      refine ih e.2 ?_ h
      calc e.2.extent ≤ Node.extentOfEntry e := Node.extentOfEntry_eq e ▸ Nat.le_add_left _ _
        _ ≤ ((node.entries d).map Node.extentOfEntry).sum :=
          List.le_sum_of_mem (List.mem_map_of_mem (List.mem_of_mem_filter he))
        _ ≤ d.root.extent := sum_extent_entries_le hfits hnode
  exact hall d.root le_rfl h

theorem Document.tollOfNames_le (h : node ∈ d.valuesAt path) :
    node.tollOfNames d ≤ d.root.extent + 1 := by
  -- an entry is larger than what its key may cost
  have hkey (e : Node × Node) : e.1.toll ≤ Node.extentOfEntry e :=
    calc e.1.toll ≤ 1 := e.1.toll_le_one
      _ ≤ e.1.extent := e.1.one_le_extent
      _ ≤ Node.extentOfEntry e := Node.extentOfEntry_eq e ▸ Nat.le_add_right _ _
  have hkeys : ((node.entries d).map fun e => e.1.toll).sum ≤ d.root.extent :=
    calc ((node.entries d).map fun e => e.1.toll).sum
        ≤ ((node.entries d).map Node.extentOfEntry).sum :=
          List.sum_le_sum fun e _ => hkey e
      _ ≤ d.root.extent := sum_extent_entries_le hfits (Document.extent_le hfits h)
  calc node.tollOfNames d ≤ 1 + d.root.extent := Nat.add_le_add node.toll_le_one hkeys
    _ = d.root.extent + 1 := Nat.add_comm _ _

end Fits

/-! ### Acts that may have an answer -/

namespace Reading

variable {α β : Type} {act : Reading α} {ok : α → Prop} {most : ℕ}

/-- **An act that settles a condition:** at a bounded price, it answers what the condition holds of,
and it refuses the document if there is no such thing. -/
def Settles (d : Document) (act : Reading α) (ok : α → Prop) (most : ℕ) : Prop :=
  ∃ answer price, price ≤ most ∧ Costs d act answer price ∧ ∀ a, answer = some a ↔ ok a

theorem Costs.settles {answer : Option α} {price : ℕ} (h : Costs d act answer price)
    (hprice : price ≤ most) (hok : ∀ a, answer = some a ↔ ok a) : Settles d act ok most :=
  ⟨answer, price, hprice, h, hok⟩

theorem settles_pure (a : α) : Settles d (pure a) (· = a) 0 :=
  (costs_pure a).settles le_rfl fun b => by rw [Option.some.injEq, eq_comm]

theorem Settles.congr {ok' : α → Prop} {most' : ℕ} (h : Settles d act ok most) (hle : most ≤ most')
    (hok : ∀ a, ok a ↔ ok' a) : Settles d act ok' most' := by
  obtain ⟨answer, price, hprice, hcosts, hanswer⟩ := h
  exact ⟨answer, price, hprice.trans hle, hcosts, fun a => (hanswer a).trans (hok a)⟩

/-- **One act after another** answers what the second one may answer after the first. -/
theorem Settles.bind {next : α → Reading β} {ok' : α → β → Prop} {most' : ℕ}
    (h : Settles d act ok most) (hnext : ∀ a, ok a → Settles d (next a) (ok' a) most') :
    Settles d (act >>= next) (fun b => ∃ a, ok a ∧ ok' a b) (most + most') := by
  obtain ⟨answer, price, hprice, hcosts, hanswer⟩ := h
  cases answer with
  | none =>
    -- the first act has no answer, and there is nothing for the second
    refine (hcosts.bind_none next).settles (by omega) fun b => ⟨nofun, ?_⟩
    rintro ⟨a, hok, -⟩
    cases (hanswer a).mpr hok
  | some a =>
    obtain ⟨answer', price', hprice', hcosts', hanswer'⟩ := hnext a ((hanswer a).mp rfl)
    refine (hcosts.bind_some hcosts').settles (by omega) fun b => ⟨?_, ?_⟩
    · intro hb
      exact ⟨a, (hanswer a).mp rfl, (hanswer' b).mp hb⟩
    · rintro ⟨a', hok, hb⟩
      obtain rfl := Option.some.inj ((hanswer a').mpr hok)
      exact (hanswer' b).mpr hb

/-- **A pair of acts,** of which the answers are put together: what is answered is taken apart
again. -/
theorem Settles.make {γ : Type} {act' : Reading β} {ok' : β → Prop} {most' : ℕ} {make : α → β → γ}
    {first : γ → α} {second : γ → β} (h : Settles d act ok most) (h' : Settles d act' ok' most')
    (hmake : ∀ a b c, c = make a b ↔ first c = a ∧ second c = b) :
    Settles d (do return make (← act) (← act')) (fun c => ok (first c) ∧ ok' (second c))
      (most + most') := by
  refine (h.bind fun a _ => h'.bind fun b _ => settles_pure (make a b)).congr le_rfl fun c => ?_
  -- what is made shows both of its parts
  constructor
  · rintro ⟨a, ha, b, hb, hc⟩
    obtain ⟨rfl, rfl⟩ := (hmake a b c).mp hc
    exact ⟨ha, hb⟩
  · rintro ⟨ha, hb⟩
    exact ⟨first c, ha, second c, hb, (hmake _ _ c).mpr ⟨rfl, rfl⟩⟩

theorem Settles.run?_eq_some_iff (h : Settles d act ok most) (hmost : most ≤ 100 * d.root.extent)
    (a : α) : act.run? d = some a ↔ ok a := by
  obtain ⟨answer, price, hprice, hcosts, hanswer⟩ := h
  rw [hcosts.run? (hprice.trans hmost)]
  exact hanswer a

end Reading

/-! ### Tables and numbers -/

theorem map_named_eq {named : List (String × Node)} (h : node.named? d = some named) :
    (node.entries d).map (fun e => (e.1.name? d, e.2)) = named.map fun e => (some e.1, e.2) := by
  refine map_eq_of_mapM (fun e labelled hlabel => ?_) (label?_entries_of_named? h)
  obtain ⟨name, hname, rfl⟩ := Option.map_eq_some_iff.mp hlabel
  rw [hname]

theorem under_eq {named : List (String × Node)} (h : node.named? d = some named) (name : String) :
    node.under d name = (named.filter fun e => e.1 = name).map fun e => e.2 := by
  -- both are found among the values with the names that their keys are
  have hentries : node.under d name =
      (((node.entries d).map fun e => (e.1.name? d, e.2)).filter
        fun e => e.1 = some name).map (·.2) := by
    rw [List.filter_map, List.map_map]
    rfl
  have hnamed : (named.map fun e => (some e.1, e.2)).filter (fun e => e.1 = some name) =
      (named.filter fun e => e.1 = name).map fun e => (some e.1, e.2) := by
    rw [List.filter_map]
    simp [Function.comp_def]
  -- the name of an entry and the name that it was given are the same
  rw [hentries, map_named_eq h, hnamed, List.map_map]
  rfl

/-- **The fields of a table** are the values under their names. -/
theorem Node.fields?_eq_some_iff {fields : List (Option Node)} :
    node.fields? d names = some fields ↔
      node.IsTable d names ∧ names.map (node.under d) = fields.map Option.toList := by
  unfold Node.fields?
  cases hnamed : node.named? d with
  | none =>
    -- no mapping by name, and no table
    refine ⟨nofun, ?_⟩
    rintro ⟨⟨hmapping, -⟩, -⟩
    rw [hnamed] at hmapping
    cases hmapping
  | some named =>
    rw [Option.bind_some, Record.named?, mapM_eq_some_iff]
    simp only [Record.only?_eq_some_iff, ← under_eq hnamed]
    have hrows : List.Forall₂ (fun name field => node.under d name = field.toList) names fields ↔
        names.map (node.under d) = fields.map Option.toList := by
      rw [← List.forall₂_map_right_iff (f := Option.toList),
        ← List.forall₂_map_left_iff (f := node.under d), List.forall₂_eq_eq_eq]
    rw [hrows]
    constructor
    · intro h
      refine ⟨⟨by rw [hnamed]; rfl, fun name hname => ?_⟩, h⟩
      -- what is under a name is what a field holds, and that is at most one value
      have hvalues : node.under d name ∈ fields.map Option.toList := h ▸ List.mem_map_of_mem hname
      obtain ⟨field, -, hfield⟩ := List.mem_map.mp hvalues
      rw [← hfield]
      exact Option.length_toList_le
    · rintro ⟨-, h⟩
      exact h

theorem Node.IsTable.exists_fields (h : node.IsTable d names) :
    ∃ fields : List (Option Node), names.map (node.under d) = fields.map Option.toList := by
  refine ⟨names.map fun name => (node.under d name).head?, ?_⟩
  rw [List.map_map]
  refine List.map_congr_left fun name hname => ?_
  have honce := h.once name hname
  change node.under d name = (node.under d name).head?.toList
  -- no value, one, or more than a table may have
  match node.under d name, honce with
  | [], _ => rfl
  | [value], _ => rfl
  | _ :: _ :: _, honce => exact absurd honce (by simp)

namespace Reading

theorem settles_fields (names : List String) (node : Node) :
    Settles d (Source.fields names node)
      (fun fields => node.IsTable d names ∧ names.map (node.under d) = fields.map Option.toList)
      (node.tollOfNames d) :=
  (node.costs_fields names).settles le_rfl fun _ => Node.fields?_eq_some_iff

theorem settles_single (node : Node) :
    Settles d (Source.single node) (fun x => node.single? d = some x) 1 := by
  have hcosts : Costs d (Source.single node) (node.single? d) (node.toll + 0) := by
    rw [Node.single_eq, Node.single?]
    refine (Node.costs_follow node).bind fun target _ => ?_
    -- only a scalar can be a number, and its tag may be against it
    cases target with
    | scalar s =>
      change Costs d (if _ then _ else _) (if _ then _ else _) 0
      split
      · exact (costs_ofOption _).map Numeric.narrow
      · exact costs_refuse 0
    | sequence _ _ | mapping _ _ | «alias» _ => exact costs_refuse 0
  exact hcosts.settles node.toll_le_one fun _ => Iff.rfl

end Reading

/-! ### Other orders and other names -/

section Rearranged

variable {d' : Document} {known : String → Prop} {rel : Node → Node → Prop} {v v' : Node}

/-- **A rearrangement,** as a relation between the nodes of two documents: under the names that are
known, related nodes have related values in some order. Nothing is said about other names. -/
structure Rearranges (d d' : Document) (known : String → Prop) (rel : Node → Node → Prop) :
    Prop where
  /-- Related nodes are mappings by name together. -/
  mapping : ∀ v v', rel v v' → (v.named? d).isSome = (v'.named? d').isSome
  /-- They are the same number, if any. -/
  number : ∀ v v', rel v v' → v.single? d = v'.single? d'
  /-- They have related values under the names that are known. -/
  under : ∀ v v', rel v v' → ∀ name, known name →
    ∃ values, values.Perm (v.under d name) ∧ List.Forall₂ rel values (v'.under d' name)

theorem Rearranges.valuesAt (h : Rearranges d d' known rel) (hpath : ∀ name ∈ path, known name)
    (hrel : rel v v') :
    ∃ values, values.Perm (v.valuesAt d path) ∧ List.Forall₂ rel values (v'.valuesAt d' path) := by
  -- on the way, from any two related nodes
  induction path generalizing v v' with
  | nil => exact ⟨[v], .refl [v], .cons hrel .nil⟩
  | cons name path ih =>
    obtain ⟨hname, hpath⟩ := List.forall_mem_cons.mp hpath
    -- the rest of the way, from each of the values under the name
    have hrest {values values' : List Node} (hvalues : List.Forall₂ rel values values') :
        ∃ all, all.Perm (values.flatMap (Node.valuesAt d path)) ∧
          List.Forall₂ rel all (values'.flatMap (Node.valuesAt d' path)) := by
      induction hvalues with
      | nil => exact ⟨[], .nil, .nil⟩
      | cons hfirst _ ihrest =>
        obtain ⟨here, hperm, hhere⟩ := ih hpath hfirst
        obtain ⟨there, hperm', hthere⟩ := ihrest
        rw [List.flatMap_cons, List.flatMap_cons]
        exact ⟨here ++ there, hperm.append hperm', List.rel_append hhere hthere⟩
    obtain ⟨values, hperm, hvalues⟩ := h.under v v' hrel name hname
    obtain ⟨all, hperm', hall⟩ := hrest hvalues
    exact ⟨all, hperm'.trans (hperm.flatMap_right _), hall⟩

theorem Rearranges.isTable_iff (h : Rearranges d d' known rel)
    (hnames : ∀ name ∈ names, known name) (hrel : rel v v') :
    v.IsTable d names ↔ v'.IsTable d' names := by
  -- related in some order, so as many
  have hlength (name : String) (hname : name ∈ names) :
      (v.under d name).length = (v'.under d' name).length := by
    obtain ⟨values, hperm, hvalues⟩ := h.under v v' hrel name (hnames name hname)
    exact hperm.length_eq.symm.trans hvalues.length_eq
  have hmapping := h.mapping v v' hrel
  constructor
  · rintro ⟨hsome, honce⟩
    exact ⟨hmapping ▸ hsome, fun name hname => hlength name hname ▸ honce name hname⟩
  · rintro ⟨hsome, honce⟩
    exact ⟨hmapping ▸ hsome, fun name hname => (hlength name hname).symm ▸ honce name hname⟩

theorem Rearranges.forall_isTable_iff (h : Rearranges d d' known rel)
    (hnames : ∀ name ∈ names, known name) {values values' : List Node}
    (hvalues : List.Forall₂ rel values values') :
    (∀ node ∈ values, node.IsTable d names) ↔ ∀ node ∈ values', node.IsTable d' names := by
  induction hvalues with
  | nil => exact iff_of_true (List.forall_mem_nil _) (List.forall_mem_nil _)
  | cons hrel _ ih => rw [List.forall_mem_cons, List.forall_mem_cons, h.isTable_iff hnames hrel, ih]

end Rearranged

end Skirmish.Yaml
