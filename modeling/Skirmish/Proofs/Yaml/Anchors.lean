import Mathlib
import Skirmish.Yaml.Node

/-!
# Anchored nodes

Every node with an anchor was read as a part of its document, so it is no larger than all of it.

* `Progress.Grows` — what a parser gives is no smaller than what it had, and than what it put on
  record;
* `Node.Parsers` — that all parsers are such, with as much fuel as there is, one field for each;
* `Node.parsers` — by induction on the fuel;
* `Document.extent_le_of_mem_anchored` — what it says about whole documents.
-/

namespace Skirmish.Yaml

variable {α β : Type} {size : α → ℕ} {size' : β → ℕ} {least least' : ℕ} {p p' : Progress}

/-! ### Extents -/

theorem Node.extentOfItems_eq (items : List Node) :
    extentOfItems items = (items.map extent).sum := by
  induction items with
  | nil => rfl
  | cons item items ih => rw [extentOfItems, ih, List.map_cons, List.sum_cons]

theorem Node.extentOfEntry_eq (e : Node × Node) : extentOfEntry e = e.1.extent + e.2.extent := by
  obtain ⟨key, value⟩ := e
  rw [extentOfEntry]

theorem Node.extentOfEntries_eq (entries : List (Node × Node)) :
    extentOfEntries entries = (entries.map extentOfEntry).sum := by
  induction entries with
  | nil => rfl
  | cons entry entries ih => rw [extentOfEntries, ih, List.map_cons, List.sum_cons]

theorem Node.extentOfItems_le (tag : Option Tag) (before : List Node) :
    extentOfItems before ≤ (sequence tag before.reverse).extent := by
  rw [extent, extentOfItems_eq, extentOfItems_eq, List.map_reverse, List.sum_reverse]
  exact Nat.le_add_right _ 2

theorem Node.extentOfEntries_le (tag : Option Tag) (before : List (Node × Node)) :
    extentOfEntries before ≤ (mapping tag before.reverse).extent := by
  rw [extent, extentOfEntries_eq, extentOfEntries_eq, List.map_reverse, List.sum_reverse]
  exact Nat.le_add_right _ 2

/-! ### What a parser puts on record -/

namespace Progress

/-- **A result that is large enough:** no smaller than what was there before, nor than any node that
was put on record since. -/
def Grows (size : α → ℕ) (least : ℕ) (p : Progress) (result : Option (α × Progress)) : Prop :=
  ∀ a p', result = some (a, p') →
    least ≤ size a ∧ ∀ e ∈ p'.anchored, e ∈ p.anchored ∨ e.2.extent ≤ size a

variable {result : Option (α × Progress)} {next : Option (β × Progress)}

theorem grows_none : Grows size least p none := by
  intro a p' h
  cases h

/-- Nothing was put on record. -/
theorem grows_some {a : α} (hleast : least ≤ size a) (hrecord : p'.anchored = p.anchored) :
    Grows size least p (some (a, p')) := by
  intro b q h
  obtain ⟨rfl, rfl⟩ := Prod.mk.inj (Option.some.inj h)
  exact ⟨hleast, fun e he => .inl (hrecord ▸ he)⟩

theorem Grows.mono (h : Grows size least p result) (hle : least' ≤ least) :
    Grows size least' p result := by
  intro a p' hresult
  obtain ⟨hleast, hrecord⟩ := h a p' hresult
  exact ⟨hle.trans hleast, hrecord⟩

/-- **One result after another:** the second is larger than the first, and so it is larger than what
was put on record with the first. -/
theorem Grows.after {a : α} (h : Grows size 0 p result) (hresult : result = some (a, p'))
    (hnext : Grows size' (size a + least) p' next) : Grows size' least p next := by
  intro b q hq
  obtain ⟨-, hrecord⟩ := h a p' hresult
  obtain ⟨hleast, hrecord'⟩ := hnext b q hq
  refine ⟨by omega, fun e he => ?_⟩
  -- put on record by the second parser, by the first one or before both
  obtain hmid | hsmall := hrecord' e he
  · obtain hold | hsmall := hrecord e hmid
    · exact .inl hold
    · exact .inr (by omega)
  · exact .inr hsmall

theorem anchored_define (name : Option String) (p : Progress) :
    (p.define name).2.anchored = p.anchored := by
  cases name with
  | none => rfl
  | some name => rfl

theorem mem_record {number : Option ℕ} {node : Node} {before : List (ℕ × Node)} {e : ℕ × Node}
    (h : e ∈ (p.record number node before).anchored) :
    e ∈ p.anchored ∨ node = e.2 ∨ e ∈ before := by
  -- without an anchor the node itself is not put on record
  cases number with
  | none =>
    obtain hin | hold := List.mem_append.mp h
    · exact .inl hin
    · exact .inr (.inr hold)
  | some number =>
    obtain hin | hrest := List.mem_append.mp h
    · exact .inl hin
    · obtain rfl | hold := List.mem_cons.mp hrest
      · exact .inr (.inl rfl)
      · exact .inr (.inr hold)

theorem Grows.map {f : α × Progress → β × Progress} (h : Grows size 0 p result)
    (hsize : ∀ a q, least + size a ≤ size' (f (a, q)).1) (hrecord : ∀ a q, (f (a, q)).2 = q) :
    Grows size' least p (result.map f) := by
  cases hresult : result with
  | none => exact grows_none
  | some found =>
    obtain ⟨a, q⟩ := found
    refine h.after hresult ?_
    have hsame : f (a, q) = ((f (a, q)).1, q) := Prod.ext rfl (hrecord a q)
    rw [Option.map_some, hsame]
    exact grows_some (by have := hsize a q; omega) rfl

end Progress

/-! ### The parsers -/

namespace Node

open Progress (Grows grows_none grows_some)

variable {handles : Handles} {n : ℕ}

/-- **What all parsers have in common** that have so much fuel: they give nodes that are large
enough. Those of lists were given what was read before. -/
structure Parsers (handles : Handles) (n : ℕ) : Prop where
  read (block unindented : Bool) (p : Progress) :
    Grows extent 0 p (read? handles n block unindented p)
  content (block unindented bare : Bool) (tag : Option Tag) (p : Progress) :
    Grows extent 0 p (content? handles n block unindented bare tag p)
  blockItems (tag : Option Tag) (before : List Node) (p : Progress) :
    Grows extent (extentOfItems before) p (blockItems? handles n tag before p)
  unindentedItems (tag : Option Tag) (before : List Node) (p : Progress) :
    Grows extent (extentOfItems before) p (unindentedItems? handles n tag before p)
  blockEntries (tag : Option Tag) (before : List (Node × Node)) (p : Progress) :
    Grows extent (extentOfEntries before) p (blockEntries? handles n tag before p)
  blockPart (p : Progress) : Grows extent 0 p (blockPart? handles n p)
  flowItems (tag : Option Tag) (before : List Node) (p : Progress) :
    Grows extent (extentOfItems before) p (flowItems? handles n tag before p)
  flowItem (p : Progress) : Grows extent 0 p (flowItem? handles n p)
  flowPairKey (p : Progress) : Grows extent 0 p (flowPairKey? handles n p)
  flowPart (closing : Token) (p : Progress) : Grows extent 0 p (flowPart? handles n closing p)
  flowEntries (tag : Option Tag) (before : List (Node × Node)) (p : Progress) :
    Grows extent (extentOfEntries before) p (flowEntries? handles n tag before p)
  flowEntry (p : Progress) : Grows extentOfEntry 0 p <| flowEntry? handles n p
  flowKey (p : Progress) : Grows extent 0 p (flowKey? handles n p)

/-! One more step of each of them. -/

section Step

variable (h : Parsers handles n)
include h

/-- The node itself may be put on record, after those in it. -/
theorem grows_read (block unindented : Bool) (p : Progress) :
    Grows extent 0 p (read? handles (n + 1) block unindented p) := by
  rw [read?]
  split
  · -- an alias is not put on record
    cases p.names.lookup _ with
    | none => exact grows_none
    | some number => exact grows_some (Nat.zero_le _) rfl
  · -- the content is read with an empty record, to which the old one is added afterwards
    generalize properties p.tokens = found
    obtain ⟨properties, rest⟩ := found
    have hfresh := Progress.anchored_define properties.anchor ⟨rest, p.names, []⟩
    dsimp only
    generalize Progress.define properties.anchor ⟨rest, p.names, []⟩ = begun at hfresh
    obtain ⟨number, started⟩ := begun
    intro node p' hread
    obtain ⟨tag, -, hread⟩ := Option.bind_eq_some_iff.mp hread
    obtain ⟨⟨node, done⟩, hcontent, hread⟩ := Option.bind_eq_some_iff.mp hread
    obtain ⟨rfl, rfl⟩ := Prod.mk.inj (Option.some.inj hread)
    obtain ⟨-, hinner⟩ := h.content _ _ _ _ _ _ _ hcontent
    refine ⟨Nat.zero_le _, fun e he => ?_⟩
    obtain hin | rfl | hold := Progress.mem_record he
    · obtain hstarted | hsmall := hinner e hin
      · -- nothing was on record when the content began
        rw [hfresh] at hstarted
        cases hstarted
      · exact .inr hsmall
    · exact .inr le_rfl
    · exact .inl hold

theorem grows_content (block unindented bare : Bool) (tag : Option Tag) (p : Progress) :
    Grows extent 0 p (content? handles (n + 1) block unindented bare tag p) := by
  have hmissing : Grows extent 0 p (if bare then none else some (scalar ⟨tag, .plain, ""⟩, p)) := by
    split
    · exact grows_none
    · exact grows_some (Nat.zero_le _) rfl
  rw [content?]
  -- by the token that the content begins with
  split
  · split
    · exact h.unindentedItems tag [] p
    · exact hmissing
  · exact grows_some (Nat.zero_le _) rfl
  · exact h.flowItems tag [] _
  · exact h.flowEntries tag [] _
  · split
    · exact h.blockItems tag [] _
    · exact hmissing
  · split
    · exact h.blockEntries tag [] _
    · exact hmissing
  · exact hmissing

theorem grows_blockItems (tag : Option Tag) (before : List Node) (p : Progress) :
    Grows extent (extentOfItems before) p (blockItems? handles (n + 1) tag before p) := by
  rw [blockItems?]
  split
  · exact grows_some (extentOfItems_le tag before) rfl
  · split
    · exact (h.blockItems tag (blank :: before) _).mono (Nat.le_add_left _ _)
    · next rest _ _ =>
      cases hitem : read? handles n true false (p.facing rest) with
      | none => exact grows_none
      | some found =>
        -- the list with the item is larger than the item
        exact (h.read true false (p.facing rest)).after hitem (h.blockItems tag _ found.2)
  · exact grows_none

theorem grows_unindentedItems (tag : Option Tag) (before : List Node) (p : Progress) :
    Grows extent (extentOfItems before) p (unindentedItems? handles (n + 1) tag before p) := by
  rw [unindentedItems?]
  split
  · split
    · exact (h.unindentedItems tag (blank :: before) _).mono (Nat.le_add_left _ _)
    · next rest _ _ =>
      cases hitem : read? handles n true false (p.facing rest) with
      | none => exact grows_none
      | some found =>
        exact (h.read true false (p.facing rest)).after hitem (h.unindentedItems tag _ found.2)
  · exact grows_some (extentOfItems_le tag before) rfl

theorem grows_blockEntries (tag : Option Tag) (before : List (Node × Node)) (p : Progress) :
    Grows extent (extentOfEntries before) p (blockEntries? handles (n + 1) tag before p) := by
  rw [blockEntries?]
  split
  · exact grows_some (extentOfEntries_le tag before) rfl
  · next rest _ =>
    cases hkey : blockPart? handles n (p.facing rest) with
    | none => exact grows_none
    | some found =>
      -- first the key, then the value if there is one
      refine (h.blockPart (p.facing rest)).after hkey ?_
      simp only
      split
      · next rest' _ =>
        cases hvalue : blockPart? handles n (found.2.facing rest') with
        | none => exact grows_none
        | some found' =>
          refine (h.blockPart (found.2.facing rest')).after hvalue ?_
          refine (h.blockEntries tag ((found.1, found'.1) :: before) found'.2).mono ?_
          -- the entries so far and one more, whose parts have been counted
          rw [extentOfEntries, extentOfEntry]
          omega
      · refine (h.blockEntries tag ((found.1, blank) :: before) found.2).mono ?_
        rw [extentOfEntries, extentOfEntry]
        omega
  · exact grows_none

theorem grows_blockPart (p : Progress) : Grows extent 0 p (blockPart? handles (n + 1) p) := by
  rw [blockPart?]
  split
  · exact grows_some (Nat.zero_le _) rfl
  · exact h.read true true p

theorem grows_flowItems (tag : Option Tag) (before : List Node) (p : Progress) :
    Grows extent (extentOfItems before) p (flowItems? handles (n + 1) tag before p) := by
  rw [flowItems?]
  split
  · exact grows_some (extentOfItems_le tag before) rfl
  · cases hitem : flowItem? handles n p with
    | none => exact grows_none
    | some found =>
      refine (h.flowItem p).after hitem ?_
      simp only
      split
      · exact h.flowItems tag (found.1 :: before) _
      · exact grows_some (extentOfItems_le tag (found.1 :: before)) rfl
      · exact grows_none

theorem grows_flowItem (p : Progress) : Grows extent 0 p (flowItem? handles (n + 1) p) := by
  rw [flowItem?]
  split
  · next rest _ =>
    cases hkey : flowPairKey? handles n (p.facing rest) with
    | none => exact grows_none
    | some found =>
      refine (h.flowPairKey (p.facing rest)).after hkey ?_
      simp only
      split
      · next rest' _ =>
        refine (h.flowPart .flowSequenceEnd (found.2.facing rest')).map
          (fun value q => ?_) fun _ _ => rfl
        change _ ≤ found.1.extent + value.extent + 0 + 2
        omega
      · refine grows_some ?_ rfl
        change _ ≤ found.1.extent + 1 + 0 + 2
        omega
  · exact h.read false false p

theorem grows_flowPairKey (p : Progress) : Grows extent 0 p (flowPairKey? handles (n + 1) p) := by
  rw [flowPairKey?]
  split
  · exact grows_some (Nat.zero_le _) rfl
  · exact h.read false false p

theorem grows_flowPart (closing : Token) (p : Progress) :
    Grows extent 0 p (flowPart? handles (n + 1) closing p) := by
  rw [flowPart?]
  split
  · exact grows_some (Nat.zero_le _) rfl
  · exact h.read false false p

theorem grows_flowEntries (tag : Option Tag) (before : List (Node × Node)) (p : Progress) :
    Grows extent (extentOfEntries before) p (flowEntries? handles (n + 1) tag before p) := by
  rw [flowEntries?]
  split
  · exact grows_some (extentOfEntries_le tag before) rfl
  · cases hentry : flowEntry? handles n p with
    | none => exact grows_none
    | some found =>
      refine (h.flowEntry p).after hentry ?_
      simp only
      split
      · exact h.flowEntries tag (found.1 :: before) _
      · exact grows_some (extentOfEntries_le tag (found.1 :: before)) rfl
      · exact grows_none

theorem grows_flowEntry (p : Progress) :
    Grows extentOfEntry 0 p <| flowEntry? handles (n + 1) p := by
  unfold flowEntry?
  split
  · next rest _ =>
    cases hkey : flowKey? handles n (p.facing rest) with
    | none => exact grows_none
    | some found =>
      refine (h.flowKey (p.facing rest)).after hkey ?_
      simp only
      split
      · next rest' _ =>
        exact (h.flowPart .flowMappingEnd (found.2.facing rest')).map
          (fun value q => le_rfl) fun _ _ => rfl
      · exact grows_some (Nat.le_add_right _ _) rfl
  · exact (h.read false false p).map (fun key q => by rw [extentOfEntry]; omega) fun _ _ => rfl

theorem grows_flowKey (p : Progress) : Grows extent 0 p (flowKey? handles (n + 1) p) := by
  rw [flowKey?]
  split
  · exact grows_some (Nat.zero_le _) rfl
  · exact h.read false false p

end Step

theorem parsers (handles : Handles) (n : ℕ) : Parsers handles n := by
  induction n with
  | zero =>
    -- without fuel there is no node
    constructor <;> intros <;> exact grows_none
  | succ n ih =>
    -- one field for each parser, and each step needs those with less fuel
    exact ⟨grows_read ih, grows_content ih, grows_blockItems ih, grows_unindentedItems ih,
      grows_blockEntries ih, grows_blockPart ih, grows_flowItems ih, grows_flowItem ih,
      grows_flowPairKey ih, grows_flowPart ih, grows_flowEntries ih, grows_flowEntry ih,
      grows_flowKey ih⟩

end Node

/-! ### Documents -/

namespace Document

open Progress (Grows grows_some)

theorem grows_marked? (preamble : Preamble) (tokens : List Token) :
    Grows Node.extent 0 ⟨tokens, [], []⟩ (marked? preamble tokens) := by
  unfold marked?
  split
  · exact grows_some (Nat.zero_le _) rfl
  · exact (Node.parsers _ _).read true false _

theorem extent_le_of_finished {tokens : List Token} {result : Option (Node × Progress)}
    {d : Document} (hgrows : Grows Node.extent 0 ⟨tokens, [], []⟩ result)
    (h : (do
      let found ← result
      if found.2.tokens.all (· = .documentEnd) then pure ⟨found.1, found.2.anchored⟩
        else none) = some d)
    {e : ℕ × Node} (he : e ∈ d.anchored) : e.2.extent ≤ d.root.extent := by
  obtain ⟨⟨root, p⟩, hresult, h⟩ := Option.bind_eq_some_iff.mp h
  dsimp only at h
  split at h
  · obtain rfl := Option.some.inj h
    obtain ⟨-, hrecord⟩ := hgrows root p hresult
    -- on record there is what was there at the beginning, and smaller nodes
    obtain hnone | hle := hrecord e he
    · cases hnone
    · exact hle
  · cases h

theorem extent_le_of_mem_anchored {text : String} {d : Document} (h : ofText? text = some d)
    {e : ℕ × Node} (he : e ∈ d.anchored) : e.2.extent ≤ d.root.extent := by
  obtain ⟨tokens, -, h⟩ := Option.bind_eq_some_iff.mp h
  rw [ofTokens?] at h
  split at h
  · -- nothing is written, and nothing has an anchor
    obtain rfl := Option.some.inj h
    cases he
  · obtain ⟨⟨preamble, rest⟩, -, h⟩ := Option.bind_eq_some_iff.mp h
    dsimp only at h
    split at h
    · exact extent_le_of_finished (grows_marked? preamble _) h he
    · split at h
      · cases h
      · exact extent_le_of_finished ((Node.parsers _ _).read true false _) h he

end Document

end Skirmish.Yaml
