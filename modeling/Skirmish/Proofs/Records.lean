import Mathlib
import Skirmish.Json

/-!
# Fields by name

The fields of a record are looked up one by one, each among all entries. So they are a row of
answers, one for each name, and they do not depend on what is done with the values.

* `mapM_eq_some_map`, `forall₂_of_mapM` and `mapM_eq_some_iff` — rows of answers;
* `Record.only?_eq_some_iff` — what is found under a name;
* `Record.named?_map` — the values may be changed before the fields are found or after;
* `Record.sum_named?_le` — no entry is in two fields.
-/

namespace Skirmish

section Rows

variable {α β γ : Type} {f : α → Option β} {items : List α} {results : List β}

theorem mapM_eq_some_map {g : α → β} (h : ∀ a ∈ items, f a = some (g a)) :
    items.mapM f = some (items.map g) := by
  induction items with
  | nil => rfl
  | cons a items ih =>
    rw [List.mapM_cons, h a List.mem_cons_self, ih fun b hb => h b (List.mem_cons_of_mem _ hb)]
    rfl

theorem mapM_cons_eq_some {a : α} (h : (a :: items).mapM f = some results) :
    ∃ b rest, f a = some b ∧ items.mapM f = some rest ∧ results = b :: rest := by
  rw [List.mapM_cons, Option.bind_eq_bind, Option.bind_eq_some_iff] at h
  obtain ⟨b, hb, h⟩ := h
  obtain ⟨rest, hrest, h⟩ := Option.bind_eq_some_iff.mp h
  exact ⟨b, rest, hb, hrest, (Option.some.inj h).symm⟩

theorem exists_of_mem_mapM (h : items.mapM f = some results) {b : β} (hb : b ∈ results) :
    ∃ a ∈ items, f a = some b := by
  -- on the items; the first answer is that of the first item
  induction items generalizing results with
  | nil =>
    obtain rfl := Option.some.inj h
    cases hb
  | cons a items ih =>
    obtain ⟨b', rest, hb', hrest, rfl⟩ := mapM_cons_eq_some h
    obtain rfl | hb := List.mem_cons.mp hb
    · exact ⟨a, List.mem_cons_self .., hb'⟩
    · obtain ⟨a', ha', heq⟩ := ih hrest hb
      exact ⟨a', List.mem_cons_of_mem _ ha', heq⟩

theorem exists_answer_of_mapM (h : items.mapM f = some results) {a : α} (ha : a ∈ items) :
    ∃ b, f a = some b := by
  induction items generalizing results with
  | nil => cases ha
  | cons a' items ih =>
    obtain ⟨b, rest, hb, hrest, rfl⟩ := mapM_cons_eq_some h
    obtain rfl | ha := List.mem_cons.mp ha
    · exact ⟨b, hb⟩
    · exact ih hrest ha

theorem forall₂_of_mapM (h : items.mapM f = some results) :
    List.Forall₂ (fun a b => a ∈ items ∧ f a = some b) items results := by
  induction items generalizing results with
  | nil =>
    obtain rfl := Option.some.inj h
    exact .nil
  | cons a items ih =>
    obtain ⟨b, rest, hb, hrest, rfl⟩ := mapM_cons_eq_some h
    refine .cons ⟨List.mem_cons_self .., hb⟩ ?_
    exact (ih hrest).imp fun _ _ h => ⟨List.mem_cons_of_mem _ h.1, h.2⟩

theorem mapM_eq_some_iff :
    items.mapM f = some results ↔ List.Forall₂ (fun a b => f a = some b) items results := by
  constructor
  · intro h
    exact (forall₂_of_mapM h).imp fun _ _ h => h.2
  · intro h
    induction h with
    | nil => rfl
    | cons hb _ ih =>
      rw [List.mapM_cons, hb, ih]
      rfl

/-- What is the same of an item and of its answer is the same of all of them. -/
theorem map_eq_of_mapM {g : α → γ} {g' : β → γ} (hsame : ∀ a b, f a = some b → g a = g' b)
    (h : items.mapM f = some results) : items.map g = results.map g' := by
  induction items generalizing results with
  | nil =>
    obtain rfl := Option.some.inj h
    rfl
  | cons a items ih =>
    obtain ⟨b, rest, hb, hrest, rfl⟩ := mapM_cons_eq_some h
    rw [List.map_cons, List.map_cons, hsame a b hb, ih hrest]

end Rows

namespace Record

variable {κ κ' α β : Type} [DecidableEq κ] [DecidableEq κ'] {entries : List (κ × α)} {name : κ}
  {names : List κ}

theorem only?_map {g : κ → κ'} (hg : Function.Injective g) (f : α → β) (entries : List (κ × α))
    (name : κ) :
    only? (entries.map fun e => (g e.1, f e.2)) (g name) =
        (only? entries name).map (Option.map f) := by
  unfold only?
  have hfilter : (entries.map fun e => (g e.1, f e.2)).filter (fun e => e.1 = g name) =
      (entries.filter fun e => e.1 = name).map fun e => (g e.1, f e.2) := by
    rw [List.filter_map]
    simp [Function.comp_def, hg.eq_iff]
  rw [hfilter]
  generalize (entries.filter fun e => e.1 = name) = found
  -- under a name there is nothing, one value or too many
  match found with
  | [] => rfl
  | [e] => rfl
  | _ :: _ :: _ => rfl

theorem named?_map {g : κ → κ'} (hg : Function.Injective g) (f : α → β) (names : List κ)
    (entries : List (κ × α)) :
    named? (names.map g) (entries.map fun e => (g e.1, f e.2)) =
      (named? names entries).map (List.map (Option.map f)) := by
  unfold named?
  -- on the names, whose fields are looked up one after another
  induction names with
  | nil => rfl
  | cons name names ih =>
    rw [List.map_cons, List.mapM_cons, List.mapM_cons, ih, only?_map hg]
    cases only? entries name with
    | none => rfl
    | some o =>
      cases names.mapM (only? entries) with
      | none => rfl
      | some os => rfl

theorem only?_eq_some_iff {value : Option α} :
    only? entries name = some value ↔
      ((entries.filter fun e => e.1 = name).map fun e => e.2) = value.toList := by
  unfold only?
  generalize (entries.filter fun e => e.1 = name) = found
  cases value with
  | none =>
    match found with
    | [] => simp
    | [e] => simp
    | _ :: _ :: _ => simp
  | some a =>
    match found with
    | [] => simp
    | [e] => simp
    | _ :: _ :: _ => simp

theorem mem_of_only? {a : α} (h : only? entries name = some (some a)) : (name, a) ∈ entries := by
  unfold only? at h
  split at h
  · cases h
  · next e he =>
    obtain rfl := Option.some.inj (Option.some.inj h)
    have hmem : e ∈ entries.filter fun e => e.1 = name := by
      rw [he]
      exact List.mem_singleton_self e
    obtain ⟨hentry, hname⟩ := List.mem_filter.mp hmem
    rw [← of_decide_eq_true hname]
    exact hentry
  · cases h

/-- The size of a value that may be missing. -/
def sizeOf? (size : α → ℕ) (value : Option α) : ℕ :=
  value.elim 0 size

theorem sizeOf?_only? {value : Option α} (size : α → ℕ) (h : only? entries name = some value) :
    sizeOf? size value = ((entries.filter fun e => e.1 = name).map fun e => size e.2).sum := by
  unfold only? at h
  split at h
  · next he =>
    obtain rfl := Option.some.inj h
    rw [he]
    rfl
  · next e he =>
    obtain rfl := Option.some.inj h
    rw [he]
    rfl
  · cases h

theorem only?_filter_ne {other : κ} (h : name ≠ other) (entries : List (κ × α)) :
    only? (entries.filter fun e => e.1 ≠ other) name = only? entries name := by
  unfold only?
  rw [List.filter_filter]
  have hpred : (fun e : κ × α => decide (e.1 = name) && decide (e.1 ≠ other)) =
      fun e => decide (e.1 = name) := by
    funext e
    by_cases he : e.1 = name
    · simp [he, h]
    · simp [he]
  rw [hpred]

theorem named?_filter_ne {other : κ} (h : other ∉ names) (entries : List (κ × α)) :
    named? names (entries.filter fun e => e.1 ≠ other) = named? names entries := by
  unfold named?
  induction names with
  | nil => rfl
  | cons name names ih =>
    obtain ⟨hname, hnames⟩ := not_or.mp (List.mem_cons.not.mp h)
    rw [List.mapM_cons, List.mapM_cons, ih hnames, only?_filter_ne (Ne.symm hname)]

theorem sum_named?_le (size : α → ℕ) {fields : List (Option α)} (hnames : names.Nodup)
    (h : named? names entries = some fields) :
    (fields.map (sizeOf? size)).sum ≤ (entries.map fun e => size e.2).sum := by
  -- on the names, for any entries: those of the first name go to its field and are taken out
  induction names generalizing entries fields with
  | nil =>
    obtain rfl := Option.some.inj h
    exact Nat.zero_le _
  | cons name names ih =>
    obtain ⟨hname, hnames⟩ := List.nodup_cons.mp hnames
    obtain ⟨value, rest, hvalue, hrest, rfl⟩ := mapM_cons_eq_some h
    -- the other names are found among the other entries
    have hothers : named? names (entries.filter fun e => e.1 ≠ name) = some rest :=
      (named?_filter_ne hname entries).trans hrest
    have hsplit := ((List.filter_append_perm (fun e : κ × α => decide (e.1 = name)) entries).map
      fun e => size e.2).sum_nat
    rw [List.map_append, List.sum_append] at hsplit
    rw [List.map_cons, List.sum_cons, sizeOf?_only? size hvalue, ← hsplit]
    simpa using ih hnames hothers

end Record

end Skirmish
