import Skirmish.Encounter
import Skirmish.Proofs.Encounter.Histories
import Skirmish.Proofs.Tuning.Requirements

/-!
# Accounts

What a summary keeps of each enemy, and that the dead are accounted for:

* `Summary.lookup_creditAll` — an enemy's entry counts its steps after the target;
* `Encounter.accounts_of_history` — every death is reported twice and counted once.
-/

/-! ## The table of seekers

A summary keeps, in order of the enemies' numbers, how many steps each enemy spent after the target.
An enemy that spent none has no entry.

* `Summary.Ordered` — the order, which `Summary.credit` keeps;
* `Summary.restrict_creditAll` — crediting enemies and looking at some of them only can be done in
  either order;
* `Summary.lookup_creditAll` — an enemy's entry counts its credits.

The last two need the order. A number that stood behind a greater one would not be found, and would
be given a second entry.
-/

namespace Skirmish.Summary

/-- A table of steps, by the enemies' numbers. -/
abbrev Table : Type := List (UInt64 × UInt64)

/-- **The order of a table:** the numbers increase. -/
def Ordered (table : Table) : Prop :=
  table.Pairwise (·.1 < ·.1)

def creditAll (ids : List UInt64) (table : Table) : Table :=
  ids.foldl (fun table id => credit id table) table

variable {id : UInt64} {table : Table}

@[simp] theorem creditAll_cons (id : UInt64) (ids : List UInt64) (table : Table) :
    creditAll (id :: ids) table = creditAll ids (credit id table) := rfl

/-- After a step, the table has one more step for each enemy that is after the target. -/
theorem seekSteps_afterStep (s : Summary) (step : UInt64) (reaped : Nat)
    (enemies : List (Tree.Agent Enemy.Board)) :
    (s.afterStep step reaped enemies).seekSteps = creditAll (seekers enemies) s.seekSteps := rfl

theorem ordered_nil : Ordered [] :=
  List.Pairwise.nil

/-! ### The order is kept -/

theorem credit_of_lt (h : ∀ entry ∈ table, id < entry.1) : credit id table = (id, 1) :: table := by
  cases table with
  | nil => rfl
  | cons entry rest => exact if_pos (h entry List.mem_cons_self)

theorem Ordered.lt_all {other steps : UInt64} (h : Ordered ((other, steps) :: table))
    (hlt : id < other) : ∀ entry ∈ (other, steps) :: table, id < entry.1 := by
  intro entry hentry
  obtain rfl | hentry := List.mem_cons.mp hentry
  · exact hlt
  · exact UInt64.lt_trans hlt ((List.pairwise_cons.mp h).1 entry hentry)

theorem eq_or_mem_of_mem_credit {entry : UInt64 × UInt64} (h : entry ∈ credit id table) :
    entry.1 = id ∨ ∃ old ∈ table, entry.1 = old.1 := by
  -- along the walk of `credit`: the new number goes to the end, before a greater one, onto its own
  -- entry, or further on
  fun_induction credit id table with
  | case1 =>
    rw [List.mem_singleton.mp h]
    exact .inl rfl
  | case2 other steps rest hlt =>
    obtain rfl | h := List.mem_cons.mp h
    · exact .inl rfl
    · exact .inr ⟨entry, h, rfl⟩
  | case3 steps rest hnot =>
    obtain rfl | h := List.mem_cons.mp h
    · exact .inl rfl
    · exact .inr ⟨entry, List.mem_cons_of_mem _ h, rfl⟩
  | case4 other steps rest hnot hne ih =>
    obtain rfl | h := List.mem_cons.mp h
    · exact .inr ⟨_, List.mem_cons_self, rfl⟩
    · -- behind the first entry, by induction
      obtain h | ⟨old, hold, h⟩ := ih h
      · exact .inl h
      · exact .inr ⟨old, List.mem_cons_of_mem _ hold, h⟩

theorem Ordered.credit (h : Ordered table) (id : UInt64) : Ordered (credit id table) := by
  fun_induction Summary.credit id table with
  | case1 => exact List.pairwise_singleton _ _
  -- the new entry comes first, and is below all of them
  | case2 other steps rest hlt => exact List.pairwise_cons.mpr ⟨h.lt_all hlt, h⟩
  -- only the steps of the entry change, not its number
  | case3 steps rest hnot => exact List.pairwise_cons.mpr (List.pairwise_cons.mp h)
  | case4 other steps rest hnot hne ih =>
    obtain ⟨hfirst, hrest⟩ := List.pairwise_cons.mp h
    refine List.pairwise_cons.mpr ⟨?_, ih hrest⟩
    -- the number credited is greater than the first one, as are those behind it
    intro entry hentry
    obtain heq | ⟨old, hold, heq⟩ := eq_or_mem_of_mem_credit hentry
    · rw [heq]
      exact UInt64.lt_of_le_of_ne (UInt64.not_lt.mp hnot) (Ne.symm hne)
    · rw [heq]
      exact hfirst old hold

theorem Ordered.creditAll (h : Ordered table) (ids : List UInt64) :
    Ordered (creditAll ids table) := by
  induction ids generalizing table with
  | nil => exact h
  | cons id ids ih => exact ih (h.credit id)

/-! ### Some enemies only -/

def restrict (p : UInt64 → Bool) (table : Table) : Table :=
  table.filter fun entry => p entry.1

theorem restrict_cons (p : UInt64 → Bool) (entry : UInt64 × UInt64) (table : Table) :
    restrict p (entry :: table) =
      if p entry.1 then entry :: restrict p table else restrict p table :=
  List.filter_cons

/-- **A credit is seen** by whoever looks at the enemy, and by nobody else. -/
theorem restrict_credit (h : Ordered table) (p : UInt64 → Bool) (id : UInt64) :
    restrict p (credit id table) =
      if p id then credit id (restrict p table) else restrict p table := by
  fun_induction credit id table with
  | case1 => rw [restrict_cons]; rfl
  | case2 other steps rest hlt =>
    -- whatever is kept of the table stands behind the new entry
    have hall : ∀ entry ∈ restrict p ((other, steps) :: rest), id < entry.1 :=
      fun entry hentry => h.lt_all hlt entry (List.mem_filter.mp hentry).1
    rw [credit_of_lt hall, restrict_cons]
  | case3 steps rest hnot =>
    -- the entry that gets the step is kept or dropped as before
    rw [restrict_cons, restrict_cons]
    by_cases hp : p id
    · rw [if_pos hp, if_pos hp, if_pos hp, credit, if_neg hnot, if_pos rfl]
    · rw [if_neg hp, if_neg hp, if_neg hp]
  | case4 other steps rest hnot hne ih =>
    rw [restrict_cons, restrict_cons, ih (List.pairwise_cons.mp h).2]
    -- the credit goes on behind the first entry, whether that is kept or not
    by_cases hid : p id
    · rw [if_pos hid, if_pos hid]
      by_cases hp : p other
      · rw [if_pos hp, if_pos hp, credit, if_neg hnot, if_neg hne]
      · rw [if_neg hp, if_neg hp]
    · rw [if_neg hid, if_neg hid]

theorem restrict_creditAll (h : Ordered table) (p : UInt64 → Bool) (ids : List UInt64) :
    restrict p (creditAll ids table) = creditAll (ids.filter p) (restrict p table) := by
  -- on the credits still to be given, for every table; each table they meet is ordered
  induction ids generalizing table with
  | nil => rfl
  | cons id ids ih =>
    rw [creditAll_cons, ih (h.credit id), restrict_credit h, List.filter_cons]
    by_cases hp : p id
    · rw [if_pos hp, if_pos hp, creditAll_cons]
    · rw [if_neg hp, if_neg hp]

/-! ### Entries -/

/-- The entry of an enemy that spent `n` steps after the target. -/
def entryFor : Nat → Option UInt64
  | 0 => none
  | n + 1 => some (UInt64.ofNat (n + 1))

theorem entryFor_eq_none_iff {n : Nat} : entryFor n = none ↔ n = 0 := by
  cases n <;> simp [entryFor]

theorem toNat_of_entryFor {n : Nat} {steps : UInt64} (h : entryFor n = some steps)
    (fits : n < UInt64.size) : steps.toNat = n := by
  cases n with
  | zero => exact absurd h (by simp [entryFor])
  | succ n =>
    rw [← Option.some.inj h, UInt64.toNat_ofNat']
    exact Nat.mod_eq_of_lt fits

theorem lookup_cons_of_ne {other steps : UInt64} (h : id ≠ other) :
    List.lookup id ((other, steps) :: table) = table.lookup id := by
  rw [List.lookup_cons, beq_false_of_ne h]

theorem lookup_eq_none_of_lt (h : ∀ entry ∈ table, id < entry.1) : table.lookup id = none := by
  -- the search stops at no entry, for none of them has the number
  induction table with
  | nil => rfl
  | cons entry rest ih =>
    rw [lookup_cons_of_ne (UInt64.ne_of_lt (h entry List.mem_cons_self))]
    exact ih fun entry hentry => h entry (List.mem_cons_of_mem _ hentry)

/-- **A credit counts for the enemy credited,** and for nobody else. -/
theorem lookup_credit (h : Ordered table) (id other : UInt64) :
    (credit id table).lookup other =
      if other = id then some ((table.lookup id).getD 0 + 1) else table.lookup other := by
  -- a number of the table above `id` is not `id`, which is where the order is needed
  fun_induction credit id table with
  | case1 =>
    -- nobody had an entry, so the credit is the only one
    by_cases hid : other = id
    · rw [if_pos hid, hid, List.lookup_cons_self]
      rfl
    · rw [if_neg hid, lookup_cons_of_ne hid]
  | case2 first steps rest hlt =>
    by_cases hid : other = id
    · rw [if_pos hid, hid, List.lookup_cons_self, lookup_eq_none_of_lt (h.lt_all hlt)]
      rfl
    · rw [if_neg hid, lookup_cons_of_ne hid]
  | case3 steps rest hnot =>
    by_cases hid : other = id
    · rw [if_pos hid, hid, List.lookup_cons_self, List.lookup_cons_self, Option.getD_some]
    · rw [if_neg hid, lookup_cons_of_ne hid, lookup_cons_of_ne hid]
  | case4 first steps rest hnot hne ih =>
    rw [lookup_cons_of_ne hne]
    -- behind the first entry, the credit goes on
    by_cases hfirst : other = first
    · rw [if_neg (hfirst ▸ Ne.symm hne), hfirst, List.lookup_cons_self, List.lookup_cons_self]
    · rw [lookup_cons_of_ne hfirst, lookup_cons_of_ne hfirst, ih (List.pairwise_cons.mp h).2]

theorem lookup_creditAll {n : Nat} (h : Ordered table) (hn : table.lookup id = entryFor n)
    (ids : List UInt64) : (creditAll ids table).lookup id = entryFor (n + ids.count id) := by
  -- on the credits; `n` counts those given so far
  induction ids generalizing table n with
  | nil => exact hn
  | cons first ids ih =>
    rw [creditAll_cons]
    have hcredit := lookup_credit h first id
    by_cases hid : id = first
    · -- the first credit is for this enemy, so the rest starts from one more
      subst hid
      have hentry : (credit id table).lookup id = entryFor (n + 1) := by
        rw [hcredit, if_pos rfl, hn]
        cases n with
        | zero => rfl
        | succ n =>
          rw [entryFor, entryFor, Option.getD_some, UInt64.ofNat_add (n + 1) 1]
          rfl
      rw [ih (h.credit id) hentry, List.count_cons_self, Nat.add_assoc, Nat.add_comm 1]
    · rw [if_neg hid] at hcredit
      rw [ih (h.credit first) (hcredit.trans hn), List.count_cons_of_ne (Ne.symm hid)]

end Skirmish.Summary

/-! ## The dead are accounted for

An enemy that the weapon destroys is reported twice, as destroyed and as removed, and counted once.
Nothing else happens to it in that step, and nothing at all afterwards.

The invariant is `Encounter.Reckoned`: between steps every enemy lives, and no number occurs twice
among the enemies and those destroyed so far. A wave of valid enemies begins so. A step keeps it,
because the ticks leave the health alone and the update drops whatever the weapon killed.

* `Encounter.Accounts` — what a single step owes;
* `Encounter.Reckoned.accounts` and `Encounter.Reckoned.step` — a step pays it, and can be repeated;
* `Encounter.accounts_of_history` — whole histories and runs.
-/

namespace Skirmish

open Skirmish.Tree (Agent Fault Record Remark Tally)

namespace Encounter

/-! ### Reading a journal -/

/-- The enemy that was destroyed, if that is what happened. -/
def Happening.destroyed? : Happening → Option UInt64
  | destroyed enemy _ => some enemy
  | _ => none

/-- The enemy that was removed, if that is what happened. -/
def Happening.reaped? : Happening → Option UInt64
  | remark (.reaped agent) => some agent
  | _ => none

/-- The enemy that was ticked, if this tells of a tick. -/
def Happening.ticked? : Happening → Option UInt64
  | remark (.during record) => some (Enemy.recordEnemy record)
  | remark (.rootFailed agent) => some agent
  | _ => none

def destroyedIds (journal : List Happening) : List UInt64 :=
  journal.filterMap Happening.destroyed?

def reapedIds (journal : List Happening) : List UInt64 :=
  journal.filterMap Happening.reaped?

@[simp] theorem destroyedIds_append (l m : List Happening) :
    destroyedIds (l ++ m) = destroyedIds l ++ destroyedIds m :=
  List.filterMap_append

@[simp] theorem reapedIds_append (l m : List Happening) :
    reapedIds (l ++ m) = reapedIds l ++ reapedIds m :=
  List.filterMap_append

@[simp] theorem destroyedIds_remarks (remarks : List (Remark Enemy.Note)) :
    destroyedIds (remarks.map .remark) = [] := by
  simp [destroyedIds, Happening.destroyed?]

theorem destroyedIds_periodicReport (e : Encounter) (step : UInt64) (reaped : Nat) :
    destroyedIds (periodicReport e step reaped) = [] := by
  simp only [periodicReport]
  split <;> rfl

/-! ### The invariant -/

/-- **The wave is reckoned with:** whoever is in it lives, and no number was used twice. -/
structure Reckoned (gone : List UInt64) (e : Encounter) : Prop where
  /-- Every enemy lives. -/
  alive : ∀ a ∈ e.enemies, a.board.body.isAlive = true
  /-- No number occurs twice among those gone and those present. -/
  distinct : (gone ++ e.enemies.map enemyId).Nodup

/-- **What a step owes** to those that it destroys and to those that it spares. -/
structure Accounts (root : Enemy.EnemyNode) (dt : Float32) (e : Encounter) (tally : Tally) :
    Prop where
  /-- Whoever is left has positive health. -/
  health : ∀ a ∈ (e.step root dt).encounter.enemies, a.board.body.health > 0
  /-- So no enemy counts as dead. -/
  dead : (Census.of (e.step root dt).encounter.enemies).dead = 0
  /-- Every enemy seeks or patrols. -/
  regimes : (Census.of (e.step root dt).encounter.enemies).seek +
    (Census.of (e.step root dt).encounter.enemies).patrol =
      (e.step root dt).encounter.enemies.length
  /-- Those removed are those destroyed, in the same order. -/
  reaped_eq : reapedIds (e.step root dt).journal = destroyedIds (e.step root dt).journal
  /-- The tally counts them. -/
  reaped : tally.reaped = (destroyedIds (e.step root dt).journal).length
  /-- The tally counts whoever is left as ticked. -/
  ticked : tally.ticked = (e.step root dt).encounter.enemies.length
  /-- No tree fails. -/
  failure : tally.failure = 0
  /-- Those who are left are those not destroyed, each of them refreshed and ticked. -/
  driven : (e.step root dt).encounter.enemies =
    (e.spared dt).map fun a => (e.driven root dt a).agent
  /-- Nobody else is there any more. -/
  spared : (e.step root dt).encounter.enemies.map enemyId =
    (e.enemies.map enemyId).filter (· ∉ destroyedIds (e.step root dt).journal)
  /-- No tick tells of an enemy that was destroyed. -/
  untold : ∀ h ∈ (e.step root dt).journal, ∀ id ∈ destroyedIds (e.step root dt).journal,
    h.ticked? ≠ some id
  /-- No event is traced for an enemy that was destroyed. -/
  untraced : ∃ events, (e.step root dt).encounter.trace = e.trace.map (·.append events) ∧
    ∀ ev ∈ events, ev.agent ∉ destroyedIds (e.step root dt).journal

variable {root : Enemy.EnemyNode} {dt : Float32} {e : Encounter} {tally : Tally}
  {gone : List UInt64} {a : Agent Enemy.Board}

/-! ### Who is spared and who is slain -/

theorem isAlive_of_mem_spared (h : a ∈ e.spared dt) : a.board.body.isAlive = true :=
  (List.mem_filter.mp h).2

theorem ids_struck (dt : Float32) (e : Encounter) :
    (e.enemies.map (e.struck dt)).map enemyId = e.enemies.map enemyId := by
  rw [List.map_map]
  refine List.map_congr_left ?_
  intro a _
  exact enemyId_struck dt e a

/-- The numbers of the spared and the slain are those of the wave, in another order. -/
theorem perm_ids (dt : Float32) (e : Encounter) :
    ((e.slain dt).map enemyId ++ (e.spared dt).map enemyId).Perm (e.enemies.map enemyId) := by
  rw [← ids_struck dt e, ← List.map_append]
  refine List.Perm.map enemyId (List.perm_append_comm.trans ?_)
  exact List.filter_append_perm _ _

/-- **Whom the weapon reports destroyed** is whom the update finds dead. -/
theorem destroyedIds_strikeNews (alive : ∀ a ∈ e.enemies, a.board.body.isAlive = true) :
    destroyedIds (e.enemies.flatMap (e.strikeNews dt)) = (e.slain dt).map enemyId := by
  unfold slain Tree.fallen
  -- the news and the fallen are listed in the order of the wave, so the induction is over that
  revert alive
  induction e.enemies with
  | nil => exact fun _ => rfl
  | cons a rest ih =>
    intro alive
    have hrest := ih fun a' ha' => alive a' (List.mem_cons_of_mem a ha')
    rw [List.flatMap_cons, destroyedIds_append, hrest, strikeNews_eq (alive a List.mem_cons_self),
      List.map_cons, List.filter_cons]
    -- the first enemy lived before, so it is reported exactly if it does not live now
    cases hlives : (e.struck dt a).board.body.isAlive with
    | true => simp [hlives, destroyedIds, Tree.Driven.isAlive]
    | false => simp [hlives, destroyedIds, Happening.destroyed?, Tree.Driven.isAlive]

/-- A wave of the living has no dead, and everyone in it seeks or patrols. -/
theorem census_of_alive {enemies : List (Agent Enemy.Board)}
    (alive : ∀ a ∈ enemies, a.board.body.isAlive = true) :
    (Census.of enemies).dead = 0 ∧
      (Census.of enemies).seek + (Census.of enemies).patrol = enemies.length := by
  constructor
  · -- the regime of a living enemy is decided by its detection flag alone
    refine List.countP_eq_zero.mpr ?_
    intro a ha
    cases hd : a.board.memory.detected <;> simp [Enemy.Regime.of, alive a ha, hd]
  · -- of the living, whoever does not seek patrols
    rw [List.length_eq_countP_add_countP fun a => Enemy.Regime.of a.board = .seek]
    refine congrArg _ (List.countP_congr ?_)
    intro a ha
    cases hd : a.board.memory.detected <;> simp [Enemy.Regime.of, alive a ha, hd]

/-! ### One step -/

section Step

variable (hroot : Enemy.IsEnemyTree root) (hok : (e.step root dt).tally = .ok tally)
include hroot hok

theorem isAlive_of_mem_step (h : a ∈ (e.step root dt).encounter.enemies) :
    a.board.body.isAlive = true := by
  rw [enemies_step hok, List.mem_map] at h
  obtain ⟨a', ha', rfl⟩ := h
  obtain ⟨s, hs⟩ := driven_ok hok a' ha'
  -- it lived before it was driven, and that leaves the health alone
  rw [Enemy.Body.isAlive, health_driven hroot hs]
  exact isAlive_of_mem_spared ha'

theorem ids_step :
    (e.step root dt).encounter.enemies.map enemyId = (e.spared dt).map enemyId := by
  rw [enemies_step hok, List.map_map]
  refine List.map_congr_left ?_
  -- a tick that completes changes no number
  intro a ha
  obtain ⟨s, hs⟩ := driven_ok hok a ha
  exact enemyId_driven hroot hs

theorem ticked?_of_mem_remarks (ha : a ∈ e.spared dt) {r : Remark Enemy.Note}
    (hr : r ∈ (e.driven root dt a).remarks) :
    Happening.ticked? (.remark r) = some (enemyId a) := by
  obtain ⟨s, hs⟩ := driven_ok hok a ha
  obtain ⟨t, c, -, -, htrail⟩ := driven_goes hroot hs
  -- the root does not fail, so the remarks are the records of the tick
  rw [Agent.Ticked.remarks, if_neg (status_driven_ne_failure hroot hs), List.append_nil,
    List.mem_map] at hr
  obtain ⟨record, hrecord, rfl⟩ := hr
  exact congrArg some (htrail record hrecord)

/-- Nothing that the weapon does or the update removes tells of a tick. -/
theorem mem_spared_of_ticked? {h : Happening} {id : UInt64} (hh : h ∈ (e.step root dt).journal)
    (hid : h.ticked? = some id) : ∃ a ∈ e.spared dt, enemyId a = id := by
  rw [journal_step hok, List.mem_append, List.map_append, List.mem_append] at hh
  obtain hh | hh | hh := hh
  · -- the weapon tells of destruction
    obtain ⟨a, -, hh⟩ := List.mem_flatMap.mp hh
    rw [eq_destroyed_of_mem_strikeNews hh] at hid
    exact absurd hid (by simp [Happening.ticked?])
  · -- the update tells of removal
    rw [List.map_map, List.mem_map] at hh
    obtain ⟨a, -, rfl⟩ := hh
    exact absurd hid (by simp [Happening.ticked?])
  · -- what is left is about those that are driven
    obtain ⟨r, hr, rfl⟩ := List.mem_map.mp hh
    obtain ⟨a, ha, hr⟩ := List.mem_flatMap.mp hr
    rw [ticked?_of_mem_remarks hroot hok ha hr] at hid
    exact ⟨a, ha, Option.some.inj hid⟩

/-- **A step reports as removed whom it has slain.** -/
theorem reapedIds_step :
    reapedIds (e.step root dt).journal = (e.slain dt).map enemyId := by
  -- of the three parts of a step's journal, only the second one tells of removal
  have hnews : reapedIds (e.enemies.flatMap (e.strikeNews dt)) = [] := by
    refine List.filterMap_eq_nil_iff.mpr ?_
    intro h hh
    obtain ⟨a, -, hh⟩ := List.mem_flatMap.mp hh
    rw [eq_destroyed_of_mem_strikeNews hh]
    rfl
  have htold : reapedIds (((e.spared dt).flatMap fun a => (e.driven root dt a).remarks).map
      .remark) = [] := by
    refine List.filterMap_eq_nil_iff.mpr ?_
    intro h hh
    obtain ⟨r, hr, rfl⟩ := List.mem_map.mp hh
    obtain ⟨a, ha, hr⟩ := List.mem_flatMap.mp hr
    have hticked := ticked?_of_mem_remarks hroot hok ha hr
    cases r with
    | reaped agent => exact absurd hticked (by simp [Happening.ticked?])
    | rootFailed agent => rfl
    | during record => rfl
  have hslain : reapedIds (((e.slain dt).map fun a => Remark.reaped (enemyId a)).map .remark) =
      (e.slain dt).map enemyId := by
    rw [reapedIds, List.map_map, List.filterMap_map, ← List.filterMap_eq_map]
    rfl
  rw [journal_step hok, reapedIds_append, hnews, List.map_append, reapedIds_append, htold, hslain,
    List.nil_append, List.append_nil]

omit hroot in
/-- **A step reports as destroyed whom it has slain,** if everyone lived before. -/
theorem Reckoned.destroyedIds_step (h : Reckoned gone e) :
    destroyedIds (e.step root dt).journal = (e.slain dt).map enemyId := by
  rw [journal_step hok, destroyedIds_append, destroyedIds_remarks, List.append_nil,
    destroyedIds_strikeNews h.alive]

theorem Reckoned.accounts (h : Reckoned gone e) : Accounts root dt e tally := by
  have hdestroyed := h.destroyedIds_step hok
  have hids := ids_step hroot hok
  -- no number is both slain and spared, for the wave's numbers are distinct
  have hdisjoint : ∀ a ∈ e.spared dt, enemyId a ∉ (e.slain dt).map enemyId := by
    intro a ha hslain
    have hnodup := (perm_ids dt e).nodup_iff.mpr (List.nodup_append.mp h.distinct).2.1
    exact (List.nodup_append.mp hnodup).2.2 _ hslain _ (List.mem_map_of_mem ha) rfl
  have halive : ∀ a ∈ (e.step root dt).encounter.enemies, a.board.body.isAlive = true := by
    intro a ha
    exact isAlive_of_mem_step hroot hok ha
  have htally := tally_step hok
  refine
    { health := fun a ha => Enemy.isAlive_iff.mp (halive a ha)
      dead := (census_of_alive halive).1
      regimes := (census_of_alive halive).2
      reaped_eq := by rw [hdestroyed, reapedIds_step hroot hok]
      reaped := by rw [hdestroyed, List.length_map, htally]
      ticked := ?_
      failure := ?_
      driven := enemies_step hok
      spared := ?_
      untold := ?_
      untraced := ⟨_, trace_step hok, ?_⟩ }
  · -- every status in the tally belongs to one of the enemies left
    rw [htally, enemies_step hok, List.length_map]
    exact (Tally.ticked_ofStatuses _).trans (List.length_map _)
  · -- the root of an enemy tree never fails
    rw [htally]
    refine (Tally.ended_ofStatuses _ .failure).trans (List.count_eq_zero.mpr ?_)
    intro hmem
    obtain ⟨a, ha, hfailure⟩ := List.mem_map.mp hmem
    obtain ⟨s, hs⟩ := driven_ok hok a ha
    exact status_driven_ne_failure hroot hs hfailure
  · -- to live after the weapon has fired is not to be among the numbers of the slain
    rw [hids, hdestroyed, ← ids_struck dt e, List.filter_map]
    refine congrArg (List.map enemyId) (List.filter_congr ?_)
    intro a ha
    cases hlives : Tree.Driven.isAlive a.board with
    | true =>
      have hmem : a ∈ e.spared dt := List.mem_filter.mpr ⟨ha, hlives⟩
      simpa using hdisjoint a hmem
    | false =>
      have hmem : a ∈ e.slain dt := List.mem_filter.mpr ⟨ha, by rw [hlives]; rfl⟩
      simpa using ⟨a, hmem, rfl⟩
  · -- a record of a tick is of a spared enemy, and the weapon reports the slain
    intro h hh id hid hticked
    obtain ⟨a, ha, rfl⟩ := mem_spared_of_ticked? hroot hok hh hticked
    exact hdisjoint a ha (hdestroyed ▸ hid)
  · -- so is a traced event
    intro ev hev
    obtain ⟨a, ha, hev⟩ := List.mem_flatMap.mp hev
    obtain ⟨s, hs⟩ := driven_ok hok a ha
    rw [agent_of_mem_events hroot hs hev, hdestroyed]
    exact hdisjoint a ha

theorem Reckoned.step (h : Reckoned gone e) :
    Reckoned (gone ++ destroyedIds (e.step root dt).journal) (e.step root dt).encounter := by
  refine ⟨fun a ha => isAlive_of_mem_step hroot hok ha, ?_⟩
  -- with the slain moved from the wave to those gone, the numbers are the same
  rw [h.destroyedIds_step hok, ids_step hroot hok, List.append_assoc]
  exact ((perm_ids dt e).append_left gone).nodup_iff.mpr h.distinct

end Step

/-! ### Whole courses -/

theorem isPositive_health_of_check {a : Tuning.Archetype} (h : a.check = .ok ()) :
    Tuning.isPositive a.health = true := by
  obtain ⟨-, hhealth, -⟩ := a.check_eq_ok_iff.mp h
  exact hhealth

/-- The numbers of a new wave are distinct, for there are no more than there are numbers. -/
theorem nodup_ids_spawn (setup : Setup) (count seed : UInt64) (traced : Bool) :
    ((spawn setup count seed traced).enemies.map enemyId).Nodup := by
  have hids : (spawn setup count seed traced).enemies.map enemyId =
      (List.range count.toNat).map UInt64.ofNat := by
    rw [spawn, List.map_map]
    rfl
  rw [hids, List.Nodup, List.pairwise_map]
  refine List.nodup_range.imp_of_mem ?_
  intro i j hi hj hne heq
  refine hne ?_
  have hbound := count.toNat_lt
  have hmod := congrArg UInt64.toNat heq
  -- both numbers are below the count, hence below `2^64`, so nothing wraps
  rw [UInt64.toNat_ofNat', UInt64.toNat_ofNat'] at hmod
  rw [List.mem_range] at hi hj
  rwa [Nat.mod_eq_of_lt (by omega), Nat.mod_eq_of_lt (by omega)] at hmod

/-- **A valid wave begins with the invariant.** -/
theorem reckoned_spawn {setup : Setup} (valid : setup.tuning.archetype.check = .ok ())
    (count seed : UInt64) (traced : Bool) : Reckoned [] (spawn setup count seed traced) where
  alive := by
    intro a ha
    obtain ⟨i, -, rfl⟩ := List.mem_map.mp ha
    exact (Bool.and_eq_true_iff.mp (isPositive_health_of_check valid)).2
  distinct := nodup_ids_spawn setup count seed traced

/-- The enemies destroyed in some steps, in order. -/
def destroyedIn (past : List Stepped) : List UInt64 :=
  past.flatMap fun s => destroyedIds s.journal

/-- **The invariant holds along every history.** -/
theorem Reckoned.history {start : Encounter} {past : List Stepped} (h : Reckoned [] start)
    (hroot : Enemy.IsEnemyTree root) (hist : History root start past e) :
    Reckoned (destroyedIn past) e := by
  -- on the steps of the history; the invariant is for those gone so far
  induction hist with
  | start => exact h
  | step _ dt ok ih =>
    have hstep := ih.step hroot ok
    rwa [destroyedIn, List.flatMap_append, List.flatMap_singleton]

theorem length_slain_add_length_spared (dt : Float32) (e : Encounter) :
    (e.slain dt).length + (e.spared dt).length = e.enemies.length := by
  simpa using (perm_ids dt e).length_eq

/-- What a run has counted and reported, for a wave of `n` to begin with. -/
structure Balanced (gone : List UInt64) (n : Nat) (p : Progress) : Prop where
  /-- The invariant holds with all those destroyed before and in the run. -/
  reckoned : Reckoned (gone ++ destroyedIds p.journal.toList) p.encounter
  /-- The summary knows how many there were. -/
  spawned : p.summary.spawned = n
  /-- Whoever was there is there or was removed. -/
  balance : p.encounter.enemies.length + p.summary.reaped = n
  /-- Every report balances too. -/
  reports : ∀ step time seek patrol reaped,
    .progress step time seek patrol reaped ∈ p.journal.toList → seek + patrol + reaped = n

/-- **A step of a run keeps the balance.** -/
theorem Balanced.next {n : Nat} {p : Progress} (h : Balanced gone n p)
    (hroot : Enemy.IsEnemyTree root) (hok : (p.encounter.step root dt).tally = .ok tally) :
    Balanced gone n (p.next root dt tally) := by
  have hreckoned := h.reckoned.step hroot hok
  have haccounts := h.reckoned.accounts hroot hok
  have hbalance : (p.next root dt tally).encounter.enemies.length +
      (p.next root dt tally).summary.reaped = n := by
    have hlength := length_slain_add_length_spared dt p.encounter
    have hleft : (p.encounter.step root dt).encounter.enemies.length =
        (p.encounter.spared dt).length := by rw [enemies_step hok, List.length_map]
    have hreaped : tally.reaped = (p.encounter.slain dt).length := by rw [tally_step hok]
    have hb := h.balance
    -- those left after the step, those removed before it and those removed by it
    change (p.encounter.step root dt).encounter.enemies.length +
      (p.summary.reaped + tally.reaped) = n
    omega
  refine ⟨?_, h.spawned, hbalance, ?_⟩
  · rw [Progress.toList_journal_next, destroyedIds_append, destroyedIds_append,
      destroyedIds_periodicReport, List.append_nil, ← List.append_assoc]
    exact hreckoned
  · intro step time seek patrol reaped hmem
    rw [Progress.toList_journal_next, List.mem_append, List.mem_append] at hmem
    obtain (hmem | hmem) | hmem := hmem
    · exact h.reports _ _ _ _ _ hmem
    · -- a step makes no periodic report itself
      obtain ⟨enemy, h⟩ | ⟨r, h⟩ := destroyed_or_remark_of_mem_step hmem <;>
        exact absurd h (by simp)
    · simp only [periodicReport] at hmem
      split at hmem
      · -- the report is the census of those left, none of whom is dead
        obtain ⟨-, -, rfl, rfl, rfl⟩ := Happening.progress.inj (List.mem_singleton.mp hmem)
        have hregimes : (Census.of (p.next root dt tally).encounter.enemies).seek +
            (Census.of (p.next root dt tally).encounter.enemies).patrol =
              (p.next root dt tally).encounter.enemies.length := haccounts.regimes
        omega
      · exact absurd hmem List.not_mem_nil

theorem Balanced.concluded {n : Nat} {p : Progress} (h : Balanced gone n p) :
    Balanced gone n p.concluded := by
  refine ⟨?_, h.spawned, h.balance, ?_⟩
  · have hjournal : destroyedIds p.concluded.journal.toList = destroyedIds p.journal.toList := by
      simp [Progress.concluded, destroyedIds, Happening.destroyed?]
    rw [hjournal]
    exact h.reckoned
  · intro step time seek patrol reaped hmem
    simp only [Progress.concluded, Array.toList_push, List.mem_append, List.mem_singleton] at hmem
    obtain hmem | hmem := hmem
    · exact h.reports _ _ _ _ _ hmem
    · exact absurd hmem (by simp)

/-- **Kills are accounted for,** in each step of every history of a valid wave, over the history as
a whole, and in the summary and the reports of every run that goes on from it. -/
theorem accounts_of_history {setup : Setup} (valid : setup.tuning.archetype.check = .ok ())
    {root : Enemy.EnemyNode} (hroot : Enemy.IsEnemyTree root) (count seed : UInt64) (traced : Bool)
    {past : List Stepped} {e : Encounter}
    (hist : History root (spawn setup count seed traced) past e) :
    (∀ dt tally, (e.step root dt).tally = .ok tally → Accounts root dt e tally) ∧
    (destroyedIn past).Nodup ∧
    ∀ steps dt s, (e.run root steps dt).summary = .ok s →
      s.spawned = e.enemies.length ∧ s.spawned = s.survivors + s.reaped ∧
      (∀ step time seek patrol reaped,
        .progress step time seek patrol reaped ∈ (e.run root steps dt).journal →
          seek + patrol + reaped = s.spawned) ∧
      (destroyedIn past ++ destroyedIds (e.run root steps dt).journal.toList).Nodup := by
  have hreckoned := (reckoned_spawn valid count seed traced).history hroot hist
  refine ⟨fun dt tally hok => hreckoned.accounts hroot hok,
    (List.nodup_append.mp hreckoned.distinct).1, fun steps dt s hs => ?_⟩
  have hbegin : Balanced (destroyedIn past) e.enemies.length e.beginning := by
    refine ⟨?_, rfl, rfl, fun _ _ _ _ _ hmem => absurd hmem (by simp [beginning])⟩
    rwa [beginning, destroyedIds, Array.toList_empty, List.filterMap_nil, List.append_nil]
  -- `Balanced` is what the run keeps; the history has handed over those gone before it
  obtain ⟨m, -, p, hp, -, hjournal, rfl⟩ := run_rule
    (P := fun _ p => Balanced (destroyedIn past) e.enemies.length p)
    (fun _ _ _ hp hok => hp.next hroot hok) (fun _ _ hp _ => hp.concluded) hbegin hs
  rw [hjournal]
  refine ⟨hp.spawned, by rw [hp.spawned, hp.balance], ?_, ?_⟩
  · intro step time seek patrol reaped hmem
    rw [hp.spawned]
    exact hp.reports _ _ _ _ _ (Array.mem_toList_iff.mpr hmem)
  · exact (List.nodup_append.mp hp.reckoned.distinct).1

/-- A lone enemy that appears right at the target, whose weapon destroys it within a second. -/
def pointBlank : Setup :=
  ⟨.usual, ⟨0, 0, 0, 1, 1000, 1, []⟩⟩

set_option maxRecDepth 8000 in
/-- The lone enemy is accounted for. -/
theorem accounts_pointBlank :
    Accounts (Enemy.tree .usual) 1 (spawn pointBlank 1 7 true) ⟨0, 1, 0, 0, 0⟩ ∧
    (destroyedIn [(spawn pointBlank 1 7 true).step (Enemy.tree .usual) 1]).Nodup ∧
    ((spawn pointBlank 1 7 true).run (Enemy.tree .usual) 5 1).summary = .ok ⟨1, 1, 0, 1, []⟩ ∧
    ∀ step time seek patrol reaped,
      .progress step time seek patrol reaped ∈
          ((spawn pointBlank 1 7 true).run (Enemy.tree .usual) 5 1).journal →
        seek + patrol + reaped = 1 := by
  have hvalid : pointBlank.tuning.archetype.check = .ok () := rfl
  have hroot : Enemy.IsEnemyTree (Enemy.tree .usual) := .plain .usual
  have htally : ((spawn pointBlank 1 7 true).step (Enemy.tree .usual) 1).tally =
      .ok ⟨0, 1, 0, 0, 0⟩ := rfl
  have hrun : ((spawn pointBlank 1 7 true).run (Enemy.tree .usual) 5 1).summary =
      .ok ⟨1, 1, 0, 1, []⟩ := by
    rw [run, show (5 : UInt64).toNat = 4 + 1 from rfl]
    rw [runMore_succ (p := ⟨spawn pointBlank 1 7 true, _, _⟩) htally]
    rfl
  have hstart := accounts_of_history hvalid hroot 1 7 true .start
  have hstep := accounts_of_history hvalid hroot 1 7 true (.step .start 1 htally)
  exact ⟨hstart.1 1 _ htally, hstep.2.1, hrun, (hstart.2.2 5 1 _ hrun).2.2.1⟩

end Encounter

end Skirmish
