import Mathlib
import Skirmish.Proofs.Encounter.Accounting
import Skirmish.Random.Replay

/-!
# Seeds and periods

Neither mixing nor the step of the generator maps two words to one:

* `mix_bijective` — mixing;
* `SplitMix.full_period` — so the generator yields each word once before it repeats one;
* `derived_seeds_differ` — and the enemies of a wave have generators of their own.
-/

/-! ## Mixing loses nothing

The mixing function is made of steps of two kinds, and neither maps two words to one.

* `xorShift_injective` — a word with itself shifted down: what two such words differ in would be its
  own shift, and only zero is;
* `mul_injective` — a multiplication by a factor that has an inverse, as all odd ones have;
* `mix_bijective` — so every word is the mixture of exactly one word;
* `deriveSeed_injective_seed`, `deriveSeed_injective_agent` and `deriveSeed_injective_stream` — a
  seed derived from three words shows each of them, if the other two are known.
-/

namespace Skirmish.Random

open Function (Bijective Injective)

/-- **Only zero is its own shift.** Every other word gets smaller. -/
theorem eq_zero_of_eq_shiftRight {x k : UInt64} (hk : k.toNat % 64 ≠ 0) (h : x = x >>> k) :
    x = 0 := by
  have hdiv : x.toNat = x.toNat / 2 ^ (k.toNat % 64) := by
    rw [← Nat.shiftRight_eq_div_pow, ← UInt64.toNat_shiftRight, ← h]
  have hpow : 1 < 2 ^ (k.toNat % 64) := Nat.one_lt_two_pow hk
  -- a word above zero is not its own quotient by two or more
  refine UInt64.toNat_inj.mp ?_
  by_contra hne
  exact absurd hdiv (Nat.div_lt_self (Nat.pos_of_ne_zero hne) hpow).ne'

theorem xorShift_injective {k : UInt64} (hk : k.toNat % 64 ≠ 0) :
    Injective fun x : UInt64 => x ^^^ (x >>> k) := by
  intro x y h
  -- shifting goes through what the words differ in
  have hsum : (x ^^^ y) ^^^ ((x ^^^ y) >>> k) = (x ^^^ (x >>> k)) ^^^ (y ^^^ (y >>> k)) := by
    rw [UInt64.shiftRight_xor]
    ac_rfl
  have hzero : (x ^^^ y) ^^^ ((x ^^^ y) >>> k) = 0 := by
    rw [hsum]
    exact UInt64.xor_eq_zero_iff.mpr h
  exact UInt64.xor_eq_zero_iff.mp (eq_zero_of_eq_shiftRight hk (UInt64.xor_eq_zero_iff.mp hzero))

theorem mul_injective {factor inverse : UInt64} (h : factor * inverse = 1) :
    Injective fun x : UInt64 => x * factor := by
  refine Function.LeftInverse.injective (g := fun x => x * inverse) fun x => ?_
  change x * factor * inverse = x
  rw [UInt64.mul_assoc, h, UInt64.mul_one]

theorem mix_bijective : Bijective mix := by
  have hfirst : Injective fun x : UInt64 => x ^^^ (x >>> 30) := xorShift_injective (by decide)
  -- an odd factor has an inverse modulo `2 ^ 64`, which is checked by multiplying
  have hsecond : Injective fun x : UInt64 => x * 0xbf58476d1ce4e5b9 :=
    mul_injective (show (0xbf58476d1ce4e5b9 : UInt64) * 0x96de1b173f119089 = 1 by decide)
  have hthird : Injective fun x : UInt64 => x ^^^ (x >>> 27) := xorShift_injective (by decide)
  have hfourth : Injective fun x : UInt64 => x * 0x94d049bb133111eb :=
    mul_injective (show (0x94d049bb133111eb : UInt64) * 0x319642b2d24d8ec3 = 1 by decide)
  have hlast : Injective fun x : UInt64 => x ^^^ (x >>> 31) := xorShift_injective (by decide)
  -- there are finitely many words, so injective steps leave none out
  exact Finite.injective_iff_bijective.mp
    (hlast.comp (hfourth.comp (hthird.comp (hsecond.comp hfirst))))

/-! ### Derived seeds -/

theorem deriveSeed_injective_seed (agent stream : UInt64) :
    Injective fun globalSeed => deriveSeed globalSeed agent stream := by
  intro seed seed' h
  have hmixed := mix_bijective.injective h
  rwa [UInt64.xor_left_inj, UInt64.xor_left_inj] at hmixed

theorem deriveSeed_injective_agent (globalSeed stream : UInt64) :
    Injective fun agent => deriveSeed globalSeed agent stream := by
  intro agent agent' h
  have hmixed := mix_bijective.injective h
  rw [UInt64.xor_left_inj, UInt64.xor_right_inj] at hmixed
  -- the agent is mixed twice, inside and outside
  exact (UInt64.add_left_inj goldenStep).mp (mix_bijective.injective hmixed)

theorem deriveSeed_injective_stream (globalSeed agent : UInt64) :
    Injective fun stream => deriveSeed globalSeed agent stream := by
  intro stream stream' h
  have hmixed := mix_bijective.injective h
  rw [UInt64.xor_right_inj] at hmixed
  exact mix_bijective.injective hmixed

end Skirmish.Random

/-! ## The period of the generator

The generator counts in steps of an odd number. So it passes every word before it passes one again,
and as mixing maps no two words to one, the words that are drawn take turns in the same way.

* `after` and `wordAfter` — a source after some draws, and the word that it yields then;
* `SplitMix.state_after` — where the counter is;
* `SplitMix.wordAfter_eq_iff` — which draws yield the same word;
* `SplitMix.full_period` — the words one by one, and how often each of them is drawn.
-/

namespace Skirmish.Random

section Sources

variable {σ : Type} [WordSource σ]

def after (n : ℕ) (s : σ) : σ :=
  (fun s => (drawWord s).2)^[n] s

/-- **The word that is drawn next** after some draws. -/
def wordAfter (n : ℕ) (s : σ) : UInt64 :=
  (drawWord (after n s)).1

theorem after_succ (n : ℕ) (s : σ) : after (n + 1) s = (drawWord (after n s)).2 :=
  Function.iterate_succ_apply' _ n s

end Sources

namespace SplitMix

variable {i j n : ℕ} {s : SplitMix}

theorem state_after (n : ℕ) (s : SplitMix) :
    (after n s).state = s.state + UInt64.ofNat n * goldenStep := by
  -- on the draws
  induction n with
  | zero =>
    change s.state = s.state + 0 * goldenStep
    rw [UInt64.zero_mul, UInt64.add_zero]
  | succ n ih =>
    rw [after_succ]
    change (after n s).state + goldenStep = _
    have hone : UInt64.ofNat 1 * goldenStep = goldenStep := UInt64.one_mul goldenStep
    rw [ih, UInt64.ofNat_add, UInt64.add_mul, hone, UInt64.add_assoc]

theorem wordAfter_eq (n : ℕ) (s : SplitMix) :
    wordAfter n s = mix (s.state + UInt64.ofNat (n + 1) * goldenStep) := by
  rw [← state_after, after_succ]
  rfl

/-- **An odd step** leads to a word again only after all words. -/
theorem ofNat_mul_goldenStep_inj :
    UInt64.ofNat i * goldenStep = UInt64.ofNat j * goldenStep ↔ i ≡ j [MOD 2 ^ 64] := by
  -- an inverse of the step
  have hodd : goldenStep * 0xf1de83e19937733d = 1 := by decide
  rw [(mul_injective hodd).eq_iff, UInt64.ofNat_eq_iff_mod_eq_toNat, UInt64.toNat_ofNat']
  rfl

theorem state_after_eq_iff :
    (after i s).state = (after j s).state ↔ i ≡ j [MOD 2 ^ 64] := by
  rw [state_after, state_after, UInt64.add_right_inj, ofNat_mul_goldenStep_inj]

theorem wordAfter_eq_iff : wordAfter i s = wordAfter j s ↔ i ≡ j [MOD 2 ^ 64] := by
  rw [wordAfter_eq, wordAfter_eq, mix_bijective.injective.eq_iff, UInt64.add_right_inj,
    ofNat_mul_goldenStep_inj]
  -- the counter is moved before the word is mixed, so both sides are one step ahead
  exact ⟨Nat.ModEq.add_right_cancel' 1, Nat.ModEq.add_right 1⟩

theorem after_eq_self_iff : after n s = s ↔ 2 ^ 64 ∣ n := by
  have hstate : after n s = s ↔ (after n s).state = (after 0 s).state :=
    ⟨congrArg SplitMix.state, fun h => congrArg SplitMix.mk h⟩
  rw [hstate, state_after_eq_iff, Nat.modEq_zero_iff_dvd]

theorem exists_wordAfter_eq (s : SplitMix) (w : UInt64) : ∃ n < 2 ^ 64, wordAfter n s = w := by
  -- words are taken for the numbers of draws, so that both sides are of one type
  have hinjective : Function.Injective fun k : UInt64 => wordAfter k.toNat s := by
    intro k k' h
    have hmod : k.toNat % 2 ^ 64 = k'.toNat % 2 ^ 64 := wordAfter_eq_iff.mp h
    rw [Nat.mod_eq_of_lt k.toNat_lt, Nat.mod_eq_of_lt k'.toNat_lt] at hmod
    exact UInt64.toNat_inj.mp hmod
  -- there are as many draws as words, so none is left out
  obtain ⟨k, hk⟩ := (Finite.injective_iff_surjective.mp hinjective) w
  exact ⟨k.toNat, k.toNat_lt, hk⟩

/-- **The generator has full period.** Each word is the mixture of the seed and of as many steps as
there were draws. Two draws yield the same word only if they are a multiple of `2 ^ 64` draws apart,
and among the first `2 ^ 64` draws each word is drawn once. Then the generator is what it was at
first, and it never is before. -/
theorem full_period (seed : UInt64) :
    (∀ n, wordAfter n (⟨seed⟩ : SplitMix) =
      mix (seed + UInt64.ofNat (n + 1) * 0x9e3779b97f4a7c15)) ∧
    (∀ i j, wordAfter i (⟨seed⟩ : SplitMix) = wordAfter j (⟨seed⟩ : SplitMix) ↔
      i ≡ j [MOD 2 ^ 64]) ∧
    (∀ w, ∃! n, n < 2 ^ 64 ∧ wordAfter n (⟨seed⟩ : SplitMix) = w) ∧
    ∀ n, after n (⟨seed⟩ : SplitMix) = ⟨seed⟩ ↔ 2 ^ 64 ∣ n := by
  refine ⟨fun n => wordAfter_eq n ⟨seed⟩, fun i j => wordAfter_eq_iff, fun w => ?_,
    fun n => after_eq_self_iff⟩
  obtain ⟨n, hn, hw⟩ := exists_wordAfter_eq ⟨seed⟩ w
  refine ⟨n, ⟨hn, hw⟩, ?_⟩
  rintro n' ⟨hn', hw'⟩
  have hmod : n' % 2 ^ 64 = n % 2 ^ 64 := wordAfter_eq_iff.mp (hw'.trans hw.symm)
  rwa [Nat.mod_eq_of_lt hn', Nat.mod_eq_of_lt hn] at hmod

end SplitMix

end Skirmish.Random

/-! ## Every enemy of a wave has its own generator

The enemies of a wave are numbered, and their generators start at seeds that are derived from these
numbers and from the one seed of the wave. As a derived seed shows the number
(`Random.deriveSeed_injective_agent`), no two enemies of a wave draw from one generator.
-/

namespace Skirmish.Encounter

open Skirmish.Random (deriveSeed mix)

variable (setup : Setup) (count seed : UInt64) (traced : Bool)

theorem generator_spawnEnemy (id : UInt64) :
    (spawnEnemy setup count seed traced id).board.generator = ⟨deriveSeed seed id 0⟩ := rfl

theorem enemies_spawn :
    (spawn setup count seed traced).enemies =
      (List.range count.toNat).map fun id =>
        spawnEnemy setup count seed traced (UInt64.ofNat id) := rfl

theorem generators_spawn :
    (spawn setup count seed traced).enemies.map (·.board.generator) =
      ((spawn setup count seed traced).enemies.map enemyId).map
        fun id => ⟨deriveSeed seed id 0⟩ := by
  rw [enemies_spawn, List.map_map, List.map_map, List.map_map]
  exact List.map_congr_left fun id _ =>
    generator_spawnEnemy setup count seed traced (UInt64.ofNat id)

/-- **Derived seeds never collide.** Mixing maps the words to the words, one to one. A derived seed
shows each of the words that it is derived from, if the other two are known. So of a wave of any
size, however it was seeded, there is one generator for each enemy, and no two of them are the same.
-/
theorem derived_seeds_differ :
    Function.Bijective mix ∧
    (∀ agent stream, Function.Injective fun globalSeed => deriveSeed globalSeed agent stream) ∧
    (∀ globalSeed stream, Function.Injective fun agent => deriveSeed globalSeed agent stream) ∧
    (∀ globalSeed agent, Function.Injective fun stream => deriveSeed globalSeed agent stream) ∧
    ∀ (setup : Setup) (count seed : UInt64) (traced : Bool),
      let generators := (spawn setup count seed traced).enemies.map (·.board.generator)
      generators.length = count.toNat ∧ generators.Nodup := by
  refine ⟨Random.mix_bijective, Random.deriveSeed_injective_seed, Random.deriveSeed_injective_agent,
    Random.deriveSeed_injective_stream, fun setup count seed traced => ⟨?_, ?_⟩⟩
  · rw [List.length_map, enemies_spawn, List.length_map, List.length_range]
  · -- equal generators have equal seeds, and these show the numbers
    have hshows : Function.Injective fun id => (⟨deriveSeed seed id 0⟩ : Random.SplitMix) :=
      fun _ _ h => Random.deriveSeed_injective_agent seed 0 (congrArg Random.SplitMix.state h)
    rw [generators_spawn]
    exact (nodup_ids_spawn setup count seed traced).map hshows

end Skirmish.Encounter
