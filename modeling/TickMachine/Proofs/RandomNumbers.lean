import Mathlib.Data.Finset.Prod
import Mathlib.NumberTheory.Multiplicity
import Mathlib.Tactic.LinearCombination
import TickMachine.Peripherals.Headless

/-!
# The period of the random generator

The generator multiplies its state, adds a number to it and keeps 32 bits.  The multiplier is one
more than a multiple of four and the increment is odd, and from that alone it follows that from
every state the generator runs through all states before it comes back.  So in every stretch of
`2^32` random numbers all numbers of 15 bits come equally often.

* `affine`   multiplying and adding on integers, where nothing is lost;
* `emultiplicity_iterate_sub`   how many low bits of the state have come back after `n` numbers: as
                       many as `n` has zeros at its end;
* `Headless.iterate_nextSeed_eq_iff`   when the whole state has come back;
* `Headless.image_states`   in `2^32` numbers every state comes up;
* `Headless.card_states`   how many states give a number;
* `Headless.random_full_period`   the period, and how often every number comes.
-/

namespace TickMachine

/-! ## multiplying and adding -/

def affine (a c x : ℤ) : ℤ := a * x + c

section
variable {a c : ℤ}

/-- Up to the factor `a - 1` and an offset, `n` steps multiply by `a ^ n`. -/
theorem iterate_affine (n : ℕ) (x : ℤ) :
    (a - 1) * (affine a c)^[n] x + c = a ^ n * ((a - 1) * x + c) := by
  induction n generalizing x with
  | zero =>
    show (a - 1) * x + c = a ^ 0 * ((a - 1) * x + c)
    ring
  | succ n ih =>
    rw [Function.iterate_succ_apply, ih]
    unfold affine
    ring

/-- The low bits that have come back after `n` steps. -/
theorem emultiplicity_iterate_sub (ha : 4 ∣ a - 1) (ha1 : a ≠ 1) (hc : ¬ 2 ∣ c) (n : ℕ) (x : ℤ) :
    emultiplicity 2 ((affine a c)^[n] x - x) = emultiplicity 2 (n : ℤ) := by
  have hodd : ¬ 2 ∣ (a - 1) * x + c := by
    have heven : 2 ∣ (a - 1) * x := Dvd.dvd.mul_right (by omega) x
    omega
  have hdiff : (a - 1) * ((affine a c)^[n] x - x) = (a ^ n - 1 ^ n) * ((a - 1) * x + c) := by
    have h := iterate_affine (a := a) (c := c) n x
    rw [one_pow]
    linear_combination h
  have hfactors := congrArg (emultiplicity 2) hdiff
  rw [emultiplicity_mul Int.prime_two, emultiplicity_mul Int.prime_two,
    emultiplicity_eq_zero.mpr hodd, add_zero, Int.two_pow_sub_pow' n ha (by omega)] at hfactors
  have hfinite : emultiplicity 2 (a - 1) ≠ ⊤ :=
    finiteMultiplicity_iff_emultiplicity_ne_top.mp
      (Int.finiteMultiplicity_iff.mpr ⟨by decide, by omega⟩)
  exact WithTop.add_left_cancel hfinite hfactors

theorem two_pow_dvd_iterate_sub (ha : 4 ∣ a - 1) (ha1 : a ≠ 1) (hc : ¬ 2 ∣ c) (k n : ℕ) (x : ℤ) :
    2 ^ k ∣ (affine a c)^[n] x - x ↔ 2 ^ k ∣ n := by
  rw [pow_dvd_iff_le_emultiplicity, emultiplicity_iterate_sub ha ha1 hc,
    ← pow_dvd_iff_le_emultiplicity]
  exact_mod_cast Iff.rfl

end

namespace Headless

/-! ## the states of the generator -/

theorem nextSeed_modEq (s : UInt32) :
    ((nextSeed s).toNat : ℤ) ≡ affine 1103515245 12345 s.toNat [ZMOD 2 ^ 32] := by
  have hnat : (nextSeed s).toNat = (s.toNat * 1103515245 % 2 ^ 32 + 12345) % 2 ^ 32 := by
    rw [nextSeed, UInt32.toNat_add, UInt32.toNat_mul]
    rfl
  unfold Int.ModEq affine
  rw [hnat]
  omega

theorem iterate_nextSeed_modEq (n : ℕ) (s : UInt32) :
    ((nextSeed^[n] s).toNat : ℤ) ≡ (affine 1103515245 12345)^[n] s.toNat [ZMOD 2 ^ 32] := by
  induction n with
  | zero => rfl
  | succ n ih =>
    rw [Function.iterate_succ_apply', Function.iterate_succ_apply']
    exact (nextSeed_modEq _).trans ((ih.mul_left _).add_right _)

theorem iterate_nextSeed_eq_iff (n : ℕ) (s : UInt32) : nextSeed^[n] s = s ↔ 2 ^ 32 ∣ n := by
  have hback : (s.toNat : ℤ) ≡ (nextSeed^[n] s).toNat [ZMOD 2 ^ 32] ↔ 2 ^ 32 ∣ n := by
    rw [← two_pow_dvd_iterate_sub (a := 1103515245) (c := 12345) (by decide) (by decide) (by decide)
      32 n s.toNat, ← Int.modEq_iff_dvd]
    have hstate := iterate_nextSeed_modEq n s
    exact ⟨fun h => h.trans hstate, fun h => h.trans hstate.symm⟩
  rw [← hback]
  constructor
  · intro h
    rw [h]
  · intro h
    have hs := s.toNat_lt
    have hn := (nextSeed^[n] s).toNat_lt
    have hnat : s.toNat ≡ (nextSeed^[n] s).toNat [MOD 2 ^ 32] := by exact_mod_cast h
    exact UInt32.toNat_inj.mp (hnat.eq_of_lt_of_lt hs hn).symm

theorem injOn_states (s : UInt32) :
    Set.InjOn (fun i => (nextSeed^[i] s).toNat) (Finset.range (2 ^ 32)) := by
  -- of two equal states the later one has come back to the earlier one
  have hle : ∀ i j, i ≤ j → j < 2 ^ 32 → nextSeed^[i] s = nextSeed^[j] s → i = j := by
    intro i j hij hj h
    have hj' : nextSeed^[j - i] (nextSeed^[i] s) = nextSeed^[i] s := by
      rw [← Function.iterate_add_apply, Nat.sub_add_cancel hij, h]
    have hdvd := (iterate_nextSeed_eq_iff _ _).mp hj'
    have hzero : j - i = 0 := Nat.eq_zero_of_dvd_of_lt hdvd (by omega)
    omega
  intro i hi j hj h
  rw [Finset.mem_coe, Finset.mem_range] at hi hj
  have hstate : nextSeed^[i] s = nextSeed^[j] s := UInt32.toNat_inj.mp h
  rcases Nat.le_total i j with hij | hij
  · exact hle i j hij hj hstate
  · exact (hle j i hij hi hstate.symm).symm

theorem image_states (s : UInt32) :
    (Finset.range (2 ^ 32)).image (fun i => (nextSeed^[i] s).toNat) = Finset.range (2 ^ 32) := by
  apply Finset.eq_of_subset_of_card_le
  · intro w hw
    obtain ⟨i, -, rfl⟩ := Finset.mem_image.mp hw
    exact Finset.mem_range.mpr (nextSeed^[i] s).toNat_lt
  · rw [Finset.card_image_of_injOn (injOn_states s)]

theorem card_filter_states (s : UInt32) (P : ℕ → Prop) [DecidablePred P] :
    ((Finset.range (2 ^ 32)).filter fun i => P (nextSeed^[i] s).toNat).card =
      ((Finset.range (2 ^ 32)).filter P).card := by
  conv_rhs => rw [← image_states s, Finset.filter_image]
  have hsubset := Finset.coe_subset.mpr
    (Finset.filter_subset (fun i => P (nextSeed^[i] s).toNat) (Finset.range (2 ^ 32)))
  rw [Finset.card_image_of_injOn ((injOn_states s).mono hsubset)]

/-! ## the numbers of the states -/

theorem toInt_randomValue (s : UInt32) :
    (randomValue s).toInt = ((s.toNat / 2 ^ 16 % 2 ^ 15 : ℕ) : ℤ) := by
  have hbits : ((s >>> 16) &&& 0x7fff).toNat = s.toNat / 2 ^ 16 % 2 ^ 15 := by
    rw [UInt32.toNat_and, UInt32.toNat_shiftRight]
    show (s.toNat >>> 16) &&& (2 ^ 15 - 1) = _
    rw [Nat.and_two_pow_sub_one_eq_mod, Nat.shiftRight_eq_div_pow]
  show ((s >>> 16) &&& 0x7fff).toUInt16.toBitVec.toInt = _
  have hlt : s.toNat / 2 ^ 16 % 2 ^ 15 < 2 ^ 15 := Nat.mod_lt _ (Nat.two_pow_pos 15)
  rw [BitVec.toInt_eq_toNat_bmod, UInt16.toNat_toBitVec, UInt32.toNat_toUInt16, hbits,
    Nat.mod_eq_of_lt (by omega)]
  exact Int.bmod_eq_of_le (by omega) (by omega)

/-- The lowest bits and the highest bit of a state do not tell in its number. -/
theorem card_states {k : ℕ} (hk : k < 2 ^ 15) :
    ((Finset.range (2 ^ 32)).filter fun w => w / 2 ^ 16 % 2 ^ 15 = k).card = 2 ^ 17 := by
  have hpairs : ((Finset.range 2) ×ˢ (Finset.range (2 ^ 16))).card = 2 ^ 17 := by
    rw [Finset.card_product, Finset.card_range, Finset.card_range, ← pow_succ']
  rw [← hpairs]
  refine Finset.card_bij' (fun w _ => (w / 2 ^ 31, w % 2 ^ 16))
    (fun hl _ => hl.1 * 2 ^ 31 + k * 2 ^ 16 + hl.2) ?_ ?_ ?_ ?_
  · intro w hw
    obtain ⟨hlt, hnumber⟩ := Finset.mem_filter.mp hw
    rw [Finset.mem_range] at hlt
    rw [Finset.mem_product, Finset.mem_range, Finset.mem_range]
    omega
  · rintro ⟨high, low⟩ hl
    obtain ⟨hhigh, hlow⟩ := Finset.mem_product.mp hl
    rw [Finset.mem_range] at hhigh hlow
    rw [Finset.mem_filter, Finset.mem_range]
    omega
  · intro w hw
    obtain ⟨hlt, hnumber⟩ := Finset.mem_filter.mp hw
    rw [Finset.mem_range] at hlt
    dsimp only
    omega
  · rintro ⟨high, low⟩ hl
    obtain ⟨hhigh, hlow⟩ := Finset.mem_product.mp hl
    rw [Finset.mem_range] at hhigh hlow
    rw [Prod.mk.injEq]
    omega

theorem card_randomValue (s : UInt32) (v : Value) :
    ((Finset.range (2 ^ 32)).filter fun i => randomValue (nextSeed^[i] s) = v).card =
      if 0 ≤ v then 2 ^ 17 else 0 := by
  have hvalue : ∀ w : UInt32, randomValue w = v ↔
      ((w.toNat / 2 ^ 16 % 2 ^ 15 : ℕ) : ℤ) = v.toInt := by
    intro w
    rw [← Int16.toInt_inj, toInt_randomValue]
  simp only [hvalue]
  rw [card_filter_states s fun w => ((w / 2 ^ 16 % 2 ^ 15 : ℕ) : ℤ) = v.toInt]
  have hlt := v.toInt_lt
  have hsign : 0 ≤ v ↔ 0 ≤ v.toInt := by
    rw [Int16.le_iff_toInt_le, Int16.toInt_zero]
  by_cases hv : 0 ≤ v.toInt
  · obtain ⟨k, hk⟩ := Int.eq_ofNat_of_zero_le hv
    rw [if_pos (hsign.mpr hv), hk]
    simp only [Int.natCast_inj]
    exact card_states (by omega)
  · rw [if_neg (mt hsign.mp hv), Finset.card_eq_zero, Finset.filter_eq_empty_iff]
    intro w _
    omega

/-! ## drawing random numbers -/

def drawn (h : Headless) (n : ℕ) : Headless := (fun h => (peripherals.answer .random h).2)^[n] h

/-- The random number that is answered after `n` others. -/
def nthRandom (h : Headless) (n : ℕ) : Value := (peripherals.answer .random (h.drawn n)).1

theorem seed_drawn (h : Headless) (n : ℕ) : (h.drawn n).seed = nextSeed^[n] h.seed := by
  unfold drawn
  induction n with
  | zero => rfl
  | succ n ih =>
    rw [Function.iterate_succ_apply', Function.iterate_succ_apply', ← ih]
    rfl

theorem nthRandom_eq (h : Headless) (n : ℕ) :
    h.nthRandom n = randomValue (nextSeed^[n + 1] h.seed) := by
  rw [Function.iterate_succ_apply', ← seed_drawn]
  rfl

/-- **The random generator has full period.**  From every state it comes back for the first time
after `2^32` random numbers; and of any `2^32` random numbers that follow one another, every value
that is not negative is one `2^17` times, and no other ever. -/
theorem random_full_period (h : Headless) :
    IsLeast {n | 0 < n ∧ (h.drawn n).seed = h.seed} (2 ^ 32) ∧
    ∀ (start : ℕ) (v : Value),
      ((Finset.range (2 ^ 32)).filter fun i => h.nthRandom (start + i) = v).card =
        if 0 ≤ v then 2 ^ 17 else 0 := by
  refine ⟨⟨⟨Nat.two_pow_pos 32, ?_⟩, ?_⟩, fun start v => ?_⟩
  · rw [seed_drawn]
    exact (iterate_nextSeed_eq_iff _ _).mpr (Nat.dvd_refl _)
  · rintro n ⟨hpos, hback⟩
    rw [seed_drawn] at hback
    exact Nat.le_of_dvd hpos ((iterate_nextSeed_eq_iff n h.seed).mp hback)
  · have hstate : ∀ i, h.nthRandom (start + i) =
        randomValue (nextSeed^[i] (nextSeed^[start + 1] h.seed)) := by
      intro i
      rw [nthRandom_eq, ← Function.iterate_add_apply, Nat.add_right_comm, Nat.add_comm]
    simp only [hstate]
    exact card_randomValue _ v

end Headless
end TickMachine
