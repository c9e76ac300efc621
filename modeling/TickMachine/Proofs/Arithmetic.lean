import Mathlib.Algebra.Group.Int.Defs
import Mathlib.Algebra.Group.Nat.Defs
import TickMachine.Peripherals.Headless
import TickMachine.Proofs.Rules

/-!
# Arithmetic of the built-ins

The arithmetic built-ins compute in 32 bits and give the low 16 bits of the result.  What they give
is the residue modulo `2^16` of the exact integer result, and but for a shift to the left the 32
bits hold that result itself.

* `Builtin.exactResult?`   the exact result of an arithmetic built-in;
* `Value.toInt_wide_add`, ..., `Value.toInt_wide_shr`   the 32-bit results as integers;
* `Exec.returns_invoke_exact`   a built-in gives the residue of its exact result;
* `Exec.fails_invoke_iff`   it fails only on a division by zero;
* `Exec.arithmetic_law`   all of it, and that quotient and remainder make up the dividend.
-/

namespace TickMachine

variable {σ : Type}

/-! ## 32-bit results -/

theorem bmod_of_natAbs_lt {z : Int} (h : z.natAbs < 2 ^ 31) : z.bmod (2 ^ 32) = z :=
  Int.bmod_eq_of_le (by omega) (by omega)

namespace Value

@[simp] theorem toInt_wide (v : Value) : (wide v).toInt = v.toInt := Int16.toInt_toInt32 v

theorem narrow_eq_ofInt (w : Int32) : narrow w = Int16.ofInt w.toInt :=
  (Int16.ofInt_int32ToInt w).symm

theorem narrow_of_toInt {w : Int32} {z : Int} (h : w.toInt = z) : narrow w = Int16.ofInt z := by
  rw [narrow_eq_ofInt, h]

/-- Narrowing takes no harm from a 32-bit result that is right modulo `2^32` only. -/
theorem narrow_of_bmod {w : Int32} {z : Int} (h : w.toInt = z.bmod (2 ^ 32)) :
    narrow w = Int16.ofInt z := by
  rw [narrow_eq_ofInt, h, ← Int16.toInt_inj, Int16.toInt_ofInt, Int16.toInt_ofInt]
  exact Int.bmod_bmod_of_dvd (by decide)

theorem natAbs_toInt_le (v : Value) : v.toInt.natAbs ≤ 2 ^ 15 := by
  have hlo := v.le_toInt
  have hhi := v.toInt_lt
  omega

variable (a b : Value)

theorem natAbs_toInt_mul_le : (a.toInt * b.toInt).natAbs ≤ 2 ^ 30 := by
  calc (a.toInt * b.toInt).natAbs = a.toInt.natAbs * b.toInt.natAbs := Int.natAbs_mul ..
    _ ≤ 2 ^ 15 * 2 ^ 15 := Nat.mul_le_mul (natAbs_toInt_le a) (natAbs_toInt_le b)
    _ = 2 ^ 30 := rfl

theorem toInt_wide_add : (wide a + wide b).toInt = a.toInt + b.toInt := by
  have ha := natAbs_toInt_le a
  have hb := natAbs_toInt_le b
  rw [Int32.toInt_add, toInt_wide, toInt_wide, bmod_of_natAbs_lt (by omega)]

theorem toInt_wide_sub : (wide a - wide b).toInt = a.toInt - b.toInt := by
  have ha := natAbs_toInt_le a
  have hb := natAbs_toInt_le b
  rw [Int32.toInt_sub, toInt_wide, toInt_wide, bmod_of_natAbs_lt (by omega)]

theorem toInt_wide_mul : (wide a * wide b).toInt = a.toInt * b.toInt := by
  have hab := natAbs_toInt_mul_le a b
  rw [Int32.toInt_mul, toInt_wide, toInt_wide, bmod_of_natAbs_lt (by omega)]

/-- The quotient `2^15` of `-2^15` by `-1` is no value, but 32 bits hold it. -/
theorem toInt_wide_div : (wide a / wide b).toInt = a.toInt.tdiv b.toInt := by
  have ha := natAbs_toInt_le a
  have hq := Int.natAbs_tdiv_le_natAbs a.toInt b.toInt
  rw [Int32.toInt_div, toInt_wide, toInt_wide, bmod_of_natAbs_lt (by omega)]

theorem toInt_wide_mod : (wide a % wide b).toInt = a.toInt.tmod b.toInt := by
  rw [Int32.toInt_mod, toInt_wide, toInt_wide]

/-- The amount of a shift is the residue of the argument modulo 32, also if it is negative. -/
theorem toNat_shiftAmount (v : Value) :
    ((shiftAmount v).toBitVec.smod 32).toNat = (v.toInt % 32).toNat := by
  have hwide : (wide v).toBitVec = BitVec.ofInt 32 v.toInt := by
    rw [← BitVec.ofInt_toInt (x := (wide v).toBitVec), Int32.toInt_toBitVec, toInt_wide]
  have hlow : ((wide v).toBitVec &&& 31#32).toNat = (v.toInt % 32).toNat := by
    rw [BitVec.toNat_and, hwide, BitVec.toNat_ofInt]
    show _ &&& 2 ^ 5 - 1 = _
    rw [Nat.and_two_pow_sub_one_eq_mod]
    omega
  have hpos : ((wide v).toBitVec &&& 31#32).msb = false := by
    rw [BitVec.msb_and, show (31#32).msb = false from rfl, Bool.and_false]
  -- a shift takes its amount modulo 32 with the sign of 32; here nothing is left to reduce
  have hamount : (shiftAmount v).toBitVec = (wide v).toBitVec &&& 31#32 := rfl
  rw [hamount, BitVec.toNat_smod, hpos]
  show ((wide v).toBitVec &&& 31#32).toNat % 32 = _
  rw [hlow]
  omega

theorem toInt_wide_shl :
    (wide a <<< shiftAmount b).toInt = (a.toInt * 2 ^ (b.toInt % 32).toNat).bmod (2 ^ 32) := by
  rw [← Int32.toInt_toBitVec, Int32.toBitVec_shiftLeft, BitVec.shiftLeft_eq', toNat_shiftAmount,
    BitVec.toInt_shiftLeft, Nat.shiftLeft_eq, ← toInt_wide a, ← Int32.toInt_toBitVec (wide a),
    BitVec.toInt_eq_toNat_bmod (wide a).toBitVec, Int.bmod_mul_bmod]
  push_cast
  rfl

theorem toInt_shr (w : Int32) :
    (w >>> shiftAmount b).toInt = w.toInt.fdiv (2 ^ (b.toInt % 32).toNat) := by
  rw [← Int32.toInt_toBitVec, Int32.toBitVec_shiftRight, BitVec.toInt_sshiftRight',
    toNat_shiftAmount, Int32.toInt_toBitVec, Int.shiftRight_eq_div_pow,
    Int.fdiv_eq_ediv_of_nonneg _ (Int.pow_nonneg (by decide))]
  push_cast
  rfl

theorem toInt_wide_shr :
    (wide a >>> shiftAmount b).toInt = a.toInt.fdiv (2 ^ (b.toInt % 32).toNat) := by
  rw [toInt_shr, toInt_wide]

theorem toInt_wide_mulFixed :
    ((wide a * wide b) >>> 6).toInt = (a.toInt * b.toInt).fdiv 64 := by
  rw [show (6 : Int32) = shiftAmount 6 from rfl, toInt_shr, toInt_wide_mul]
  rfl

theorem toInt_eq_zero {v : Value} : v.toInt = 0 ↔ v = 0 := by
  rw [← Int16.toInt_inj, Int16.toInt_zero]

end Value

/-! ## the exact results -/

/-- The exact result of an arithmetic built-in: integer sum, difference and product, the quotient
toward zero and its remainder, and for the shifts and the fixed-point product the product with a
power of two or the quotient by it, rounded down. -/
def Builtin.exactResult? : Builtin → Int → Int → Option Int
  | .add, x, y => some (x + y)
  | .sub, x, y => some (x - y)
  | .mul, x, y => some (x * y)
  | .div, x, y => if y = 0 then none else some (x.tdiv y)
  | .mod, x, y => if y = 0 then none else some (x - y * x.tdiv y)
  | .shl, x, y => some (x * 2 ^ (y % 32).toNat)
  | .shr, x, y => some (x.fdiv (2 ^ (y % 32).toNat))
  | .mulFixed, x, y => some ((x * y).fdiv 64)
  | _, _, _ => none

/-- Peripherals that multiply fixed-point numbers as `Fixed.mul` does, and nothing more. -/
def Peripherals.Multiplies (p : Peripherals σ) : Prop :=
  ∀ a b s, p.answer (.mul a b) s = (Fixed.mul a b, s)

theorem Headless.multiplies : Headless.peripherals.Multiplies := fun _ _ _ => rfl

namespace Exec

open Value

variable {p : Peripherals σ} {e : Engine σ}

theorem returns_invoke_narrow {op : Builtin} {args : Vector Value op.arity} {w : Int32} {z : Int}
    (hact : op.action args = .ok (.yield (narrow w))) (hw : narrow w = Int16.ofInt z) :
    Returns (invoke p op args) e (Int16.ofInt z) e :=
  returns_invoke.mpr ⟨_, hact, by rw [← hw]; rfl⟩

theorem returns_invoke_exact {op : Builtin} {args : Vector Value op.arity} {a b v : Value} {z : Int}
    (hp : op = .mulFixed → p.Multiplies) (hargs : args.toList = [a, b])
    (hz : op.exactResult? a.toInt b.toInt = some z) (hv : Int16.ofInt z = v) :
    Returns (invoke p op args) e v e := by
  subst hv
  cases op with
  | add =>
    obtain rfl : args = #v[a, b] := Vector.toList_inj.mp hargs
    cases hz
    exact returns_invoke_narrow rfl (narrow_of_toInt (toInt_wide_add a b))
  | sub =>
    obtain rfl : args = #v[a, b] := Vector.toList_inj.mp hargs
    cases hz
    exact returns_invoke_narrow rfl (narrow_of_toInt (toInt_wide_sub a b))
  | mul =>
    obtain rfl : args = #v[a, b] := Vector.toList_inj.mp hargs
    cases hz
    exact returns_invoke_narrow rfl (narrow_of_toInt (toInt_wide_mul a b))
  | div =>
    obtain rfl : args = #v[a, b] := Vector.toList_inj.mp hargs
    obtain ⟨hb, rfl⟩ : b.toInt ≠ 0 ∧ _ = z := by simpa [Builtin.exactResult?] using hz
    exact returns_invoke_narrow (if_neg (mt toInt_eq_zero.mpr hb))
      (narrow_of_toInt (toInt_wide_div a b))
  | mod =>
    obtain rfl : args = #v[a, b] := Vector.toList_inj.mp hargs
    obtain ⟨hb, rfl⟩ : b.toInt ≠ 0 ∧ _ = z := by simpa [Builtin.exactResult?] using hz
    rw [← Int.tmod_def]
    exact returns_invoke_narrow (if_neg (mt toInt_eq_zero.mpr hb))
      (narrow_of_toInt (toInt_wide_mod a b))
  | shl =>
    obtain rfl : args = #v[a, b] := Vector.toList_inj.mp hargs
    cases hz
    exact returns_invoke_narrow rfl (narrow_of_bmod (toInt_wide_shl a b))
  | shr =>
    obtain rfl : args = #v[a, b] := Vector.toList_inj.mp hargs
    cases hz
    exact returns_invoke_narrow rfl (narrow_of_toInt (toInt_wide_shr a b))
  | mulFixed =>
    obtain rfl : args = #v[a, b] := Vector.toList_inj.mp hargs
    cases hz
    have hmul : Fixed.mul a b = _ := narrow_of_toInt (toInt_wide_mulFixed a b)
    exact returns_invoke.mpr ⟨.ask (.mul a b), rfl, by rw [Action.effect, hp rfl, hmul]⟩
  | _ => cases hz

theorem exists_pair : (args : Vector Value 2) → ∃ a b, args = #v[a, b]
  | ⟨⟨[a, b]⟩, _⟩ => ⟨a, b, rfl⟩

theorem quotient_eq_error {args : Vector Value 2} {act : Action} {c : Cause} :
    (if args[1] = 0 then .error .divisionByZero else .ok act : Except Cause Action) = .error c ↔
      c = .divisionByZero ∧ ∃ a, args.toList = [a, 0] := by
  obtain ⟨a, b, rfl⟩ := exists_pair args
  by_cases hb : b = 0
  · simp [hb, eq_comm]
  · simp [hb]

theorem fails_invoke_iff {op : Builtin} {args : Vector Value op.arity} {c : Cause} :
    Fails (invoke p op args) e c ↔
      c = .divisionByZero ∧ (op = .div ∨ op = .mod) ∧ ∃ a, args.toList = [a, 0] := by
  rw [fails_invoke]
  cases op with
  | div => exact quotient_eq_error.trans (and_congr_right' (and_iff_right (.inl rfl)).symm)
  | mod => exact quotient_eq_error.trans (and_congr_right' (and_iff_right (.inr rfl)).symm)
  | _ => simp [Builtin.action]

/-! ## quotient and remainder -/

theorem toInt_remainder (a : Value) {b : Value} (hb : b ≠ 0) :
    (Int16.ofInt (a.toInt.tmod b.toInt)).toInt = a.toInt.tmod b.toInt ∧
      (a.toInt.tmod b.toInt).natAbs < b.toInt.natAbs := by
  have hlt : (a.toInt.tmod b.toInt).natAbs < b.toInt.natAbs := by
    rw [Int.natAbs_tmod]
    exact Nat.mod_lt _ (Int.natAbs_pos.mpr (mt toInt_eq_zero.mp hb))
  have hle := natAbs_toInt_le b
  refine ⟨?_, hlt⟩
  rw [Int16.toInt_ofInt]
  exact Int.bmod_eq_of_le (by simp; omega) (by simp; omega)

theorem tmod_eq_zero_or_sign (x y : Int) : x.tmod y = 0 ∨ (x.tmod y).sign = x.sign := by
  rw [Int.sign_tmod]
  by_cases hxy : y ∣ x
  · exact .inl (Int.tmod_eq_zero_of_dvd hxy)
  · exact .inr (if_neg hxy)

/-- The quotient and the product may wrap; the sum makes up for it. -/
theorem ofInt_quotient_remainder (a b : Value) :
    Int16.ofInt ((Int16.ofInt ((Int16.ofInt (a.toInt.tdiv b.toInt)).toInt * b.toInt)).toInt +
      (Int16.ofInt (a.toInt - b.toInt * a.toInt.tdiv b.toInt)).toInt) = a := by
  rw [← Int16.toInt_inj]
  -- the residues on the way can be left out under the last one
  simp only [Int16.toInt_ofInt, Int.bmod_mul_bmod, Int.bmod_add_bmod, Int.add_bmod_bmod]
  rw [← Int.tmod_def, Int.mul_comm, Int.mul_tdiv_add_tmod]
  exact Int16.toInt_bmod a

/-- Multiplying the quotient by the divisor and adding the remainder gives back the dividend, also
where a result on the way is no value and wraps. -/
theorem division_law {a b : Value} (hb : b ≠ 0) :
    ∃ q r m, Returns (invoke p .div #v[a, b]) e q e ∧ Returns (invoke p .mod #v[a, b]) e r e ∧
      Returns (invoke p .mul #v[q, b]) e m e ∧ Returns (invoke p .add #v[m, r]) e a e ∧
      (r = 0 ∨ r.toInt.sign = a.toInt.sign) ∧ r.toInt.natAbs < b.toInt.natAbs := by
  have hb0 : b.toInt ≠ 0 := mt toInt_eq_zero.mp hb
  obtain ⟨hr, hlt⟩ := toInt_remainder a hb
  refine ⟨_, _, _, returns_invoke_exact nofun rfl (if_neg hb0) rfl,
    returns_invoke_exact nofun rfl (if_neg hb0) rfl, returns_invoke_exact nofun rfl rfl rfl,
    returns_invoke_exact nofun rfl rfl (ofInt_quotient_remainder a b), ?_⟩
  rw [← Int.tmod_def, ← toInt_eq_zero, hr]
  exact ⟨tmod_eq_zero_or_sign a.toInt b.toInt, hlt⟩

/-! ## the law -/

/-- **Arithmetic is exact, reduced to 16 bits.**  An arithmetic built-in gives the residue of its
exact result; the built-ins fail on a division by zero and on nothing else; but for the shift to
the left, which drops bits, every 32-bit result is exact; and quotient and remainder make up the
dividend. -/
theorem arithmetic_law (p : Peripherals σ) (e : Engine σ) :
    (∀ (op : Builtin) (args : Vector Value op.arity) (a b : Value) (z : Int),
      args.toList = [a, b] → op.exactResult? a.toInt b.toInt = some z →
      (op = .mulFixed → p.Multiplies) →
      ∃ v, Returns (invoke p op args) e v e ∧ v.toInt = z.bmod (2 ^ 16)) ∧
    (∀ (op : Builtin) (args : Vector Value op.arity) (c : Cause),
      Fails (invoke p op args) e c ↔
        c = .divisionByZero ∧ (op = .div ∨ op = .mod) ∧ ∃ a, args.toList = [a, 0]) ∧
    (∀ a b : Value,
      (wide a + wide b).toInt = a.toInt + b.toInt ∧
      (wide a - wide b).toInt = a.toInt - b.toInt ∧
      (wide a / wide b).toInt = a.toInt.tdiv b.toInt ∧
      (wide a % wide b).toInt = a.toInt.tmod b.toInt ∧
      (wide a * wide b).toInt = a.toInt * b.toInt ∧
      ((wide a * wide b) >>> 6).toInt = (a.toInt * b.toInt).fdiv 64) ∧
    (∀ a b : Value, b ≠ 0 →
      ∃ q r m, Returns (invoke p .div #v[a, b]) e q e ∧ Returns (invoke p .mod #v[a, b]) e r e ∧
        Returns (invoke p .mul #v[q, b]) e m e ∧ Returns (invoke p .add #v[m, r]) e a e ∧
        (r = 0 ∨ r.toInt.sign = a.toInt.sign) ∧ r.toInt.natAbs < b.toInt.natAbs) := by
  refine ⟨fun op args a b z hargs hz hp => ?_, fun op args c => fails_invoke_iff, fun a b => ?_,
    fun a b hb => division_law hb⟩
  · exact ⟨_, returns_invoke_exact hp hargs hz rfl, Int16.toInt_ofInt⟩
  · exact ⟨toInt_wide_add a b, toInt_wide_sub a b, toInt_wide_div a b, toInt_wide_mod a b,
      toInt_wide_mul a b, toInt_wide_mulFixed a b⟩

theorem arithmetic_law_least :
    let p := Headless.peripherals
    let e : Engine Headless := ⟨⟨.ofParts [] [] [] 0, .idle⟩, {}⟩
    p.Multiplies ∧ Builtin.div.exactResult? (-32768) (-1) = some 32768 ∧
    (∃ v, Returns (invoke p .div #v[-32768, -1]) e v e ∧ v.toInt = -32768) ∧
    (∃ v, Returns (invoke p .mulFixed #v[-32767, 3]) e v e ∧ v.toInt = -1536) ∧
    Fails (invoke p .mod #v[-32768, 0]) e .divisionByZero ∧ (-1 : Value) ≠ 0 ∧
    ∃ q r m, Returns (invoke p .div #v[-32768, -1]) e q e ∧
      Returns (invoke p .mod #v[-32768, -1]) e r e ∧ Returns (invoke p .mul #v[q, -1]) e m e ∧
      Returns (invoke p .add #v[m, r]) e (-32768) e := by
  intro p e
  obtain ⟨hexact, hfails, -, hdivision⟩ := arithmetic_law p e
  have hquotient : Builtin.div.exactResult? (-32768) (-1) = some 32768 := by decide
  obtain ⟨q, r, m, hq, hr, hm, hsum, -⟩ := hdivision (-32768) (-1) (by decide)
  exact ⟨Headless.multiplies, hquotient, hexact .div _ _ _ 32768 rfl hquotient nofun,
    hexact .mulFixed _ _ _ (-1536) rfl (by decide) fun _ => Headless.multiplies,
    (hfails .mod _ _).mpr ⟨rfl, .inr rfl, _, rfl⟩, by decide, q, r, m, hq, hr, hm, hsum⟩

end Exec
end TickMachine
