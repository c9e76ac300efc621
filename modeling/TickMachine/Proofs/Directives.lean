import Mathlib.Algebra.Group.Nat.Defs
import TickMachine.Assembler

/-!
# What directives do

A directive appends an instruction to the code, or writes the displacement of an open jump, or
leaves the code alone.  So an instruction stands where it was emitted, and nothing but the
displacement of an open jump ever changes.

* `Assembler.displacement`, `Assembler.tooFar?`   what is written for a jump, and what reported;
* `Directive.emission?`, `Directive.aim?`, `Directive.overflow?`   what a directive is about;
* `Assembler.obeys_apply`   so this is what it does;
* `Assembler.Stands`   an instruction stands at an address;
* `Assembler.stands_emission`, `Stands.apply`, `Stands.apply_own`   from its emission on;
* `Assembler.routine_applyAll`, `Assembler.global_applyAll`   what was declared stays declared.
-/

namespace TickMachine

namespace Assembler

/-! ## aiming jumps -/

/-- How far a jump with its operand at `site` has to go. -/
def distance (site : Nat) (target : UInt64) : Int := target.toInt64.toInt - ((site : Int) + 2)

def InReach (site : Nat) (target : UInt64) : Prop :=
  -32768 ≤ distance site target ∧ distance site target < 32768

instance (site : Nat) (target : UInt64) : Decidable (InReach site target) :=
  inferInstanceAs (Decidable (_ ∧ _))

/-- The displacement that is written for a jump. -/
def displacement (site : Nat) (target : UInt64) : Value :=
  if InReach site target then Int16.ofInt (distance site target) else 0

def tooFar? (site : Nat) (target : UInt64) : Option AssemblyError :=
  if InReach site target then none else some (.jumpTooFar (site - 1) target)

theorem aim_eq (a : Assembler) (site : Nat) (target : UInt64) :
    a.aim site target = { a.setDisplacement site (displacement site target) with
      error := a.error.or (tooFar? site target) } := by
  have hreach : (-32768 ≤ target.toInt64.toInt - ((site : Int) + 2) ∧
      target.toInt64.toInt - ((site : Int) + 2) < 32768) ↔ InReach site target := Iff.rfl
  unfold aim displacement tooFar?
  simp only [hreach]
  split
  · rw [Option.or_none]
    rfl
  · rfl

/-- A target that can be an offset in memory keeps its value as a signed number. -/
theorem toInt_of_small {target : UInt64} (small : target.toNat < 2 ^ 63) :
    target.toInt64.toInt = target.toNat := by
  rw [← Int64.toInt_toBitVec, UInt64.toBitVec_toInt64, BitVec.toInt_eq_toNat_of_lt]
  · rfl
  · rw [UInt64.toNat_toBitVec]
    omega

theorem toInt_displacement {site : Nat} {target : UInt64} (h : tooFar? site target = none)
    (small : target.toNat < 2 ^ 63) :
    (target.toNat : Int) = site + 2 + (displacement site target).toInt := by
  have hin : InReach site target := by
    unfold tooFar? at h
    split at h
    · assumption
    · cases h
  have htarget := toInt_of_small small
  have hd : (Int16.ofInt (distance site target)).toInt = distance site target :=
    Int16.toInt_ofInt_of_le hin.1 hin.2
  unfold displacement
  rw [if_pos hin, hd]
  unfold distance
  omega

end Assembler

/-! ## what a directive is about -/

namespace Directive

/-- The instruction that a directive emits at `here`; an open jump is emitted with displacement
zero. -/
def emission? (here : Nat) : Directive → Option Instruction
  | .pushConst v => some (.pushConst v)
  | .zero => some .zero
  | .drop => some .drop
  | .getGlobal i => some (.getGlobal i)
  | .setGlobal i => some (.setGlobal i)
  | .getLocal i => some (.getLocal i)
  | .setLocal i => some (.setLocal i)
  | .call id => some (.call (if id < 256 then UInt8.ofNat id else 0))
  | .ret n => some (.ret n)
  | .builtin name => (Builtin.ofName? name).map .builtin
  | .jmpTo t => some (.jmp (Assembler.displacement (here + 1) t))
  | .jzTo t => some (.jz (Assembler.displacement (here + 1) t))
  | .jmp => some (.jmp 0)
  | .jz => some (.jz 0)
  | .routine .. | .global _ | .patch .. | .patchHere _ => none

def opens : Directive → Bool
  | .jmp | .jz => true
  | _ => false

/-- The open jump that a directive aims, and its target. -/
def aim? (here : Nat) : Directive → Option (Nat × UInt64)
  | .patch jump t => some (jump, t)
  | .patchHere jump => some (jump, UInt64.ofNat here)
  | _ => none

/-- The routine that a directive declares when the code ends at `here`. -/
def routine? (here : Nat) : Directive → Option Routine
  | .routine argc locals => some ⟨argc, locals, if here < 65536 then UInt16.ofNat here else 0⟩
  | _ => none

def global? : Directive → Option Value
  | .global v => some v
  | _ => none

def overflow? (a : Assembler) : Directive → Option AssemblyError
  | .routine .. => if a.here < 65536 then none else some (.routineTooFar a.here)
  | .global _ => if a.globals.size < 256 then none else some (.globalTooMany a.globals.size)
  | .call id => if id < 256 then none else some (.routineIdTooLarge id)
  | .jmpTo t | .jzTo t => Assembler.tooFar? (a.here + 1) t
  | .patch jump t => a.jumps[jump]?.bind (Assembler.tooFar? · t)
  | .patchHere jump => a.jumps[jump]?.bind (Assembler.tooFar? · (UInt64.ofNat a.here))
  | _ => none

end Directive

namespace Assembler

variable {a : Assembler} {d : Directive}

/-! ## what a directive does -/

theorem routine_eq (a : Assembler) (argc locals : UInt8) : a.routine argc locals =
    { a with
      routines := a.routines.push
        ⟨argc, locals, if a.here < 65536 then UInt16.ofNat a.here else 0⟩
      error := a.error.or (Directive.overflow? a (.routine argc locals)) } := by
  unfold routine fail Directive.overflow?
  split <;> simp

theorem global_eq (a : Assembler) (v : Value) : a.global v =
    { a with
      globals := a.globals.push v
      error := a.error.or (Directive.overflow? a (.global v)) } := by
  unfold global fail Directive.overflow?
  dsimp only
  split <;> simp

theorem call_eq (a : Assembler) (id : Nat) : a.call id =
    { a.emit (.call (if id < 256 then UInt8.ofNat id else 0)) with
      error := a.error.or (Directive.overflow? a (.call id)) } := by
  show _ = { a.emit _ with
    error := a.error.or (if id < 256 then none else some (.routineIdTooLarge id)) }
  unfold call fail emit
  split <;> simp

theorem setDisplacement_emit (a : Assembler) {jump : Value → Instruction}
    (hjump : jump = .jmp ∨ jump = .jz) (x y : Value) :
    (a.emit (jump x)).setDisplacement (a.here + 1) y = a.emit (jump y) := by
  have hlt : ¬ a.code.size + 1 + 1 < a.code.size := by omega
  have hsub : a.code.size + 1 + 1 - a.code.size = 2 := by omega
  unfold setDisplacement emit here
  congr 1
  apply Array.ext'
  rcases hjump with rfl | rfl <;>
    simp [Instruction.encode, Instruction.operand, Instruction.byte, Value.bytes, List.set_append,
      hlt, hsub]

theorem size_append_encode (code : Array UInt8) (i : Instruction) :
    (code ++ i.encode).size = code.size + i.size := by
  rw [← Array.length_toList, Array.toList_appendList, List.length_append, i.length_encode,
    Array.length_toList]

theorem site_emit (a : Assembler) {jump : Value → Instruction} (hjump : jump = .jmp ∨ jump = .jz)
    (x : Value) : (a.emit (jump x)).here - 2 = a.here + 1 := by
  have hsize : (jump x).size = 3 := by rcases hjump with rfl | rfl <;> rfl
  show (a.code ++ (jump x).encode).size - 2 = a.code.size + 1
  rw [size_append_encode, hsize]
  omega

theorem jumpTo_eq (a : Assembler) {jump : Value → Instruction} (hjump : jump = .jmp ∨ jump = .jz)
    (t : UInt64) : a.jumpTo (jump 0) t =
      { a.emit (jump (displacement (a.here + 1) t)) with
        error := a.error.or (tooFar? (a.here + 1) t) } := by
  unfold jumpTo
  dsimp only
  rw [site_emit a hjump, aim_eq, setDisplacement_emit a hjump]
  rfl

theorem openJump_eq (a : Assembler) {jump : Value → Instruction}
    (hjump : jump = .jmp ∨ jump = .jz) :
    a.openJump (jump 0) = { a.emit (jump 0) with jumps := a.jumps.push (a.here + 1) } := by
  unfold openJump
  dsimp only
  rw [site_emit a hjump]
  rfl

theorem patch_eq (a : Assembler) (j : Nat) (t : UInt64) : a.patch j t =
    match a.jumps[j]? with
    | some site => { a.setDisplacement site (displacement site t) with
        error := a.error.or (tooFar? site t) }
    | none => a := by
  unfold patch
  cases a.jumps[j]? with
  | some site => exact aim_eq a site t
  | none => rfl

/-- What a directive does to the code and the table of open jumps. -/
inductive Writes (a : Assembler) (d : Directive) (b : Assembler) : Prop where
  | emits (i : Instruction) (emission : d.emission? a.here = some i)
      (code : b.code = a.code ++ i.encode)
      (jumps : b.jumps = if d.opens then a.jumps.push (a.here + 1) else a.jumps)
  | aims (j site : Nat) (t : UInt64) (aim : d.aim? a.here = some (j, t))
      (sited : a.jumps[j]? = some site)
      (code : b.code = (a.setDisplacement site (displacement site t)).code)
      (jumps : b.jumps = a.jumps)
  | rests (emission : d.emission? a.here = none)
      (aim : ∀ j t, d.aim? a.here = some (j, t) → a.jumps[j]? = none)
      (code : b.code = a.code) (jumps : b.jumps = a.jumps)

/-- All that a directive does.  What does not fit is reported unless there is an error already. -/
structure Obeys (a : Assembler) (d : Directive) (b : Assembler) : Prop where
  writes : Writes a d b
  routines : b.routines = (d.routine? a.here).elim a.routines a.routines.push
  globals : b.globals = d.global?.elim a.globals a.globals.push
  error : b.error = a.error.or (d.overflow? a)

theorem emission?_eq_none_of_aim {here : Nat} {aimed : Nat × UInt64}
    (h : d.aim? here = some aimed) : d.emission? here = none := by
  cases d <;> first | rfl | cases h

theorem overflow?_of_aim {j : Nat} {t : UInt64} (aim : d.aim? a.here = some (j, t)) :
    d.overflow? a = a.jumps[j]?.bind (tooFar? · t) := by
  cases d <;> cases aim <;> rfl

theorem obeys_patch {j : Nat} {t : UInt64} (aim : d.aim? a.here = some (j, t)) :
    Obeys a d (a.patch j t) := by
  have hroutine : d.routine? a.here = none := by cases d <;> cases aim <;> rfl
  have hglobal : d.global? = none := by cases d <;> cases aim <;> rfl
  have hover := overflow?_of_aim aim
  rw [patch_eq]
  cases hj : a.jumps[j]? with
  | some site =>
    rw [hj] at hover
    exact ⟨.aims j site t aim hj rfl rfl, by rw [hroutine]; rfl, by rw [hglobal]; rfl,
      by rw [hover]; rfl⟩
  | none =>
    rw [hj] at hover
    have hrests : Writes a d a := by
      refine .rests (emission?_eq_none_of_aim aim) (fun j' t' h => ?_) rfl rfl
      cases aim.symm.trans h
      exact hj
    exact ⟨hrests, by rw [hroutine]; rfl, by rw [hglobal]; rfl,
      by rw [hover]; exact Option.or_none.symm⟩

theorem obeys_apply (a : Assembler) (d : Directive) : Obeys a d (a.apply d).1 := by
  cases d with
  | routine argc locals =>
    show Obeys a _ (a.routine argc locals)
    rw [routine_eq]
    exact ⟨.rests rfl nofun rfl rfl, rfl, rfl, rfl⟩
  | global v =>
    show Obeys a _ (a.global v)
    rw [global_eq]
    exact ⟨.rests rfl nofun rfl rfl, rfl, rfl, rfl⟩
  | call id =>
    show Obeys a _ (a.call id)
    rw [call_eq]
    exact ⟨.emits _ rfl rfl rfl, rfl, rfl, rfl⟩
  | jmpTo t =>
    show Obeys a _ (a.jumpTo (.jmp 0) t)
    rw [jumpTo_eq a (.inl rfl)]
    exact ⟨.emits _ rfl rfl rfl, rfl, rfl, rfl⟩
  | jzTo t =>
    show Obeys a _ (a.jumpTo (.jz 0) t)
    rw [jumpTo_eq a (.inr rfl)]
    exact ⟨.emits _ rfl rfl rfl, rfl, rfl, rfl⟩
  | jmp =>
    show Obeys a _ (a.openJump (.jmp 0))
    rw [openJump_eq a (.inl rfl)]
    exact ⟨.emits _ rfl rfl rfl, rfl, rfl, Option.or_none.symm⟩
  | jz =>
    show Obeys a _ (a.openJump (.jz 0))
    rw [openJump_eq a (.inr rfl)]
    exact ⟨.emits _ rfl rfl rfl, rfl, rfl, Option.or_none.symm⟩
  | patch j t => exact obeys_patch rfl
  | patchHere j => exact obeys_patch rfl
  | builtin name =>
    cases hb : Builtin.ofName? name with
    | some b =>
      have happly : a.apply (.builtin name) = (a.emit (.builtin b), .ok none) := by
        simp only [apply, hb]
      have hemits : Directive.emission? a.here (.builtin name) = some (.builtin b) := by
        simp only [Directive.emission?, hb, Option.map_some]
      rw [happly]
      exact ⟨.emits _ hemits rfl rfl, rfl, rfl, Option.or_none.symm⟩
    | none =>
      have happly : a.apply (.builtin name) = (a, .error ⟨name⟩) := by
        simp only [apply, hb]
      have hrests : Directive.emission? a.here (.builtin name) = none := by
        simp only [Directive.emission?, hb, Option.map_none]
      rw [happly]
      exact ⟨.rests hrests nofun rfl rfl, rfl, rfl, Option.or_none.symm⟩
  | _ => exact ⟨.emits _ rfl rfl rfl, rfl, rfl, Option.or_none.symm⟩

theorem writes_apply (a : Assembler) (d : Directive) : Writes a d (a.apply d).1 :=
  (obeys_apply a d).writes

theorem error_of_applyAll {ds : List Directive} (h : (a.applyAll ds).error = none) :
    a.error = none := by
  induction ds generalizing a with
  | nil => exact h
  | cons d ds ih =>
    have hnone := ih h
    rw [(obeys_apply a d).error, Option.or_eq_none_iff] at hnone
    exact hnone.1

theorem fits_of_applyAll {ds : List Directive} (h : (a.applyAll (d :: ds)).error = none) :
    d.overflow? a = none := by
  have hnone : (a.apply d).1.error = none := error_of_applyAll h
  rw [(obeys_apply a d).error, Option.or_eq_none_iff] at hnone
  exact hnone.2

theorem Writes.emission {b : Assembler} {i : Instruction} (h : Writes a d b)
    (hi : d.emission? a.here = some i) : b.code = a.code ++ i.encode ∧
      b.jumps = if d.opens then a.jumps.push (a.here + 1) else a.jumps := by
  cases h with
  | emits i' emission code jumps =>
    cases hi.symm.trans emission
    exact ⟨code, jumps⟩
  | aims j site t aim _ _ _ => cases hi.symm.trans (emission?_eq_none_of_aim aim)
  | rests emission _ _ _ => cases hi.symm.trans emission

theorem Writes.aim {b : Assembler} {j site : Nat} {t : UInt64} (h : Writes a d b)
    (aim : d.aim? a.here = some (j, t)) (sited : a.jumps[j]? = some site) :
    b.code = (a.setDisplacement site (displacement site t)).code ∧ b.jumps = a.jumps := by
  cases h with
  | emits i emission _ _ => cases emission.symm.trans (emission?_eq_none_of_aim aim)
  | aims j' site' t' aim' sited' code jumps =>
    cases aim.symm.trans aim'
    cases sited.symm.trans sited'
    exact ⟨code, jumps⟩
  | rests _ noAim _ _ => cases sited.symm.trans (noAim j t aim)

/-! ## sites -/

/-- The operands of the open jumps lie within the code. -/
def Sited (a : Assembler) : Prop := ∀ j site : Nat, a.jumps[j]? = some site → site + 2 ≤ a.here

theorem size_of_opens {here : Nat} {i : Instruction} (hopens : d.opens = true)
    (h : d.emission? here = some i) : i.size = 3 := by
  cases d <;> cases hopens <;> cases h <;> rfl

theorem here_setDisplacement (a : Assembler) (site : Nat) (v : Value) :
    (a.setDisplacement site v).here = a.here := by
  simp [here, setDisplacement]

theorem getElem?_push_of_some {α : Type} {xs : Array α} {k : Nat} {x : α} (h : xs[k]? = some x)
    (y : α) : (xs.push y)[k]? = some x := by
  obtain ⟨hlt, -⟩ := Array.getElem?_eq_some_iff.mp h
  rw [Array.getElem?_push, if_neg (Nat.ne_of_lt hlt)]
  exact h

theorem getElem?_push_cases {α : Type} {xs : Array α} {x y : α} {j : Nat}
    (h : (xs.push x)[j]? = some y) : xs[j]? = some y ∨ (j = xs.size ∧ y = x) := by
  rw [Array.getElem?_push] at h
  split at h
  · next hj => exact .inr ⟨hj, (Option.some.inj h).symm⟩
  · exact .inl h

theorem Writes.here_le {b : Assembler} (h : Writes a d b) : a.here ≤ b.here := by
  cases h with
  | emits i _ code _ =>
    unfold here
    rw [code, size_append_encode]
    omega
  | aims j site t _ _ code _ =>
    show _ ≤ b.code.size
    rw [code]
    exact Nat.le_of_eq (here_setDisplacement a site _).symm
  | rests _ _ code _ => exact Nat.le_of_eq (congrArg Array.size code.symm)

/-- Every open jump was open before, or is the one just emitted. -/
theorem Writes.jumps_cases {b : Assembler} (h : Writes a d b) {j site : Nat}
    (hj : b.jumps[j]? = some site) :
    a.jumps[j]? = some site ∨
      (d.opens = true ∧ j = a.jumps.size ∧ site = a.here + 1 ∧ a.here + 3 ≤ b.here) := by
  cases h with
  | emits i emission code jumps =>
    rw [jumps] at hj
    split at hj
    · next hopens =>
      rcases getElem?_push_cases hj with hold | ⟨hnew, hsite⟩
      · exact .inl hold
      · refine .inr ⟨hopens, hnew, hsite, ?_⟩
        show _ ≤ b.code.size
        rw [code, size_append_encode, size_of_opens hopens emission]
        exact Nat.le_refl _
    · exact .inl hj
  | aims _ _ _ _ _ _ jumps => exact .inl (jumps ▸ hj)
  | rests _ _ _ jumps => exact .inl (jumps ▸ hj)

theorem Writes.jumps_kept {b : Assembler} (h : Writes a d b) {j site : Nat}
    (hj : a.jumps[j]? = some site) : b.jumps[j]? = some site := by
  cases h with
  | emits _ _ _ jumps =>
    rw [jumps]
    split
    · exact getElem?_push_of_some hj _
    · exact hj
  | aims _ _ _ _ _ _ jumps => exact jumps ▸ hj
  | rests _ _ _ jumps => exact jumps ▸ hj

theorem sited_empty : Sited {} := by
  intro j site hj
  cases hj

theorem Sited.apply (h : Sited a) (d : Directive) : Sited (a.apply d).1 := by
  intro j site hj
  have hw := writes_apply a d
  rcases hw.jumps_cases hj with hold | ⟨-, -, rfl, hsize⟩
  · exact Nat.le_trans (h j site hold) hw.here_le
  · omega

theorem Sited.applyAll (h : Sited a) (ds : List Directive) : Sited (a.applyAll ds) := by
  induction ds generalizing a with
  | nil => exact h
  | cons d ds ih => exact ih (h.apply d)

/-! ## standing instructions -/

/-- The instruction `i` stands at address `o`.  If it is an open jump, `number` is its number; no
other open jump has its operand there. -/
structure Stands (a : Assembler) (o : Nat) (i : Instruction) (number : Option Nat) : Prop where
  bytes : ∀ k, (hk : k < i.encode.length) → a.code[o + k]? = some i.encode[k]
  numbered : ∀ j, number = some j → a.jumps[j]? = some (o + 1)
  apart : ∀ j site : Nat, a.jumps[j]? = some site → number ≠ some j →
    site + 2 ≤ o ∨ o + i.size ≤ site

section
variable {o : Nat} {i : Instruction} {number : Option Nat}

theorem Stands.fits (h : Stands a o i number) : o + i.size ≤ a.here := by
  have hpos := i.size_pos
  have hlast := h.bytes (i.size - 1) (by rw [i.length_encode]; omega)
  obtain ⟨hlt, -⟩ := Array.getElem?_eq_some_iff.mp hlast
  show _ ≤ a.code.size
  omega

theorem getElem?_append_encode_left {code : Array UInt8} (i : Instruction) {k : Nat}
    (h : k < code.size) : (code ++ i.encode)[k]? = code[k]? := by
  rw [← Array.getElem?_toList, Array.toList_appendList, List.getElem?_append_left h,
    Array.getElem?_toList]

theorem getElem?_append_encode_right (code : Array UInt8) (i : Instruction) (k : Nat) :
    (code ++ i.encode)[code.size + k]? = i.encode[k]? := by
  rw [← Array.getElem?_toList, Array.toList_appendList]
  show (code.toList ++ i.encode)[code.toList.length + k]? = _
  rw [List.getElem?_append_right (Nat.le_add_right ..), Nat.add_sub_cancel_left]

theorem getElem?_setDisplacement_of_ne (a : Assembler) {site k : Nat} (v : Value)
    (h : k < site ∨ site + 2 ≤ k) : (a.setDisplacement site v).code[k]? = a.code[k]? := by
  unfold setDisplacement
  dsimp only
  rw [Array.getElem?_setIfInBounds_ne (by omega), Array.getElem?_setIfInBounds_ne (by omega)]

theorem getElem?_setDisplacement_low (a : Assembler) {site : Nat} (v : Value)
    (h : site + 2 ≤ a.here) : (a.setDisplacement site v).code[site]? = some (Value.lo v) := by
  have hlt : site < a.code.size := Nat.lt_of_lt_of_le (by omega) h
  unfold setDisplacement
  dsimp only
  rw [Array.getElem?_setIfInBounds_ne (by omega), Array.getElem?_setIfInBounds_self_of_lt hlt]

theorem getElem?_setDisplacement_high (a : Assembler) {site : Nat} (v : Value)
    (h : site + 2 ≤ a.here) : (a.setDisplacement site v).code[site + 1]? = some (Value.hi v) := by
  have hlt : site + 1 < (a.code.setIfInBounds site (Value.lo v)).size := by
    rw [Array.size_setIfInBounds]
    exact Nat.lt_of_lt_of_le (by omega) h
  exact Array.getElem?_setIfInBounds_self_of_lt hlt

theorem stands_emission (sited : Sited a) (h : d.emission? a.here = some i) :
    Stands (a.apply d).1 a.here i (if d.opens then some a.jumps.size else none) := by
  have hw := writes_apply a d
  obtain ⟨hcode, hjumps⟩ := hw.emission h
  refine ⟨fun k hk => ?_, fun j hj => ?_, fun j site hj hother => ?_⟩
  · rw [hcode]
    exact (getElem?_append_encode_right a.code i k).trans (List.getElem?_eq_getElem hk)
  · split at hj
    · next hopens =>
      cases hj
      rw [hjumps, if_pos hopens]
      exact Array.getElem?_push_size
    · cases hj
  · rcases hw.jumps_cases hj with hold | ⟨hopens, rfl, -, -⟩
    · exact .inl (sited j site hold)
    · rw [if_pos hopens] at hother
      exact absurd rfl hother

/-- An instruction keeps standing unless it is an open jump that is aimed. -/
theorem Stands.apply (h : Stands a o i number)
    (other : ∀ j t, d.aim? a.here = some (j, t) → number ≠ some j) :
    Stands (a.apply d).1 o i number := by
  have hw := writes_apply a d
  have hfits := h.fits
  refine ⟨fun k hk => ?_, fun j hj => ?_, fun j site hj hother => ?_⟩
  · rw [← h.bytes k hk]
    rw [i.length_encode] at hk
    cases hw with
    | emits i' _ code _ =>
      rw [code]
      exact getElem?_append_encode_left i' (Nat.lt_of_lt_of_le (by omega) hfits)
    | aims j site t aim sited code _ =>
      -- the operand that is written belongs to another jump
      have hapart := h.apart j site sited (other j t aim)
      rw [code]
      exact getElem?_setDisplacement_of_ne a _ (by omega)
    | rests _ _ code _ => rw [code]
  · exact hw.jumps_kept (h.numbered j hj)
  · rcases hw.jumps_cases hj with hold | ⟨-, -, rfl, -⟩
    · exact h.apart j site hold hother
    · exact .inr (by omega)

theorem Stands.applyAll (h : Stands a o i none) (ds : List Directive) :
    Stands (a.applyAll ds) o i none := by
  induction ds generalizing a with
  | nil => exact h
  | cons d ds ih => exact ih (h.apply fun _ _ _ => nofun)

/-- An open jump that is aimed stands there with its new displacement. -/
theorem Stands.apply_own {jump : Value → Instruction} (hjump : jump = .jmp ∨ jump = .jz)
    {x : Value} {j : Nat} {t : UInt64} (h : Stands a o (jump x) (some j))
    (aim : d.aim? a.here = some (j, t)) :
    Stands (a.apply d).1 o (jump (displacement (o + 1) t)) (some j) := by
  have hencode : ∀ v, (jump v).encode = [(jump 0).byte, Value.lo v, Value.hi v] := fun v => by
    rcases hjump with rfl | rfl <;> rfl
  have hsize : ∀ v, (jump v).size = 3 := fun v => by rw [← Instruction.length_encode, hencode]; rfl
  have hfirst : a.code[o]? = some (jump 0).byte := by
    have hbyte := h.bytes 0 (by rw [hencode]; exact Nat.zero_lt_succ _)
    simp only [hencode] at hbyte
    exact hbyte
  have hfits := h.fits
  rw [hsize] at hfits
  obtain ⟨hcode, hjumps⟩ := (writes_apply a d).aim aim (h.numbered j rfl)
  refine ⟨fun k hk => ?_, fun j' hj' => ?_, fun j' site hj' hother => ?_⟩
  · rw [hcode]
    simp only [hencode] at hk ⊢
    match k, hk with
    | 0, _ => exact (getElem?_setDisplacement_of_ne a _ (.inl (Nat.lt_succ_self o))).trans hfirst
    | 1, _ => exact getElem?_setDisplacement_low a _ hfits
    | 2, _ => exact getElem?_setDisplacement_high a _ hfits
  · rw [hjumps]
    exact h.numbered j' hj'
  · rw [hjumps] at hj'
    rw [hsize, ← hsize x]
    exact h.apart j' site hj' hother

end

/-! ## routines and globals -/

theorem size_declared {α : Type} (xs : Array α) (new : Option α) :
    (new.elim xs xs.push).size = xs.size + if new.isSome then 1 else 0 := by
  cases new with
  | none => rfl
  | some x => exact Array.size_push x

theorem getElem?_declared {α : Type} {xs : Array α} {k : Nat} {x : α} (h : xs[k]? = some x)
    (new : Option α) : (new.elim xs xs.push)[k]? = some x := by
  cases new with
  | none => exact h
  | some y => exact getElem?_push_of_some h y

theorem routine_applyAll {k : Nat} {r : Routine} (h : a.routines[k]? = some r)
    (ds : List Directive) : (a.applyAll ds).routines[k]? = some r := by
  induction ds generalizing a with
  | nil => exact h
  | cons d ds ih =>
    apply ih
    rw [(obeys_apply a d).routines]
    exact getElem?_declared h _

theorem global_applyAll {k : Nat} {v : Value} (h : a.globals[k]? = some v)
    (ds : List Directive) : (a.applyAll ds).globals[k]? = some v := by
  induction ds generalizing a with
  | nil => exact h
  | cons d ds ih =>
    apply ih
    rw [(obeys_apply a d).globals]
    exact getElem?_declared h _

end Assembler
end TickMachine
