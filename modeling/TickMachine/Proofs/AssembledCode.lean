import TickMachine.Proofs.Atomic
import TickMachine.Proofs.ControlFlow
import TickMachine.Proofs.Directives
import TickMachine.Proofs.ImageFiles

/-!
# Assembled images

An image that was assembled without an error holds what the directives asked for: the routines and
globals under the numbers that were given back for them, and each instruction where it was emitted.
A jump leads where it was aimed last.

* `Directive.Means`   the instruction that a directive asks for;
* `Assembler.lastTarget`, `Assembler.target`   where a jump is to lead in the end;
* `Assembler.Stands.lastTarget`   an open jump leads there, however often it is aimed;
* `Assembler.Keeps`   an image holds what a directive asked for;
* `Assembler.finish_keeps_directives`   an assembled image does.
-/

namespace TickMachine

theorem Builtin.name_of_ofName? {name : String} {b : Builtin} (h : Builtin.ofName? name = some b) :
    b.name = name := by
  have hfound := List.find?_some h
  exact eq_of_beq hfound

namespace Directive

def emits : Directive → Bool
  | .routine .. | .global _ | .patch .. | .patchHere _ => false
  | .builtin name => (Builtin.ofName? name).isSome
  | _ => true

/-- The instruction that a directive asks for at the address `here`, where `target` is the address
that a jump is to lead to. -/
inductive Means (here target : Nat) : Directive → Instruction → Prop where
  | pushConst (v : Value) : Means here target (.pushConst v) (.pushConst v)
  | zero : Means here target .zero .zero
  | drop : Means here target .drop .drop
  | getGlobal (index : UInt8) : Means here target (.getGlobal index) (.getGlobal index)
  | setGlobal (index : UInt8) : Means here target (.setGlobal index) (.setGlobal index)
  | getLocal (index : UInt8) : Means here target (.getLocal index) (.getLocal index)
  | setLocal (index : UInt8) : Means here target (.setLocal index) (.setLocal index)
  | call (id : UInt8) : Means here target (.call id.toNat) (.call id)
  | ret (count : UInt8) : Means here target (.ret count) (.ret count)
  | builtin (b : Builtin) : Means here target (.builtin b.name) (.builtin b)
  | jmpTo (t : UInt64) {x : Value} (reach : (target : Int) = here + 3 + x.toInt) :
      Means here target (.jmpTo t) (.jmp x)
  | jzTo (t : UInt64) {x : Value} (reach : (target : Int) = here + 3 + x.toInt) :
      Means here target (.jzTo t) (.jz x)
  | jmp {x : Value} (reach : (target : Int) = here + 3 + x.toInt) : Means here target .jmp (.jmp x)
  | jz {x : Value} (reach : (target : Int) = here + 3 + x.toInt) : Means here target .jz (.jz x)

/-- On the thread `t` the jump that a directive emits is taken. -/
inductive Taken (t : Thread) : Directive → Prop where
  | jmpTo (target : UInt64) : Taken t (.jmpTo target)
  | jmp : Taken t .jmp
  | jzTo (target : UInt64) (one : t.fp + 1 ≤ t.sp) (zero : t.top = 0) : Taken t (.jzTo target)
  | jz (one : t.fp + 1 ≤ t.sp) (zero : t.top = 0) : Taken t .jz

/-- The target that a directive names when the code ends at `here`. -/
def names? (here : Nat) : Directive → Option Nat
  | .jmpTo t | .jzTo t | .patch _ t => some t.toNat
  | .patchHere _ => some here
  | _ => none

/-- The target that a directive gives to the open jump `j`. -/
def aimsAt? (here j : Nat) : Directive → Option Nat
  | .patch jump t => if jump = j then some t.toNat else none
  | .patchHere jump => if jump = j then some here else none
  | _ => none

end Directive

namespace Assembler

/-- Every target that is named can be an offset in memory. -/
def InMemory (a : Assembler) : List Directive → Prop
  | [] => True
  | d :: ds => (∀ t ∈ d.names? a.here, t < 2 ^ 63) ∧ InMemory (a.apply d).1 ds

instance decidableInMemory : (a : Assembler) → (ds : List Directive) → Decidable (a.InMemory ds)
  | _, [] => inferInstanceAs (Decidable True)
  | a, d :: ds =>
    have := decidableInMemory (a.apply d).1 ds
    inferInstanceAs (Decidable ((∀ t ∈ d.names? a.here, t < 2 ^ 63) ∧ InMemory _ ds))

/-- Where the open jump `j` leads after the directives, if it leads to `t` before them: where the
last directive that aims it says. -/
def lastTarget (a : Assembler) (j t : Nat) : List Directive → Nat
  | [] => t
  | d :: ds => lastTarget (a.apply d).1 j ((d.aimsAt? a.here j).getD t) ds

/-- Where the jump that `d` emits is to lead, after all the directives that follow.  A jump that is
never aimed leads to the instruction after it. -/
def target (a : Assembler) (d : Directive) (after : List Directive) : Nat :=
  match d with
  | .jmpTo t | .jzTo t => t.toNat
  | _ => (a.apply d).1.lastTarget a.jumps.size (a.here + 3) after

/-- The offset of the next instruction that is emitted, or the end of the code. -/
def nextEmission (a : Assembler) : List Directive → Nat
  | [] => a.here
  | d :: ds => if d.emits then a.here else nextEmission (a.apply d).1 ds

/-- The image holds what the directive `d` asked for, `a` being the assembler before it and `after`
the directives after it. -/
structure Keeps (img : Image) (a : Assembler) (d : Directive) (after : List Directive) : Prop where
  routine : ∀ argc locals, d = .routine argc locals → ∃ id r, (a.apply d).2 = .ok (some id) ∧
    img.routine? id = some r ∧ r.argc = argc ∧ r.locals = locals ∧ r.entry.toNat = a.here
  global : ∀ v, d = .global v → ∃ index, (a.apply d).2 = .ok (some index) ∧
    img.global? index = some v
  instruction : d.emits = true → ∃ i, d.Means a.here (a.target d after) i ∧
    decode img.fetch a.here = .instruction i ∧
    a.here + i.size = (a.apply d).1.nextEmission after ∧
    ∀ (σ : Type) (p : Peripherals σ) (e : Engine σ), e.thread.state = .executing →
      e.thread.pc = a.here → e.image.code = img.code → ¬ Transfers i.byte e.thread →
      ∀ o e', e.step p = (.ok o, e') → e'.thread.pc = (a.apply d).1.nextEmission after
  jump : ∀ (σ : Type) (p : Peripherals σ) (e : Engine σ), e.thread.state = .executing →
    e.thread.pc = a.here → e.image.code = img.code → d.Taken e.thread →
    ∃ e', e.step p = (.ok .running, e') ∧ e'.thread.pc = a.target d after

variable {a : Assembler} {d : Directive} {ds : List Directive}

/-! ## the finished image -/

theorem finish_eq_ok {main : Nat} {img : Image} (h : a.finish main = .ok img) :
    a.error = none ∧ img = .ofParts a.routines.toList a.globals.toList a.code.toList main := by
  unfold finish at h
  split at h
  · cases h
  · next hnone =>
    split at h
    · cases h
    · cases h
      exact ⟨hnone, rfl⟩

theorem fetch_finish {main : Nat} {img : Image} (h : a.finish main = .ok img) :
    img.fetch = fun pc => a.code[pc]? := by
  obtain ⟨-, rfl⟩ := finish_eq_ok h
  funext pc
  rw [Image.fetch_eq_code]
  exact (congrArg (·[pc]?) (Image.code_ofSegments ..)).trans Array.getElem?_toList

/-! ## routines and globals -/

theorem routine_finish {argc locals : UInt8} {main : Nat} {img : Image}
    (h : (a.applyAll (.routine argc locals :: ds)).finish main = .ok img) :
    ∃ r, img.routine? a.routines.size = some r ∧ r.argc = argc ∧ r.locals = locals ∧
      r.entry.toNat = a.here := by
  obtain ⟨hnone, rfl⟩ := finish_eq_ok h
  have hlt : a.here < 65536 := by
    simpa [Directive.overflow?] using fits_of_applyAll hnone
  have hpushed : (a.apply (.routine argc locals)).1.routines[a.routines.size]? =
      some ⟨argc, locals, UInt16.ofNat a.here⟩ := by
    rw [(obeys_apply a _).routines]
    show (a.routines.push ⟨argc, locals, if a.here < 65536 then UInt16.ofNat a.here else 0⟩)[_]? = _
    rw [if_pos hlt]
    exact Array.getElem?_push_size
  refine ⟨⟨argc, locals, UInt16.ofNat a.here⟩, ?_, rfl, rfl, UInt16.toNat_ofNat_of_lt' hlt⟩
  rw [Image.routine?_ofParts, Array.getElem?_toList]
  exact routine_applyAll hpushed ds

theorem global_finish {v : Value} {main : Nat} {img : Image}
    (h : (a.applyAll (.global v :: ds)).finish main = .ok img) :
    a.globals.size < 256 ∧ img.global? a.globals.size = some v := by
  obtain ⟨hnone, rfl⟩ := finish_eq_ok h
  have hlt : a.globals.size < 256 := by
    simpa [Directive.overflow?] using fits_of_applyAll hnone
  have hpushed : (a.apply (.global v)).1.globals[a.globals.size]? = some v := by
    rw [(obeys_apply a _).globals]
    exact Array.getElem?_push_size
  refine ⟨hlt, ?_⟩
  rw [Image.global?_ofParts, Array.getElem?_toList]
  exact global_applyAll hpushed ds

/-! ## emitted instructions -/

theorem emits_eq (d : Directive) (here : Nat) : d.emits = (d.emission? here).isSome := by
  cases d with
  | builtin name => exact Option.isSome_map.symm
  | _ => rfl

theorem opens_iff : d.opens = true ↔ d = .jmp ∨ d = .jz := by
  cases d <;> simp [Directive.opens]

theorem here_apply_of_emission {i : Instruction} (h : d.emission? a.here = some i) :
    (a.apply d).1.here = a.here + i.size :=
  (congrArg Array.size ((writes_apply a d).emission h).1).trans (size_append_encode a.code i)

theorem here_apply_of_not_emits (h : d.emits = false) : (a.apply d).1.here = a.here := by
  cases writes_apply a d with
  | emits i emission _ _ =>
    rw [emits_eq d a.here, emission] at h
    cases h
  | aims j site t _ _ code _ =>
    exact (congrArg Array.size code).trans (here_setDisplacement a site _)
  | rests _ _ code _ => exact congrArg Array.size code

theorem nextEmission_eq (a : Assembler) (ds : List Directive) : a.nextEmission ds = a.here := by
  induction ds generalizing a with
  | nil => rfl
  | cons d ds ih =>
    unfold nextEmission
    split
    · rfl
    · next h =>
      rw [ih]
      exact here_apply_of_not_emits (Bool.eq_false_iff.mpr h)

theorem aimsAt?_of_aim {here j : Nat} {t : UInt64} (aim : d.aim? here = some (j, t))
    (small : ∀ t ∈ d.names? here, t < 2 ^ 63) :
    d.aimsAt? here j = some t.toNat ∧ t.toNat < 2 ^ 63 := by
  cases d with
  | patch jump t' =>
    cases aim
    exact ⟨if_pos rfl, small _ rfl⟩
  | patchHere jump =>
    cases aim
    have hlt : here < 2 ^ 63 := small _ rfl
    have hnat : (UInt64.ofNat here).toNat = here :=
      UInt64.toNat_ofNat_of_lt' (Nat.lt_trans hlt (by decide))
    rw [hnat]
    exact ⟨if_pos rfl, hlt⟩
  | _ => cases aim

theorem aimsAt?_eq_none {here j : Nat} (other : ∀ t, d.aim? here ≠ some (j, t)) :
    d.aimsAt? here j = none := by
  cases d with
  | patch jump t =>
    have hne : jump ≠ j := fun hj => other t (by rw [hj]; rfl)
    exact if_neg hne
  | patchHere jump =>
    have hne : jump ≠ j := fun hj => other (UInt64.ofNat here) (by rw [hj]; rfl)
    exact if_neg hne
  | _ => rfl

theorem reach_displacement {here : Nat} {t : UInt64} (fits : tooFar? (here + 1) t = none)
    (small : t.toNat < 2 ^ 63) :
    (t.toNat : Int) = here + 3 + (displacement (here + 1) t).toInt := by
  have hreach := toInt_displacement fits small
  omega

theorem Stands.lastTarget {o j t : Nat} {jump : Value → Instruction} {x : Value}
    (hjump : jump = .jmp ∨ jump = .jz) (h : Stands a o (jump x) (some j))
    (reach : (t : Int) = o + 3 + x.toInt) (inMemory : a.InMemory ds)
    (ok : (a.applyAll ds).error = none) :
    ∃ y : Value, Stands (a.applyAll ds) o (jump y) (some j) ∧
      (a.lastTarget j t ds : Int) = o + 3 + y.toInt := by
  induction ds generalizing a t x with
  | nil => exact ⟨x, h, reach⟩
  | cons d ds ih =>
    unfold lastTarget
    by_cases own : ∃ t', d.aim? a.here = some (j, t')
    · obtain ⟨t', aim⟩ := own
      obtain ⟨haims, hsmall⟩ := aimsAt?_of_aim aim inMemory.1
      have hfits : tooFar? (o + 1) t' = none := by
        have hover := fits_of_applyAll ok
        rw [overflow?_of_aim aim, h.numbered j rfl] at hover
        exact hover
      rw [haims]
      exact ih (h.apply_own hjump aim) (reach_displacement hfits hsmall) inMemory.2 ok
    · have other : ∀ t', d.aim? a.here ≠ some (j, t') := fun t' aim => own ⟨t', aim⟩
      rw [aimsAt?_eq_none other]
      refine ih (h.apply fun j' t' aim hj => ?_) reach inMemory.2 ok
      cases hj
      exact other t' aim

theorem means_emission {i : Instruction} (emission : d.emission? a.here = some i)
    (closed : d.opens = false) (fits : d.overflow? a = none)
    (small : ∀ t ∈ d.names? a.here, t < 2 ^ 63) (after : List Directive) :
    d.Means a.here (a.target d after) i := by
  cases d with
  | pushConst v => cases emission; exact .pushConst v
  | zero => cases emission; exact .zero
  | drop => cases emission; exact .drop
  | getGlobal index => cases emission; exact .getGlobal index
  | setGlobal index => cases emission; exact .setGlobal index
  | getLocal index => cases emission; exact .getLocal index
  | setLocal index => cases emission; exact .setLocal index
  | ret count => cases emission; exact .ret count
  | call id =>
    have hlt : id < 256 := by simpa [Directive.overflow?] using fits
    have hid : (UInt8.ofNat id).toNat = id := UInt8.toNat_ofNat_of_lt' hlt
    have hcall : i = .call (UInt8.ofNat id) := by
      simpa [Directive.emission?, hlt] using emission.symm
    have hmeans : Directive.Means a.here (a.target (.call id) after)
      (.call (UInt8.ofNat id).toNat) (.call (UInt8.ofNat id)) := .call _
    rw [hid] at hmeans
    exact hcall ▸ hmeans
  | builtin name =>
    obtain ⟨b, hb, rfl⟩ := Option.map_eq_some_iff.mp emission
    rw [← Builtin.name_of_ofName? hb]
    exact .builtin b
  | jmpTo t =>
    cases emission
    exact .jmpTo t (reach_displacement fits (small _ rfl))
  | jzTo t =>
    cases emission
    exact .jzTo t (reach_displacement fits (small _ rfl))
  | jmp => cases closed
  | jz => cases closed
  | routine argc locals => cases emission
  | global v => cases emission
  | patch jump t => cases emission
  | patchHere jump => cases emission

theorem opened_stands {jump : Value → Instruction} (hjump : jump = .jmp ∨ jump = .jz)
    (sited : Sited a) (hd : d.opens = true) (emission : d.emission? a.here = some (jump 0))
    (inMemory : a.InMemory (d :: ds)) (ok : (a.applyAll (d :: ds)).error = none) :
    ∃ y : Value, Stands (a.applyAll (d :: ds)) a.here (jump y) (some a.jumps.size) ∧
      ((a.apply d).1.lastTarget a.jumps.size (a.here + 3) ds : Int) = a.here + 3 + y.toInt := by
  have hstands := stands_emission sited emission
  rw [if_pos hd] at hstands
  have hreach : ((a.here + 3 : Nat) : Int) = a.here + 3 + (0 : Value).toInt := by
    rw [Int16.toInt_zero]
    omega
  exact hstands.lastTarget hjump hreach inMemory.2 ok

theorem emitted_stands (sited : Sited a) (emits : d.emits = true)
    (inMemory : a.InMemory (d :: ds)) (ok : (a.applyAll (d :: ds)).error = none) :
    ∃ i number, Stands (a.applyAll (d :: ds)) a.here i number ∧
      d.Means a.here (a.target d ds) i ∧ (a.apply d).1.here = a.here + i.size := by
  rw [emits_eq d a.here] at emits
  obtain ⟨i, emission⟩ := Option.isSome_iff_exists.mp emits
  have hhere := here_apply_of_emission emission
  by_cases hopens : d.opens = true
  · rcases opens_iff.mp hopens with rfl | rfl
    · cases emission
      obtain ⟨y, hstands, hreach⟩ := opened_stands (.inl rfl) sited rfl rfl inMemory ok
      exact ⟨.jmp y, _, hstands, .jmp hreach, hhere⟩
    · cases emission
      obtain ⟨y, hstands, hreach⟩ := opened_stands (.inr rfl) sited rfl rfl inMemory ok
      exact ⟨.jz y, _, hstands, .jz hreach, hhere⟩
  · have hstands := stands_emission sited emission
    rw [if_neg hopens] at hstands
    refine ⟨i, none, hstands.applyAll ds, ?_, hhere⟩
    exact means_emission emission (Bool.eq_false_iff.mpr hopens) (fits_of_applyAll ok) inMemory.1 ds

/-! ## executing what was assembled -/

theorem Stands.decode {o : Nat} {i : Instruction} {number : Option Nat}
    (h : Stands a o i number) {main : Nat} {img : Image} (done : a.finish main = .ok img) :
    decode img.fetch o = .instruction i := by
  rw [fetch_finish done]
  exact decode_of_encode _ o i h.bytes

theorem means_jumps {here target : Nat} {i : Instruction} {t : Thread}
    (h : d.Means here target i) (taken : d.Taken t) :
    ∃ x, Jumps t i x ∧ (target : Int) = here + 3 + x.toInt := by
  cases taken with
  | jmpTo =>
    cases h with
    | jmpTo _ reach => exact ⟨_, .jmp _, reach⟩
  | jmp =>
    cases h with
    | jmp reach => exact ⟨_, .jmp _, reach⟩
  | jzTo _ one zero =>
    cases h with
    | jzTo _ reach => exact ⟨_, .jz _ one zero, reach⟩
  | jz one zero =>
    cases h with
    | jz reach => exact ⟨_, .jz _ one zero, reach⟩

theorem emits_of_taken {t : Thread} (h : d.Taken t) : d.emits = true := by
  cases h <;> rfl

theorem decoded_of_code {σ : Type} {e : Engine σ} {img : Image} {o : Nat}
    (hpc : e.thread.pc = o) (hcode : e.image.code = img.code) :
    e.decoded = TickMachine.decode img.fetch o := by
  rw [Engine.decoded_eq, hcode, hpc, Image.fetch_eq_reading]

theorem keeps_directive (sited : Sited a) {main : Nat} {img : Image}
    (inMemory : a.InMemory (d :: ds)) (h : (a.applyAll (d :: ds)).finish main = .ok img) :
    Keeps img a d ds := by
  have ok := (finish_eq_ok h).1
  refine ⟨?_, ?_, fun emits => ?_, fun σ p e hx hpc hcode taken => ?_⟩
  · rintro argc locals rfl
    exact ⟨a.routines.size, (routine_finish h).imp fun r hr => ⟨rfl, hr⟩⟩
  · rintro v rfl
    obtain ⟨hlt, hv⟩ := global_finish h
    exact ⟨a.globals.size, by simp [Assembler.apply, hlt], hv⟩
  · obtain ⟨i, number, hstands, hmeans, hhere⟩ := emitted_stands sited emits inMemory ok
    have hdec := hstands.decode h
    have hnext : a.here + i.size = (a.apply d).1.nextEmission ds := by
      rw [nextEmission_eq, hhere]
    refine ⟨i, hmeans, hdec, hnext, fun σ p e hx hpc hcode stays o e' hstep => ?_⟩
    have hd := (decoded_of_code hpc hcode).trans hdec
    rw [← hnext, ← hpc]
    exact Engine.step_falls_through hx hd stays hstep
  · obtain ⟨i, number, hstands, hmeans, -⟩ := emitted_stands sited (emits_of_taken taken) inMemory ok
    have hd := (decoded_of_code hpc hcode).trans (hstands.decode h)
    obtain ⟨x, hjumps, hreach⟩ := means_jumps hmeans taken
    rw [← hpc] at hreach
    exact Engine.step_jumps hx hd hjumps hreach

theorem InMemory.after {before : List Directive} (h : a.InMemory (before ++ ds)) :
    (a.applyAll before).InMemory ds := by
  induction before generalizing a with
  | nil => exact h
  | cons d before ih => exact ih h.2

/-- An image that was assembled without an error holds what every directive asked for. -/
theorem finish_keeps_directives {main : Nat} {img : Image}
    (inMemory : InMemory {} ds) (h : (applyAll {} ds).finish main = .ok img)
    (before : List Directive) (d : Directive) (after : List Directive)
    (split : ds = before ++ d :: after) : Keeps img (applyAll {} before) d after := by
  subst split
  rw [applyAll_append] at h
  exact keeps_directive (sited_empty.applyAll before) inMemory.after h

/-- A jump over a constant and a jump back.  It is aimed at the constant, then at the start, and in
the end past both. -/
def detour : List Directive :=
  [.global 5, .routine 0 1, .zero, .jmp, .patchHere 0, .pushConst 7, .patch 0 0, .jz, .patchHere 0,
    .patch 1 1, .call 0, .jmpTo 1]

def detouring : Engine Unit where
  image := .ofParts [⟨0, 1, 0⟩] [5]
    [0x01, 0x14, 6, 0, 0x00, 7, 0, 0x15, 0xF7, 0xFF, 0x0A, 0, 0x14, 0xF2, 0xFF] 0
  thread := { Thread.idle with state := .executing, routine := some 0, pc := 1, sp := 1 }
  devices := ()

theorem finish_keeps_directives_detouring :
    (applyAll {} detour).finish 0 = .ok detouring.image ∧
    InMemory {} detour ∧
    ∃ e', detouring.step Engine.silent = (.ok .running, e') ∧ e'.thread.pc = 10 := by
  have hdone : (applyAll {} detour).finish 0 = .ok detouring.image := rfl
  have hsmall : InMemory {} detour := by decide +kernel
  have hkeeps := finish_keeps_directives hsmall hdone [.global 5, .routine 0 1, .zero] .jmp
    (detour.drop 4) rfl
  exact ⟨hdone, hsmall, hkeeps.jump Unit Engine.silent detouring rfl rfl rfl .jmp⟩

end Assembler
end TickMachine
