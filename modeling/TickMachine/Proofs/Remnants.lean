import TickMachine.Proofs.Calls
import TickMachine.Proofs.Lifecycle
import TickMachine.Proofs.Lockstep
import TickMachine.Peripherals.Recorded

/-!
# What an earlier program leaves behind

A thread that enters a routine keeps what its slots and frames hold from before.  If no routine
has locals, a program never gets to see any of it.  This is not because it only reads live slots:
a routine may drop its own arguments and still read them, and a return uncovers slots of the
routine that returned.  But each slot it can read has been written since the routine was entered.

* `Thread.Agrees`   threads that are the same but for slots from some height on and frames that
                       are not saved, where the activations lie below that height;
* `Performs.agrees`, `Exec.fails_execute_of_agrees`   an instruction succeeds on both or fails on
                       both;
* `Engine.Agrees.step`, `Engine.Agrees.run`   steps and runs;
* `Situation.after_agrees`, `Machine.Twins.ticked`   whatever happens, and frame ticks;
* `remnants_unseen`   what is left over makes no difference.
-/

namespace TickMachine

variable {σ : Type}

/-- No routine has locals besides its arguments. -/
def Image.NoLocals (img : Image) : Prop := ∀ i r, img.routine? i = some r → r.locals = 0

theorem Image.NoLocals.frameSize {img : Image} (h : img.NoLocals) {i : Nat} {r : Routine}
    (hr : img.routine? i = some r) : r.frameSize = r.argc.toNat := by
  rw [Routine.frameSize, h i r hr]
  rfl

/-! ## threads that agree below some height -/

namespace Thread

/-- `Agrees img top t u`: the threads differ only in slots from `top` on and in frames that are not
saved, and their stack and the slots of all their activations lie below `top`. -/
structure Agrees (img : Image) (top : Nat) (t u : Thread) : Prop where
  registers : u = { t with stack := u.stack, frames := u.frames }
  slot : ∀ k < top, u.slot k = t.slot k
  frame : ∀ i < t.depth, u.frame i = t.frame i
  top_le : top ≤ stackSize
  sp_le : t.sp ≤ top
  covers : ∀ i ≤ t.depth, ∀ k r, t.routineAt i = some k → img.routine? k = some r →
    t.fpAt i + r.frameSize ≤ top

namespace Agrees

variable {img : Image} {top : Nat} {t u : Thread}

theorem slots (h : Agrees img top t u) {i n : Nat} (hn : i + n ≤ top) :
    u.slots i n = t.slots i n := by
  unfold Thread.slots
  apply List.map_congr_left
  intro k hk
  have := List.mem_range.mp hk
  exact h.slot (i + k) (by omega)

theorem setRegisters (h : Agrees img top t u) (state : ThreadState) (paused pc : Nat) {sp : Nat}
    (hs : sp ≤ top) :
    Agrees img top { t with state := state, paused := paused, pc := pc, sp := sp }
      { u with state := state, paused := paused, pc := pc, sp := sp } where
  registers := by rw [h.registers]
  slot := h.slot
  frame := h.frame
  top_le := h.top_le
  sp_le := hs
  covers := h.covers

theorem setSlot (h : Agrees img top t u) {k : Nat} (hk : k ≤ top) (room : k < stackSize)
    (v : Value) : Agrees img (max top (k + 1)) (t.setSlot k v) (u.setSlot k v) where
  registers := by rw [h.registers]; rfl
  slot j hj := by
    by_cases hjk : k = j
    · subst hjk
      rw [slot_setSlot_self u k v room, slot_setSlot_self t k v room]
    · rw [slot_setSlot_of_ne u v hjk, slot_setSlot_of_ne t v hjk]
      exact h.slot j (by omega)
  frame := h.frame
  top_le := Nat.max_le.mpr ⟨h.top_le, room⟩
  sp_le := Nat.le_trans h.sp_le (Nat.le_max_left _ _)
  covers i hi k r hr hs := Nat.le_trans (h.covers i hi k r hr hs) (Nat.le_max_left _ _)

theorem setSlots (h : Agrees img top t u) {i : Nat} {vs : List Value} (hi : i + vs.length ≤ top) :
    Agrees img top (t.setSlots i vs) (u.setSlots i vs) := by
  induction vs generalizing t u i with
  | nil => exact h
  | cons v vs ih =>
    rw [List.length_cons] at hi
    have htop := h.top_le
    have hv := h.setSlot (k := i) (by omega) (by omega) v
    rw [Nat.max_eq_left (by omega)] at hv
    exact ih hv (by omega)

theorem exists_stores (h : Agrees img top t u) :
    ∃ stack frames, u = { t with stack := stack, frames := frames } :=
  ⟨_, _, h.registers⟩

theorem state_eq (h : Agrees img top t u) : u.state = t.state := by rw [h.registers]

theorem routine_eq (h : Agrees img top t u) : u.routine = t.routine := by rw [h.registers]

theorem pc_eq (h : Agrees img top t u) : u.pc = t.pc := by rw [h.registers]

theorem sp_eq (h : Agrees img top t u) : u.sp = t.sp := by rw [h.registers]

theorem fp_eq (h : Agrees img top t u) : u.fp = t.fp := by rw [h.registers]

theorem depth_eq (h : Agrees img top t u) : u.depth = t.depth := by rw [h.registers]

theorem top_eq (h : Agrees img top t u) (one : t.fp + 1 ≤ t.sp) : u.top = t.top := by
  obtain ⟨stack, frames, rfl⟩ := h.exists_stores
  have hsp := h.sp_le
  exact h.slot (t.sp - 1) (by omega)

theorem push (h : Agrees img top t u) (room : t.sp < stackSize) (v : Value) (next : Nat) :
    Agrees img (max top (t.sp + 1)) ((t.push v).jump next) ((u.push v).jump next) := by
  obtain ⟨stack, frames, rfl⟩ := h.exists_stores
  exact (h.setSlot h.sp_le room v).setRegisters t.state t.paused next (Nat.le_max_right _ _)

theorem drop (h : Agrees img top t u) (next : Nat) :
    Agrees img top (t.drop.jump next) (u.drop.jump next) := by
  obtain ⟨stack, frames, rfl⟩ := h.exists_stores
  have hsp := h.sp_le
  exact h.setRegisters t.state t.paused next (Nat.le_trans (Nat.sub_le _ _) hsp)

theorem store (h : Agrees img top t u) (one : t.fp + 1 ≤ t.sp) {k : Nat} (hk : k < top)
    (next : Nat) :
    Agrees img (max top (k + 1)) ((t.drop.setSlot k t.top).jump next)
      ((u.drop.setSlot k u.top).jump next) := by
  rw [h.top_eq one]
  exact (h.drop next).setSlot (Nat.le_of_lt hk) (Nat.lt_of_lt_of_le hk h.top_le) t.top

theorem setSp (h : Agrees img top t u) {sp : Nat} (hs : sp ≤ top) :
    Agrees img top { t with sp := sp } { u with sp := sp } := by
  obtain ⟨stack, frames, rfl⟩ := h.exists_stores
  exact h.setRegisters t.state t.paused t.pc hs

theorem setState (h : Agrees img top t u) (state : ThreadState) :
    Agrees img top { t with state := state } { u with state := state } := by
  obtain ⟨stack, frames, rfl⟩ := h.exists_stores
  exact h.setRegisters state t.paused t.pc h.sp_le

theorem pause (h : Agrees img top t u) (count : Value) :
    Agrees img top (t.pause count) (u.pause count) := by
  obtain ⟨stack, frames, rfl⟩ := h.exists_stores
  unfold Thread.pause
  split
  · exact h.setRegisters .suspended count.toNatClampNeg t.pc h.sp_le
  · exact h

/-- A return moves values down, from below the stack pointer to further below. -/
theorem collapse (h : Agrees img top t u) (count size : Nat) (values : size + count ≤ t.sp) :
    Agrees img top (t.collapse count size) (u.collapse count size) := by
  have hsp := h.sp_le
  have hu : u.collapse count size =
      { u.setSlots (t.sp - count - size) (t.slots (t.sp - count) count) with
        sp := t.sp - count - size + count } := by
    have husp : u.sp = t.sp := by rw [h.registers]
    unfold Thread.collapse
    rw [husp, h.slots (by omega)]
  rw [hu]
  refine (h.setSlots ?_).setSp (by omega)
  rw [length_slots]
  omega

theorem descend (h : Agrees img top t u) (no : img.NoLocals) {i k next : Nat} {callee : Routine}
    (found : img.routine? k = some callee) (inside : t.routine = some i)
    (provided : callee.argc.toNat ≤ t.sp) (frames : t.depth < maxFrames) :
    Agrees img top (t.descend i next k callee) (u.descend i next k callee) := by
  obtain ⟨stack, stale, rfl⟩ := h.exists_stores
  have hshares : t.Shares (t.descend i next k callee) := t.descend_shares inside frames
  have hsp := h.sp_le
  have hlocals : callee.locals.toNat = 0 := by rw [no k callee found]; rfl
  refine ⟨rfl, h.slot, ?_, h.top_le, ?_, ?_⟩
  · intro j hj
    rcases Nat.lt_or_eq_of_le (Nat.le_of_lt_succ hj) with hj | rfl
    · rw [hshares.frame j hj (Nat.lt_succ_of_lt hj), ← h.frame j hj]
      exact frame_save_of_ne _ _ (Nat.ne_of_lt hj)
    · have hown : (t.descend i next k callee).frame t.depth = ⟨i, next, t.fp⟩ :=
        frame_save_self t _ frames
      rw [hown]
      exact frame_save_self { t with stack := stack, frames := stale } _ frames
  · show t.sp + callee.locals.toNat ≤ top
    omega
  · intro j hj k' r hk hr
    rcases Nat.lt_or_eq_of_le hj with hj | rfl
    · have hj' : j ≤ t.depth := Nat.le_of_lt_succ hj
      rw [hshares.routineAt j hj' (Nat.le_of_lt hj)] at hk
      rw [hshares.fpAt j hj' (Nat.le_of_lt hj)]
      exact h.covers j hj' k' r hk hr
    · -- the callee's slots are its arguments, which lie on the caller's stack
      rw [routineAt_depth] at hk
      cases hk
      rw [fpAt_depth, no.frameSize hr]
      cases found.symm.trans hr
      show t.sp - callee.argc.toNat + callee.argc.toNat ≤ top
      omega

theorem restore (h : Agrees img top t u) (inner : t.depth ≠ 0) :
    Agrees img top t.restore u.restore := by
  obtain ⟨stack, stale, rfl⟩ := h.exists_stores
  have hshares := t.restore_shares inner
  have hdepth : t.restore.depth = t.depth - 1 := rfl
  have hlast := h.frame (t.depth - 1) (by omega)
  refine ⟨?_, h.slot, fun j hj => h.frame j (by omega), h.top_le, h.sp_le, ?_⟩
  · unfold Thread.restore
    dsimp only at hlast ⊢
    rw [hlast]
  · intro j hj k r hk hr
    have hj' : j ≤ t.depth := by omega
    rw [hshares.routineAt j hj' hj] at hk
    rw [hshares.fpAt j hj' hj]
    exact h.covers j hj' k r hk hr

theorem settle (h : Agrees img top t u) {base : Nat} (hb : base ≤ top) (room : base < stackSize)
    (v : Value) (next : Nat) :
    Agrees img (max top (base + 1)) (t.settle base v next) (u.settle base v next) := by
  obtain ⟨stack, stale, rfl⟩ := h.exists_stores
  exact (h.setSlot hb room v).setRegisters t.state t.paused next (Nat.le_max_right _ _)

theorem slot_lt (h : Agrees img top t u) {i k : Nat} {r : Routine} (inside : t.routine = some i)
    (found : img.routine? i = some r) (hk : k < r.frameSize) : t.fp + k < top := by
  have hc := h.covers t.depth (Nat.le_refl _) i r (by rw [routineAt_depth, inside]) found
  rw [fpAt_depth] at hc
  omega

theorem tick (h : Agrees img top t u) : Agrees img top t.tick u.tick := by
  obtain ⟨stack, stale, rfl⟩ := h.exists_stores
  unfold Thread.tick
  dsimp only
  split
  · exact h
  · split
    · exact h.setRegisters .executing 0 t.pc h.sp_le
    · exact h.setRegisters t.state (t.paused - 1) t.pc h.sp_le

theorem stop (h : Agrees img top t u) : Agrees img top t.stop u.stop := by
  obtain ⟨stack, stale, rfl⟩ := h.exists_stores
  exact h.setRegisters .terminated 0 t.pc h.sp_le

theorem setGlobal (h : Agrees img top t u) (k : Nat) (v : Value) :
    Agrees (img.setGlobal k v) top t u :=
  { h with covers := h.covers }

theorem arguments (h : Agrees img top t u) (b : Builtin) {base : Nat} (hb : base + b.arity ≤ top) :
    Exec.arguments u b base = Exec.arguments t b base := by
  unfold Exec.arguments
  congr 1
  funext i
  exact h.slot (base + i) (by omega)

end Agrees
end Thread

/-! ## instructions -/

/-- The engines differ only in what their threads hold above some height. -/
structure Engine.Agrees (e d : Engine σ) : Prop where
  image : d.image = e.image
  devices : d.devices = e.devices
  noLocals : e.image.NoLocals
  thread : ∃ top, e.thread.Agrees e.image top d.thread

theorem Action.effect_agrees (p : Peripherals σ) {e : Engine σ} {top : Nat} {u : Thread}
    (h : e.thread.Agrees e.image top u) (a : Action) :
    ∃ u', a.effect p { e with thread := u } =
        ((a.effect p e).1, { (a.effect p e).2 with thread := u' }) ∧
      (a.effect p e).2.thread.Agrees e.image top u' := by
  cases a with
  | yield v => exact ⟨u, rfl, h⟩
  | ask r => exact ⟨u, rfl, h⟩
  | sleep count => exact ⟨u.pause count, rfl, h.pause count⟩

theorem Performs.agrees {p : Peripherals σ} {e d e' : Engine σ} {next : Nat} {i : Instruction}
    {o : Outcome} (h : e.Agrees d) (hp : Performs p e next i o e') :
    ∃ d', Performs p d next i o d' ∧ e'.Agrees d' := by
  obtain ⟨himg, hdev, no, top, ht⟩ := h
  obtain ⟨⟨image, u⟩, devices⟩ := d
  dsimp only at himg hdev ht
  subst himg hdev
  -- from here on the registers of the two threads are the same by definition
  obtain ⟨stack, stale, rfl⟩ := ht.exists_stores
  have hsp := ht.sp_le
  cases hp with
  | @push i v pushes room =>
    refine ⟨_, .push (v := v) ?_ room, rfl, rfl, no, _, ht.push room v next⟩
    cases pushes with
    | const v => exact .const v
    | zero => exact .zero
    | global found => exact .global found
    | @slot k i r runs inFrame inStack =>
      -- the slot may lie above the stack pointer, but it is one of the activation's own
      rw [← ht.slot _ (ht.slot_lt runs.1 runs.2 inFrame)]
      exact .slot runs inFrame inStack
  | drop one => exact ⟨_, .drop one, rfl, rfl, no, _, ht.drop next⟩
  | setGlobal one found =>
    refine ⟨_, .setGlobal one found, ?_, rfl, no, _, (ht.drop next).setGlobal _ _⟩
    exact congrArg (e.image.setGlobal _) (ht.top_eq one)
  | @setLocal k i r runs inFrame inStack one =>
    have hk := ht.slot_lt runs.1 runs.2 inFrame
    exact ⟨_, .setLocal runs inFrame inStack one, rfl, rfl, no, _, ht.store one hk next⟩
  | jmp reach =>
    exact ⟨_, .jmp reach, rfl, rfl, no, _,
      ht.setRegisters e.thread.state e.thread.paused _ hsp⟩
  | jz one reach =>
    refine ⟨_, .jz one reach, rfl, rfl, no, top, ?_⟩
    dsimp only
    rw [ht.top_eq one]
    exact ht.drop _
  | call found runs provided frames room =>
    refine ⟨_, .call found runs provided frames room, rfl, rfl, no, top, ?_⟩
    exact ht.descend no found runs.1 (by omega) frames
  | back runs values inner =>
    refine ⟨_, .back runs values inner, rfl, rfl, no, top, ?_⟩
    exact (ht.collapse _ _ (by omega)).restore (by rwa [Thread.collapse_depth])
  | @finish n i r runs values outer =>
    have hc := ht.collapse n.toNat r.frameSize (by omega)
    have hslots := hc.slots (i := e.thread.sp - n.toNat - r.frameSize) (n := n.toNat) (by omega)
    rw [← hslots]
    exact ⟨_, .finish runs values outer, rfl, rfl, no, _, hc.setState .terminated⟩
  | @builtin b a v e₁ args room does effect =>
    obtain ⟨u₁, hd, h₁⟩ := a.effect_agrees p ht
    have himage := (a.effect_thread p e).1
    rw [effect] at hd h₁ himage
    dsimp only at hd h₁ himage
    rw [← ht.arguments b (by omega)] at does
    have hd' : Performs p { e with thread := { e.thread with stack := stack, frames := stale } }
        next (.builtin b) _ _ := .builtin args room does hd
    rw [← h₁.state_eq]
    rw [← himage] at h₁ no
    exact ⟨_, hd', rfl, rfl, no, _, h₁.settle (by omega) room v next⟩

/-- An instruction that fails does so for what the threads agree on. -/
theorem Exec.fails_execute_of_agrees {p : Peripherals σ} {e d : Engine σ} {next : Nat}
    {i : Instruction} {c : Cause} (h : e.Agrees d) (hf : Fails (execute p i next) e c) :
    Fails (execute p i next) d c := by
  obtain ⟨top, ht⟩ := h.thread
  have himage := h.image
  have hsp := ht.sp_eq
  have hfp := ht.fp_eq
  have hruns : ∀ i r, d.Runs i r ↔ e.Runs i r := fun i r => by
    rw [Engine.Runs, Engine.Runs, himage, ht.routine_eq]
  have hlost : ∀ c, d.Lost c ↔ e.Lost c := fun c => by
    rw [Engine.Lost, Engine.Lost, himage, ht.routine_eq]
  cases i with
  | pushConst v => simpa [execute, hsp] using hf
  | zero => simpa [execute, hsp] using hf
  | drop => simpa [execute, hsp, hfp] using hf
  | getGlobal k => simpa [execute, hsp, himage] using hf
  | setGlobal k => simpa [execute, hsp, hfp, himage] using hf
  | getLocal k => simpa [execute, hsp, hfp, hruns, hlost] using hf
  | setLocal k => simpa [execute, hsp, hfp, hruns, hlost] using hf
  | call k =>
    have hcall := fails_call.mp hf
    refine fails_call.mpr ?_
    rw [himage, hsp, hfp, ht.depth_eq]
    simpa only [hruns, hlost] using hcall
  | ret n =>
    have hret := fails_ret.mp hf
    refine fails_ret.mpr ?_
    rw [hsp, hfp]
    simpa only [hruns, hlost] using hret
  | jmp v => simpa [execute] using hf
  | jz v => simpa [execute, hsp, hfp] using hf
  | builtin b =>
    refine fails_builtin.mpr ?_
    rw [hsp, hfp]
    rcases fails_builtin.mp hf with under | ⟨args, full | ⟨room, does⟩⟩
    · exact .inl under
    · exact .inr ⟨args, .inl full⟩
    · have htop := ht.sp_le
      exact .inr ⟨args, .inr ⟨room, by rw [ht.arguments b (by omega), does]⟩⟩

/-! ## steps and runs -/

namespace Engine

variable {p : Peripherals σ} {e d : Engine σ}

theorem Agrees.decoded (h : e.Agrees d) : d.decoded = e.decoded := by
  obtain ⟨top, ht⟩ := h.thread
  unfold Engine.decoded
  rw [h.image, ht.pc_eq]

theorem Agrees.fault (h : e.Agrees d) (opcode : Option UInt8) (c : Cause) :
    d.fault opcode c = e.fault opcode c := by
  obtain ⟨top, ht⟩ := h.thread
  unfold Engine.fault
  rw [ht.pc_eq, ht.sp_eq]

theorem Agrees.step (h : e.Agrees d) :
    (d.step p).1 = (e.step p).1 ∧ (e.step p).2.Agrees (d.step p).2 := by
  obtain ⟨top, ht⟩ := h.thread
  rcases hs : (e.step p).1 with f | o
  · have hd : (d.step p).1 = .error f := by
      obtain ⟨hx, hc⟩ := step_error_iff.mp hs
      refine step_error_iff.mpr ⟨by rw [ht.state_eq, hx], ?_⟩
      rw [h.decoded, ht.pc_eq]
      simp only [h.fault]
      rcases hc with hc | hc | hc | ⟨i, c, hi, hc, rfl⟩
      · exact .inl hc
      · exact .inr (.inl hc)
      · exact .inr (.inr (.inl hc))
      · exact .inr (.inr (.inr ⟨i, c, hi, Exec.fails_execute_of_agrees h hc, rfl⟩))
    rw [step_error_engine hs, step_error_engine hd]
    exact ⟨hd, h⟩
  · have hok : e.step p = (.ok o, (e.step p).2) := Prod.ext hs rfl
    rcases step_ok_iff.mp hok with ⟨hx, rfl, he⟩ | ⟨hx, i, hi, hp⟩
    · have hd : d.step p = (.ok .idle, d) := step_idle (by rwa [ht.state_eq])
      rw [hd, he]
      exact ⟨rfl, h⟩
    · obtain ⟨d', hd, h'⟩ := hp.agrees h
      rw [← ht.pc_eq] at hd
      have hd' : d.step p = (.ok o, d') :=
        step_ok_iff.mpr (.inr ⟨by rw [ht.state_eq, hx], i, h.decoded.trans hi, hd⟩)
      rw [hd']
      exact ⟨rfl, h'⟩

theorem Agrees.run (h : e.Agrees d) {fuel : Nat} {log : Array Event} {r : Run σ}
    (hr : e.run p fuel log = some r) (log' : Array Event) :
    ∃ r', d.run p fuel log' = some r' ∧ r'.result = r.result ∧ r.engine.Agrees r'.engine := by
  induction fuel generalizing e d log log' with
  | zero => cases hr
  | succ fuel ih =>
    obtain ⟨hresult, h'⟩ := h.step (p := p)
    rcases hs : e.step p with ⟨result, e₁⟩
    rcases hd : d.step p with ⟨result', d₁⟩
    rw [hs, hd] at hresult h'
    dsimp only at hresult h'
    subst hresult
    rw [Engine.run, hs] at hr
    rw [Engine.run, hd]
    split at hr
    · next heq =>
      cases heq
      exact ih h' hr _
    · next hne heq =>
      cases heq
      cases hr
      split
      · next heq => cases heq; exact (hne rfl).elim
      · next heq => cases heq; exact ⟨_, rfl, rfl, h'⟩

end Engine

/-- Whatever happens to both engines alike, they agree, unless a debugger interferes. -/
theorem Situation.after_agrees {p : Peripherals σ} {s s' : Situation σ}
    (h : s.engine.Agrees s'.engine) {hs : List (Happening σ)} (quiet : ∀ b, .byte b ∉ hs) :
    (s.after p hs).engine.Agrees (s'.after p hs).engine := by
  induction hs generalizing s s' with
  | nil => exact h
  | cons a hs ih =>
    refine ih ?_ fun b hb => quiet b (List.mem_cons_of_mem _ hb)
    obtain ⟨top, ht⟩ := h.thread
    cases a with
    | step => exact h.step.2
    | tick => exact ⟨h.image, h.devices, h.noLocals, top, ht.tick⟩
    | stop => exact ⟨h.image, h.devices, h.noLocals, top, ht.stop⟩
    | byte b => exact absurd List.mem_cons_self (quiet b)
    | devices d => exact ⟨h.image, rfl, h.noLocals, top, ht⟩

/-! ## frame ticks -/

namespace Machine

variable {p : Peripherals σ} {m n : Machine σ}

/-- Machines without a debugger that differ only in what an earlier program has left. -/
structure Twins (m n : Machine σ) : Prop where
  engine : m.engine.Agrees n.engine
  results : n.results = m.results
  alone : m.debugger = none
  alone' : n.debugger = none

theorem Twins.beginTick (h : Twins m n) : Twins (m.beginTick p) (n.beginTick p) := by
  obtain ⟨top, ht⟩ := h.engine.thread
  exact { h with engine :=
    ⟨h.engine.image, congrArg p.frameStart h.engine.devices, h.engine.noLocals, top, ht.tick⟩ }

theorem finish_alone (h : m.debugger = none) (vs : List Value) :
    (m.finish vs).1 = { m with results := some vs } := by
  simp [finish, h]

theorem Twins.conclude (h : Twins m n) (result : Except Fault Outcome) :
    Twins (m.conclude result).1 (n.conclude result).1 := by
  rcases result with f | o
  · obtain ⟨top, ht⟩ := h.engine.thread
    exact { h with engine :=
      ⟨h.engine.image, h.engine.devices, h.engine.noLocals, top, ht.stop⟩ }
  · cases o with
    | terminated vs =>
      show Twins (m.finish vs).1 (n.finish vs).1
      rw [finish_alone h.alone, finish_alone h.alone']
      exact { h with results := rfl }
    | idle => exact h
    | running => exact h
    | suspended => exact h

theorem Twins.closing (h : Twins m n) {r r' : Run σ} (hresult : r'.result = r.result)
    (hengine : r.engine.Agrees r'.engine) : Twins (m.closing p r) (n.closing p r') := by
  have hrun : Twins ({ m with engine := r.engine }.mapDevices p.frameEnd)
      ({ n with engine := r'.engine }.mapDevices p.frameEnd) :=
    { h with engine := { hengine with devices := congrArg p.frameEnd hengine.devices } }
  unfold Machine.closing
  rw [hresult]
  exact hrun.conclude r.result

theorem Twins.tick (h : Twins m n) {fuel : Nat} {u : Ticked σ} (hu : m.tick p fuel = some u) :
    ∃ u', n.tick p fuel = some u' ∧ u'.result = u.result ∧ Twins u.machine u'.machine := by
  unfold Machine.tick at hu ⊢
  obtain ⟨r, hr, rfl⟩ := Option.map_eq_some_iff.mp hu
  have hbegin := h.beginTick (p := p)
  obtain ⟨r', hr', hresult, hengine⟩ := hbegin.engine.run hr #[]
  dsimp only
  rw [hr']
  refine ⟨_, rfl, hresult, ?_⟩
  rw [endTick_alone hbegin.alone, endTick_alone hbegin.alone']
  exact hbegin.closing hresult hengine

theorem Twins.ticked (h : Twins m n) {fuels : List Nat} {results : List (Except Fault Outcome)}
    {m' : Machine σ} (ht : m.ticked p fuels = some (results, m')) :
    ∃ n', n.ticked p fuels = some (results, n') ∧ Twins m' n' := by
  induction fuels generalizing m n results with
  | nil =>
    cases ht
    exact ⟨n, rfl, h⟩
  | cons fuel more ih =>
    unfold Machine.ticked at ht ⊢
    simp only [Option.bind_eq_bind, Option.bind_eq_some_iff, Option.pure_def, Option.some.injEq,
      Prod.mk.injEq] at ht
    obtain ⟨u, hfirst, ⟨rs, m₁⟩, hrest, rfl, rfl⟩ := ht
    obtain ⟨u', hn, hresult, h'⟩ := h.tick hfirst
    obtain ⟨n', hmore, hlast⟩ := ih h' hrest
    refine ⟨n', ?_, hlast⟩
    simp [hn, hmore, hresult]

end Machine

/-! ## what can be seen of an engine -/

theorem take_toList_congr {α : Type} {size n : Nat} {xs ys : Vector α size} (a : α)
    (h : ∀ i < n, xs[i]?.getD a = ys[i]?.getD a) : xs.toList.take n = ys.toList.take n := by
  apply List.ext_getElem?
  intro i
  rw [List.getElem?_take, List.getElem?_take]
  split
  · next hi =>
    have hi' := h i hi
    by_cases hsize : i < size
    · simpa [hsize] using hi'
    · simp [hsize]
  · rfl

/-- The threads have the same registers, the same live stack and the same saved frames. -/
structure Thread.Resembles (t u : Thread) : Prop where
  registers : u = { t with stack := u.stack, frames := u.frames }
  live : u.live = t.live
  saved : u.saved = t.saved

/-- The engines have the same image, peripherals in the same state, and threads that resemble each
other. -/
structure Engine.Resembles (e d : Engine σ) : Prop where
  image : d.image = e.image
  devices : d.devices = e.devices
  thread : e.thread.Resembles d.thread

theorem Thread.Agrees.resembles {img : Image} {top : Nat} {t u : Thread}
    (h : t.Agrees img top u) : t.Resembles u := by
  have hsp := h.sp_le
  refine ⟨h.registers, ?_, ?_⟩
  · unfold Thread.live
    rw [h.sp_eq]
    exact take_toList_congr 0 fun i hi => h.slot i (by omega)
  · unfold Thread.saved
    rw [h.depth_eq]
    exact take_toList_congr ⟨0, 0, 0⟩ h.frame

theorem Engine.Agrees.resembles {e d : Engine σ} (h : e.Agrees d) : e.Resembles d := by
  obtain ⟨top, ht⟩ := h.thread
  exact ⟨h.image, h.devices, ht.resembles⟩

/-! ## entering a routine -/

theorem Thread.enter_agrees {img : Image} (no : img.NoLocals) {f : Nat} {r : Routine}
    (found : img.routine? f = some r) (argless : r.argc = 0) (t u : Thread) :
    ∃ t' u', t.enter img f = .ok t' ∧ u.enter img f = .ok u' ∧ t'.Agrees img 0 u' := by
  have hsize : r.frameSize = 0 := by rw [no.frameSize found, argless]; rfl
  unfold enter
  rw [found]
  refine ⟨_, _, rfl, rfl, rfl, ?_, ?_, Nat.zero_le _, Nat.le_of_eq hsize, ?_⟩
  · exact fun k hk => absurd hk (Nat.not_lt_zero k)
  · exact fun i hi => absurd hi (Nat.not_lt_zero i)
  · intro i hi k s hk hs
    obtain rfl := Nat.le_zero.mp hi
    cases hk
    cases found.symm.trans hs
    show 0 + r.frameSize ≤ 0
    omega

/-- **What an earlier program has left is never seen.**  Let no routine of an image have locals, and
enter a routine without arguments on any two threads.  Then whatever happens to the two engines
alike, each step has the same outcome on both, and they have the same image, with the same globals,
peripherals in the same state, the same registers, live stack and saved frames; and any number of
frame ticks give the same results.  As this is for all peripherals, also for those that keep a list
of what they are asked, the peripherals are asked the same. -/
theorem remnants_unseen (p : Peripherals σ) {img : Image} (no : img.NoLocals) {f : Nat}
    {r : Routine} (found : img.routine? f = some r) (argless : r.argc = 0) (t u : Thread)
    (devices : σ) :
    ∃ t' u', t.enter img f = .ok t' ∧ u.enter img f = .ok u' ∧
      (∀ hs : List (Happening σ), (∀ b, .byte b ∉ hs) →
        let e := (Situation.after p ⟨⟨⟨img, t'⟩, devices⟩, {}⟩ hs).engine
        let d := (Situation.after p ⟨⟨⟨img, u'⟩, devices⟩, {}⟩ hs).engine
        (d.step p).1 = (e.step p).1 ∧ e.Resembles d) ∧
      (∀ fuels results m,
        Machine.ticked p { engine := ⟨⟨img, t'⟩, devices⟩ } fuels = some (results, m) →
        ∃ n, Machine.ticked p { engine := ⟨⟨img, u'⟩, devices⟩ } fuels = some (results, n) ∧
          n.results = m.results ∧ m.engine.Resembles n.engine) := by
  obtain ⟨t', u', ht, hu, h⟩ := Thread.enter_agrees no found argless t u
  have hengine : Engine.Agrees (⟨⟨img, t'⟩, devices⟩ : Engine σ) ⟨⟨img, u'⟩, devices⟩ :=
    ⟨rfl, rfl, no, 0, h⟩
  refine ⟨t', u', ht, hu, ?_, ?_⟩
  · intro hs quiet e d
    have hafter : e.Agrees d := Situation.after_agrees hengine quiet
    exact ⟨hafter.step.1, hafter.resembles⟩
  · intro fuels results m hm
    have htwins : Machine.Twins { engine := (⟨⟨img, t'⟩, devices⟩ : Engine σ) }
        { engine := ⟨⟨img, u'⟩, devices⟩ } := ⟨hengine, rfl, rfl, rfl⟩
    obtain ⟨n, hn, hlast⟩ := htwins.ticked hm
    exact ⟨n, hn, hlast.results, hlast.engine.resembles⟩

/-- A program whose second routine drops its argument, reads it all the same and returns it; the
first one hands it to the random generator. -/
def rereading : Image :=
  .ofParts [⟨0, 0, 0⟩, ⟨1, 0, 8⟩] []
    [0x00, 5, 0, 0x0A, 1, 0xD1, 0x0D, 1, 0x02, 0x05, 0, 0x05, 0, 0x0D, 1] 0

/-- A thread in the middle of something else. -/
def Thread.littered : Thread where
  state := .suspended
  paused := 3
  routine := some 7
  pc := 99
  sp := 40
  fp := 20
  depth := 2
  frames := Vector.replicate maxFrames ⟨9, 9, 9⟩
  stack := Vector.replicate stackSize 77

theorem remnants_unseen_rereading :
    rereading.NoLocals ∧ rereading.routine? 0 = some ⟨0, 0, 0⟩ ∧
    ∃ t, Thread.littered.enter rereading 0 = .ok t ∧
      ∃ n, Machine.ticked (Recorded.peripherals Engine.silent)
          { engine := ⟨⟨rereading, t⟩, ⟨(), #[]⟩⟩ } [9] = some ([.ok (.terminated [0])], n) ∧
        n.engine.devices.calls = #[.frameStart, .request (.setRandomSeed 5), .frameEnd] := by
  have no : rereading.NoLocals := by
    intro i r hr
    have hmem := List.mem_of_getElem? ((Image.routine?_ofParts _ _ _ _ _).symm.trans hr)
    exact (by decide : ∀ r ∈ [(⟨0, 0, 0⟩ : Routine), ⟨1, 0, 8⟩], r.locals = 0) r hmem
  have found : rereading.routine? 0 = some ⟨0, 0, 0⟩ := rfl
  obtain ⟨t, u, ht, hu, -, hticks⟩ := remnants_unseen (Recorded.peripherals Engine.silent) no found
    rfl Thread.idle Thread.littered ⟨(), #[]⟩
  have hidle : Thread.idle.enter rereading 0 =
      .ok { Thread.idle with state := .executing, routine := some 0 } := rfl
  obtain rfl := Except.ok.inj (hidle.symm.trans ht)
  have hclean : (Machine.ticked (Recorded.peripherals Engine.silent)
      { engine := ⟨⟨rereading, { Thread.idle with state := .executing, routine := some 0 }⟩,
        ⟨(), #[]⟩⟩ } [9]).map
        (fun ran => (ran.1, ran.2.engine.devices.calls)) =
      some ([.ok (.terminated [0])],
        #[.frameStart, .request (.setRandomSeed 5), .frameEnd]) := by decide +kernel
  obtain ⟨⟨results, m⟩, hm, hran⟩ := Option.map_eq_some_iff.mp hclean
  obtain ⟨rfl, hcalls⟩ := Prod.mk.inj hran
  obtain ⟨n, hn, -, hlike⟩ := hticks [9] _ m hm
  exact ⟨no, found, u, hu, n, hn, by rw [hlike.devices, hcalls]⟩

end TickMachine
