import TickMachine.Proofs.Actions

/-!
# The rules of the instructions

What each instruction does when it succeeds, said once: its conditions and the engine after it.
Everything that is shown about steps is read off from these rules.

* `Performs`   the rules, one for each kind of instruction;
* `returns_execute`   an instruction returns exactly as its rule says;
* `byte?_decode`   what is decoded begins with the byte at the program counter;
* `Engine.step_ok_iff`, `Engine.step_error_iff`   a step succeeds or fails with the instruction
                       at the program counter.
-/

namespace TickMachine

variable {σ : Type}

/-! ## what the instructions do -/

def Action.effect (p : Peripherals σ) (e : Engine σ) : Action → Value × Engine σ
  | .yield v => (v, e)
  | .ask r => ((p.answer r e.devices).1, { e with devices := (p.answer r e.devices).2 })
  | .sleep count => (0, { e with thread := e.thread.pause count })

theorem Builtin.action_error {b : Builtin} {args : Vector Value b.arity} {c : Cause}
    (h : b.action args = .error c) : c = .divisionByZero := by
  cases b <;> simp only [Builtin.action, reduceCtorEq] at h
  all_goals
    split at h
    · cases h; rfl
    · cases h

namespace Thread

/-- The thread that called `callee`, the routine `index`, from routine `caller`, to go on at
`next` after the return. -/
def descend (t : Thread) (caller next index : Nat) (callee : Routine) : Thread :=
  { t.save ⟨caller, next, t.fp⟩ with
    routine := some index
    pc := callee.entry.toNat
    fp := t.sp - callee.argc.toNat
    sp := t.sp + callee.locals.toNat }

/-- The thread with its last `count` values moved down by `size` slots. -/
def collapse (t : Thread) (count size : Nat) : Thread :=
  { t.setSlots (t.sp - count - size) (t.slots (t.sp - count) count) with
    sp := t.sp - count - size + count }

/-- The thread with the values from `base` on replaced by one, going on at `next`. -/
def settle (t : Thread) (base : Nat) (v : Value) (next : Nat) : Thread :=
  { t.setSlot base v with sp := base + 1, pc := next }

end Thread

/-- The value that an instruction finds to push. -/
inductive Pushes (e : Engine σ) : Instruction → Value → Prop where
  | const (v : Value) : Pushes e (.pushConst v) v
  | zero : Pushes e .zero 0
  | global {k : UInt8} {v : Value} (found : e.image.global? k.toNat = some v) :
    Pushes e (.getGlobal k) v
  | slot {k : UInt8} {i : Nat} {r : Routine} (runs : e.Runs i r) (inFrame : k.toNat < r.frameSize)
    (inStack : e.thread.fp + k.toNat < stackSize) :
    Pushes e (.getLocal k) (e.thread.slot (e.thread.fp + k.toNat))

/-- `Performs p e next i o e'`: on `e` the instruction `i`, which ends at `next`, succeeds with
outcome `o` and leaves `e'`. -/
inductive Performs (p : Peripherals σ) (e : Engine σ) (next : Nat) :
    Instruction → Outcome → Engine σ → Prop where
  | push {i : Instruction} {v : Value} (pushes : Pushes e i v) (room : e.thread.sp < stackSize) :
    Performs p e next i .running { e with thread := (e.thread.push v).jump next }
  | drop (one : e.thread.fp + 1 ≤ e.thread.sp) :
    Performs p e next .drop .running { e with thread := e.thread.drop.jump next }
  | setGlobal {k : UInt8} (one : e.thread.fp + 1 ≤ e.thread.sp)
    (found : k.toNat < e.image.globalCount) :
    Performs p e next (.setGlobal k) .running { e with
      image := e.image.setGlobal k.toNat e.thread.top
      thread := e.thread.drop.jump next }
  | setLocal {k : UInt8} {i : Nat} {r : Routine} (runs : e.Runs i r)
    (inFrame : k.toNat < r.frameSize) (inStack : e.thread.fp + k.toNat < stackSize)
    (one : e.thread.fp + 1 ≤ e.thread.sp) :
    Performs p e next (.setLocal k) .running { e with
      thread := (e.thread.drop.setSlot (e.thread.fp + k.toNat) e.thread.top).jump next }
  | jmp {d : Value} {target : Nat} (reach : (target : Int) = next + d.toInt) :
    Performs p e next (.jmp d) .running { e with thread := e.thread.jump target }
  | jz {d : Value} {target : Nat} (one : e.thread.fp + 1 ≤ e.thread.sp)
    (reach : (target : Int) = next + d.toInt) :
    Performs p e next (.jz d) .running { e with
      thread := e.thread.drop.jump (if e.thread.top = 0 then target else next) }
  | call {k : UInt8} {callee caller : Routine} {i : Nat}
    (found : e.image.routine? k.toNat = some callee) (runs : e.Runs i caller)
    (provided : callee.argc.toNat ≤ e.thread.sp - (e.thread.fp + caller.frameSize))
    (frames : e.thread.depth < maxFrames) (room : e.thread.sp + callee.locals.toNat ≤ stackSize) :
    Performs p e next (.call k) .running { e with
      thread := e.thread.descend i next k.toNat callee }
  | back {n : UInt8} {i : Nat} {r : Routine} (runs : e.Runs i r)
    (values : e.thread.fp + r.frameSize + n.toNat ≤ e.thread.sp) (inner : e.thread.depth ≠ 0) :
    Performs p e next (.ret n) .running { e with
      thread := (e.thread.collapse n.toNat r.frameSize).restore }
  | finish {n : UInt8} {i : Nat} {r : Routine} (runs : e.Runs i r)
    (values : e.thread.fp + r.frameSize + n.toNat ≤ e.thread.sp) (outer : e.thread.depth = 0) :
    Performs p e next (.ret n)
      (.terminated ((e.thread.collapse n.toNat r.frameSize).slots
        (e.thread.sp - n.toNat - r.frameSize) n.toNat))
      { e with thread := { e.thread.collapse n.toNat r.frameSize with state := .terminated } }
  | builtin {b : Builtin} {a : Action} {v : Value} {e₁ : Engine σ}
    (args : e.thread.fp + b.arity ≤ e.thread.sp) (room : e.thread.sp - b.arity < stackSize)
    (does : b.action (Exec.arguments e.thread b (e.thread.sp - b.arity)) = .ok a)
    (effect : a.effect p e = (v, e₁)) :
    Performs p e next (.builtin b)
      (if e₁.thread.state = .suspended then .suspended else .running)
      { e₁ with thread := e₁.thread.settle (e.thread.sp - b.arity) v next }

namespace Exec

section
variable {p : Peripherals σ} {e e' : Engine σ} {c : Cause} {o : Outcome}

@[simp] theorem returns_perform {a : Action} {v : Value} :
    Returns (perform p a) e v e' ↔ a.effect p e = (v, e') := by
  cases a with
  | yield w =>
    show (Except.ok w, e) = (Except.ok v, e') ↔ (w, e) = (v, e')
    simp
  | ask r =>
    show (Except.ok (p.answer r e.devices).1, { e with devices := (p.answer r e.devices).2 })
      = (Except.ok v, e') ↔ ((p.answer r e.devices).1, _) = (v, e')
    simp
  | sleep count =>
    show (Except.ok 0, { e with thread := e.thread.pause count }) = (Except.ok v, e') ↔
      ((0 : Value), { e with thread := e.thread.pause count }) = (v, e')
    simp

@[simp] theorem fails_perform {a : Action} : Fails (perform p a) e c ↔ False := by
  cases a with
  | yield w =>
    show Except.ok w = Except.error c ↔ False
    simp
  | ask r =>
    show Except.ok (p.answer r e.devices).1 = Except.error c ↔ False
    simp
  | sleep count =>
    show Except.ok 0 = Except.error c ↔ False
    simp

@[simp] theorem returns_invoke {b : Builtin} {args : Vector Value b.arity} {v : Value} :
    Returns (invoke p b args) e v e' ↔
      ∃ a, b.action args = .ok a ∧ a.effect p e = (v, e') := by
  cases h : b.action args <;> simp [invoke, h]

@[simp] theorem fails_invoke {b : Builtin} {args : Vector Value b.arity} :
    Fails (invoke p b args) e c ↔ b.action args = .error c := by
  cases h : b.action args <;> simp [invoke, h, eq_comm]

theorem returns_call {k next : Nat} :
    Returns (call k next) e o e' ↔ ∃ callee i caller, e.image.routine? k = some callee ∧
      e.Runs i caller ∧ callee.argc.toNat ≤ e.thread.sp - (e.thread.fp + caller.frameSize) ∧
      e.thread.depth < maxFrames ∧ e.thread.sp + callee.locals.toNat ≤ stackSize ∧
      o = .running ∧ e' = { e with thread := e.thread.descend i next k callee } := by
  simp only [call, returns_bind, returns_routine, returns_currentIndex, returns_thread,
    returns_ite, returns_throw, returns_modifyThread, returns_pure, false_and, exists_false,
    and_false, false_or, Nat.not_lt, Nat.not_le]
  constructor
  · rintro ⟨callee, _, ⟨found, rfl⟩, i, _, ⟨hi, rfl⟩, caller, _, ⟨hr, rfl⟩, _, _, ⟨rfl, rfl⟩,
      provided, frames, room, _, _, rfl, rfl, rfl⟩
    exact ⟨callee, i, caller, found, ⟨hi, hr⟩, provided, frames, room, rfl, rfl⟩
  · rintro ⟨callee, i, caller, found, ⟨hi, hr⟩, provided, frames, room, rfl, rfl⟩
    exact ⟨callee, e, ⟨found, rfl⟩, i, e, ⟨hi, rfl⟩, caller, e, ⟨hr, rfl⟩, e.thread, e, ⟨rfl, rfl⟩,
      provided, frames, room, (), _, rfl, rfl, rfl⟩

theorem returns_ret {n : Nat} :
    Returns (ret n) e o e' ↔ ∃ i r, e.Runs i r ∧ e.thread.fp + r.frameSize + n ≤ e.thread.sp ∧
      ((e.thread.depth = 0 ∧
          o = .terminated ((e.thread.collapse n r.frameSize).slots
            (e.thread.sp - n - r.frameSize) n) ∧
          e' = { e with thread := { e.thread.collapse n r.frameSize with
            state := .terminated } }) ∨
        (e.thread.depth ≠ 0 ∧ o = .running ∧
          e' = { e with thread := (e.thread.collapse n r.frameSize).restore })) := by
  simp only [ret, returns_bind, returns_current, returns_ensure, returns_thread, returns_ite,
    returns_throw, returns_modifyThread, returns_pure, false_and, exists_false, and_false, false_or]
  constructor
  · rintro ⟨r, _, ⟨⟨i, hr⟩, rfl⟩, _, _, ⟨hn, rfl⟩, _, _, ⟨rfl, rfl⟩, hv, _, _, rfl, h⟩
    rcases h with ⟨h0, t, _, ⟨rfl, rfl⟩, _, _, rfl, rfl, rfl⟩ | ⟨h0, _, _, rfl, rfl, rfl⟩
    · exact ⟨i, r, hr, by omega, .inl ⟨h0, rfl, rfl⟩⟩
    · exact ⟨i, r, hr, by omega, .inr ⟨h0, rfl, rfl⟩⟩
  · rintro ⟨i, r, hr, hv, h⟩
    refine ⟨r, e, ⟨⟨i, hr⟩, rfl⟩, (), e, ⟨by omega, rfl⟩, e.thread, e, ⟨rfl, rfl⟩, by omega,
      (), _, rfl, ?_⟩
    rcases h with ⟨h0, rfl, rfl⟩ | ⟨h0, rfl, rfl⟩
    · exact .inl ⟨h0, _, _, ⟨rfl, rfl⟩, (), _, rfl, rfl, rfl⟩
    · exact .inr ⟨h0, (), _, rfl, rfl, rfl⟩

theorem returns_builtin {b : Builtin} {next : Nat} :
    Returns (builtin p b next) e o e' ↔ e.thread.fp + b.arity ≤ e.thread.sp ∧
      e.thread.sp - b.arity < stackSize ∧ ∃ a v e₁,
        b.action (arguments e.thread b (e.thread.sp - b.arity)) = .ok a ∧
        a.effect p e = (v, e₁) ∧
        o = (if e₁.thread.state = .suspended then .suspended else .running) ∧
        e' = { e₁ with thread := e₁.thread.settle (e.thread.sp - b.arity) v next } := by
  simp only [builtin, returns_bind, returns_ensure, returns_thread, returns_ite, returns_throw,
    returns_invoke, returns_modifyThread, returns_pure, false_and, exists_false, and_false,
    false_or]
  constructor
  · rintro ⟨_, _, ⟨hn, rfl⟩, _, _, ⟨rfl, rfl⟩, hs, v, e₁, ⟨a, ha, hv⟩, _, _, rfl, _, _, ⟨rfl, rfl⟩,
      rfl, rfl⟩
    exact ⟨hn, by omega, a, v, e₁, ha, hv, rfl, rfl⟩
  · rintro ⟨hn, hs, a, v, e₁, ha, hv, rfl, rfl⟩
    exact ⟨(), e, ⟨hn, rfl⟩, e.thread, e, ⟨rfl, rfl⟩, by omega, v, e₁, ⟨a, ha, hv⟩, (), _, rfl, _,
      _, ⟨rfl, rfl⟩, rfl, rfl⟩

theorem fails_call {k next : Nat} :
    Fails (call k next) e c ↔ (e.image.routine? k = none ∧ c = .unknownRoutine k) ∨
      ∃ callee, e.image.routine? k = some callee ∧ (e.Lost c ∨ ∃ i caller, e.Runs i caller ∧
        ((e.thread.sp - (e.thread.fp + caller.frameSize) < callee.argc.toNat ∧
            c = .arityMismatch k callee.argc.toNat
              (e.thread.sp - (e.thread.fp + caller.frameSize))) ∨
         (callee.argc.toNat ≤ e.thread.sp - (e.thread.fp + caller.frameSize) ∧
          ((maxFrames ≤ e.thread.depth ∧
            c = .exhausted .callFrames (e.thread.depth + 1) maxFrames) ∨
           (e.thread.depth < maxFrames ∧ stackSize < e.thread.sp + callee.locals.toNat ∧
            c = .exhausted .operandStack (e.thread.sp + callee.locals.toNat) stackSize))))) := by
  simp only [call, fails_bind, fails_routine, returns_routine, fails_currentIndex,
    returns_currentIndex, fails_thread, returns_thread, fails_ite, fails_throw, returns_throw,
    fails_modifyThread, fails_pure, false_and, exists_false, and_false, or_false, false_or,
    Nat.not_lt, Nat.not_le]
  constructor
  · rintro (unknown | ⟨callee, _, ⟨found, rfl⟩, none | ⟨i, _, ⟨hi, rfl⟩, lost |
      ⟨caller, _, ⟨hr, rfl⟩, _, _, ⟨rfl, rfl⟩, h⟩⟩⟩)
    · exact .inl unknown
    · exact .inr ⟨callee, found, .inl (.inl none)⟩
    · exact .inr ⟨callee, found, .inl (.inr ⟨i, hi, lost⟩)⟩
    · exact .inr ⟨callee, found, .inr ⟨i, caller, ⟨hi, hr⟩, h⟩⟩
  · rintro (unknown | ⟨callee, found, (none | ⟨i, hi, lost⟩) | ⟨i, caller, ⟨hi, hr⟩, h⟩⟩)
    · exact .inl unknown
    · exact .inr ⟨callee, e, ⟨found, rfl⟩, .inl none⟩
    · exact .inr ⟨callee, e, ⟨found, rfl⟩, .inr ⟨i, e, ⟨hi, rfl⟩, .inl lost⟩⟩
    · exact .inr ⟨callee, e, ⟨found, rfl⟩, .inr ⟨i, e, ⟨hi, rfl⟩, .inr ⟨caller, e, ⟨hr, rfl⟩,
        e.thread, e, ⟨rfl, rfl⟩, h⟩⟩⟩

theorem fails_ret {n : Nat} :
    Fails (ret n) e c ↔ e.Lost c ∨ ∃ i r, e.Runs i r ∧
      e.thread.sp < e.thread.fp + r.frameSize + n ∧ c = .stackUnderflow := by
  have h : Fails (ret n) e c ↔ e.Lost c ∨ ∃ r, (∃ i, e.Runs i r) ∧
      ((e.thread.sp < e.thread.fp + n ∧ c = .stackUnderflow) ∨
        (e.thread.fp + n ≤ e.thread.sp ∧
          e.thread.sp - n < e.thread.fp + r.frameSize ∧ c = .stackUnderflow)) := by
    simp [ret, and_assoc]
  rw [h]
  refine or_congr_right ?_
  constructor
  · rintro ⟨r, ⟨i, hr⟩, ⟨hn, hc⟩ | ⟨hn, hv, hc⟩⟩
    · exact ⟨i, r, hr, by omega, hc⟩
    · exact ⟨i, r, hr, by omega, hc⟩
  · rintro ⟨i, r, hr, hv, hc⟩
    by_cases hn : e.thread.sp < e.thread.fp + n
    · exact ⟨r, ⟨i, hr⟩, .inl ⟨hn, hc⟩⟩
    · exact ⟨r, ⟨i, hr⟩, .inr ⟨by omega, by omega, hc⟩⟩

theorem fails_builtin {b : Builtin} {next : Nat} :
    Fails (builtin p b next) e c ↔
      (e.thread.sp < e.thread.fp + b.arity ∧ c = .stackUnderflow) ∨
      (e.thread.fp + b.arity ≤ e.thread.sp ∧
        ((stackSize < e.thread.sp - b.arity + 1 ∧
            c = .exhausted .operandStack (e.thread.sp - b.arity + 1) stackSize) ∨
         (e.thread.sp - b.arity + 1 ≤ stackSize ∧
          b.action (arguments e.thread b (e.thread.sp - b.arity)) = .error c))) := by
  simp [builtin, and_assoc]

theorem performs_of_returns {i : Instruction} {next : Nat}
    (h : Returns (execute p i next) e o e') : Performs p e next i o e' := by
  cases i with
  | pushConst v =>
    simp only [execute, returns_bind, returns_push, returns_proceed] at h
    obtain ⟨_, _, ⟨room, rfl⟩, rfl, rfl⟩ := h
    exact .push (.const v) room
  | zero =>
    simp only [execute, returns_bind, returns_push, returns_proceed] at h
    obtain ⟨_, _, ⟨room, rfl⟩, rfl, rfl⟩ := h
    exact .push .zero room
  | drop =>
    simp only [execute, returns_bind, returns_ensure, returns_modifyThread, returns_proceed] at h
    obtain ⟨_, _, ⟨one, rfl⟩, _, _, rfl, rfl, rfl⟩ := h
    exact .drop one
  | getGlobal k =>
    simp only [execute, returns_bind, returns_getGlobal, returns_push, returns_proceed] at h
    obtain ⟨v, _, ⟨found, rfl⟩, _, _, ⟨room, rfl⟩, rfl, rfl⟩ := h
    exact .push (.global found) room
  | setGlobal k =>
    simp only [execute, returns_bind, returns_ensure, returns_thread, returns_setGlobal,
      returns_modifyThread, returns_proceed] at h
    obtain ⟨_, _, ⟨one, rfl⟩, _, _, ⟨rfl, rfl⟩, _, _, ⟨found, rfl⟩, _, _, rfl, rfl, rfl⟩ := h
    exact .setGlobal one found
  | getLocal k =>
    simp only [execute, returns_bind, returns_localSlot, returns_thread, returns_push,
      returns_proceed] at h
    obtain ⟨_, _, ⟨⟨i, r, runs, inFrame⟩, inStack, rfl, rfl⟩, _, _, ⟨rfl, rfl⟩, _, _, ⟨room, rfl⟩,
      rfl, rfl⟩ := h
    exact .push (.slot runs inFrame inStack) room
  | setLocal k =>
    simp only [execute, returns_bind, returns_localSlot, returns_ensure, returns_modifyThread,
      returns_proceed] at h
    obtain ⟨_, _, ⟨⟨i, r, runs, inFrame⟩, inStack, rfl, rfl⟩, _, _, ⟨one, rfl⟩, _, _, rfl, _, _,
      rfl, rfl, rfl⟩ := h
    exact .setLocal runs inFrame inStack one
  | call k =>
    obtain ⟨callee, i, caller, found, runs, provided, frames, room, rfl, rfl⟩ := returns_call.mp h
    exact .call found runs provided frames room
  | ret n =>
    obtain ⟨i, r, runs, values, ⟨outer, rfl, rfl⟩ | ⟨inner, rfl, rfl⟩⟩ := returns_ret.mp h
    · exact .finish runs values outer
    · exact .back runs values inner
  | jmp d =>
    simp only [execute, returns_bind, returns_jumpTarget, returns_proceed] at h
    obtain ⟨target, _, ⟨reach, rfl⟩, rfl, rfl⟩ := h
    exact .jmp reach
  | jz d =>
    simp only [execute, returns_bind, returns_ensure, returns_jumpTarget, returns_modifyThread,
      returns_thread, returns_proceed] at h
    obtain ⟨_, _, ⟨one, rfl⟩, target, _, ⟨reach, rfl⟩, _, _, rfl, _, _, ⟨rfl, rfl⟩, rfl, rfl⟩ := h
    exact .jz one reach
  | builtin b =>
    obtain ⟨args, room, a, v, e₁, does, effect, rfl, rfl⟩ := returns_builtin.mp h
    exact .builtin args room does effect

theorem returns_of_performs {i : Instruction} {next : Nat}
    (h : Performs p e next i o e') : Returns (execute p i next) e o e' := by
  cases h with
  | push pushes room =>
    cases pushes with
    | const v => simp [execute, room]
    | zero => simp [execute, room]
    | global found => simp [execute, found, room, and_assoc]
    | slot runs inFrame inStack =>
      have slot : ∃ i r, e.Runs i r ∧ _ < r.frameSize := ⟨_, _, runs, inFrame⟩
      simp [execute, slot, inStack, room, and_assoc]
  | drop one => simp [execute, one, and_assoc]
  | setGlobal one found => simp [execute, one, found, and_assoc]
  | setLocal runs inFrame inStack one =>
    have slot : ∃ i r, e.Runs i r ∧ _ < r.frameSize := ⟨_, _, runs, inFrame⟩
    simp only [execute, returns_bind, returns_localSlot, returns_ensure, returns_modifyThread,
      returns_proceed]
    exact ⟨_, e, ⟨slot, inStack, rfl, rfl⟩, (), e, ⟨one, rfl⟩, (), _, rfl, (), _, rfl, trivial, rfl⟩
  | jmp reach =>
    simp only [execute, returns_bind, returns_jumpTarget, returns_proceed]
    exact ⟨_, e, ⟨reach, rfl⟩, trivial, rfl⟩
  | jz one reach =>
    simp only [execute, returns_bind, returns_ensure, returns_jumpTarget, returns_modifyThread,
      returns_thread, returns_proceed]
    exact ⟨(), e, ⟨one, rfl⟩, _, e, ⟨reach, rfl⟩, (), _, rfl, _, _, ⟨rfl, rfl⟩, trivial, rfl⟩
  | call found runs provided frames room =>
    exact returns_call.mpr ⟨_, _, _, found, runs, provided, frames, room, rfl, rfl⟩
  | back runs values inner => exact returns_ret.mpr ⟨_, _, runs, values, .inr ⟨inner, rfl, rfl⟩⟩
  | finish runs values outer => exact returns_ret.mpr ⟨_, _, runs, values, .inl ⟨outer, rfl, rfl⟩⟩
  | builtin args room does effect =>
    exact returns_builtin.mpr ⟨args, room, _, _, _, does, effect, rfl, rfl⟩

/-- An instruction succeeds exactly as its rule says. -/
theorem returns_execute {i : Instruction} {next : Nat} :
    Returns (execute p i next) e o e' ↔ Performs p e next i o e' :=
  ⟨performs_of_returns, returns_of_performs⟩

end
end Exec

/-! ## what is decoded -/

def Decoded.byte? : Decoded → Option UInt8
  | .outside => none
  | .unknown byte => some byte
  | .truncated op => some op.byte
  | .instruction i => some i.byte

theorem Opcode.byte_of_complete? {op : Opcode} {fetch : Fetch} {addr : Nat} {i : Instruction}
    (h : op.complete? fetch addr = some i) : i.byte = op.byte := by
  cases op <;> simp only [Opcode.complete?, Option.map_eq_some_iff, Option.some.injEq] at h
  case zero | drop => rw [← h]; rfl
  all_goals
    obtain ⟨operand, -, rfl⟩ := h
    rfl

theorem Decoded.byte?_ofByte (byte : UInt8) (fetch : Fetch) (addr : Nat) :
    (Decoded.ofByte byte fetch addr).byte? = some byte := by
  unfold Decoded.ofByte
  split
  · cases hb : Builtin.ofByte? byte with
    | none => rfl
    | some b => exact congrArg some (Builtin.byte_of_ofByte? hb)
  · cases ho : Opcode.ofByte? byte with
    | none => rfl
    | some op =>
      have hop := Opcode.byte_of_ofByte? ho
      cases hi : op.complete? fetch addr with
      | none =>
        simp only [hi, Decoded.byte?]
        rw [hop]
      | some i =>
        simp only [hi, Decoded.byte?]
        rw [Opcode.byte_of_complete? hi, hop]

theorem byte?_decode (fetch : Fetch) (pc : Nat) : (decode fetch pc).byte? = fetch pc := by
  unfold decode
  cases h : fetch pc with
  | none => rfl
  | some byte => exact Decoded.byte?_ofByte byte fetch (pc + 1)

/-! ## steps -/

namespace Engine

variable {p : Peripherals σ} {e e' : Engine σ}

def fault (e : Engine σ) (opcode : Option UInt8) (c : Cause) : Fault :=
  ⟨c, e.thread.pc, opcode, e.thread.sp⟩

theorem step_idle (h : e.thread.state ≠ .executing) : e.step p = (.ok .idle, e) := by
  unfold step
  rw [if_neg h]

theorem step_instruction {i : Instruction} (h : e.thread.state = .executing)
    (hi : e.decoded = .instruction i) :
    e.step p =
      (((Exec.execute p i (e.thread.pc + i.size)).outcome e).1.mapError (e.fault (some i.byte)),
        ((Exec.execute p i (e.thread.pc + i.size)).outcome e).2) := by
  unfold step
  rw [if_pos h, hi]
  rfl

/-- A step succeeds when the thread does not execute, or as the instruction at the program
counter says. -/
theorem step_ok_iff {o : Outcome} :
    e.step p = (.ok o, e') ↔
      (e.thread.state ≠ .executing ∧ o = .idle ∧ e' = e) ∨
      (e.thread.state = .executing ∧ ∃ i, e.decoded = .instruction i ∧
        Performs p e (e.thread.pc + i.size) i o e') := by
  by_cases h : e.thread.state = .executing
  · simp only [h, ne_eq, not_true_eq_false, false_and, true_and, false_or]
    rcases hd : e.decoded with _ | byte | op | i
    · simp [step, h, hd]
    · simp [step, h, hd]
    · simp [step, h, hd]
    · rw [step_instruction h hd]
      simp only [Decoded.instruction.injEq, exists_eq_left', ← Exec.returns_execute, Exec.Returns]
      rcases (Exec.execute p i (e.thread.pc + i.size)).outcome e with ⟨r, e₁⟩
      cases r with
      | ok a =>
        show (Except.ok a, e₁) = _ ↔ (Except.ok a, e₁) = _
        simp
      | error c =>
        show (Except.error (e.fault (some i.byte) c), e₁) = _ ↔ (Except.error c, e₁) = _
        simp
  · rw [step_idle h]
    simp [h, eq_comm]

/-- A step fails where there is no instruction, or as the instruction there fails. -/
theorem step_error_iff {f : Fault} :
    (e.step p).1 = .error f ↔ e.thread.state = .executing ∧
      ((e.decoded = .outside ∧ f = e.fault none .pcOverflow) ∨
       (∃ byte, e.decoded = .unknown byte ∧ f = e.fault (some byte) (.unknownOpcode byte)) ∨
       (∃ op, e.decoded = .truncated op ∧ f = e.fault (some op.byte) .pcOverflow) ∨
       (∃ i c, e.decoded = .instruction i ∧
         Exec.Fails (Exec.execute p i (e.thread.pc + i.size)) e c ∧
         f = e.fault (some i.byte) c)) := by
  by_cases h : e.thread.state = .executing
  · simp only [h, true_and]
    rcases hd : e.decoded with _ | byte | op | i
    · simp [step, h, hd, fault, eq_comm]
    · simp [step, h, hd, fault, eq_comm]
    · simp [step, h, hd, fault, eq_comm]
    · rw [step_instruction h hd]
      simp only [reduceCtorEq, false_and, exists_false, Decoded.instruction.injEq, false_or,
        exists_and_left, exists_eq_left', Exec.Fails]
      rcases (Exec.execute p i (e.thread.pc + i.size)).outcome e with ⟨r, e₁⟩
      cases r with
      | ok a =>
        show Except.ok a = _ ↔ ∃ c, Except.ok a = Except.error c ∧ _
        simp
      | error c =>
        show Except.error (e.fault (some i.byte) c) = _ ↔
          ∃ d, Except.error c = Except.error d ∧ f = e.fault (some i.byte) d
        simp [eq_comm]
  · rw [step_idle h]
    simp [h]

end Engine
end TickMachine
