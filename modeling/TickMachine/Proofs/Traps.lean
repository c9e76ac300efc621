import TickMachine.Proofs.Happenings

/-!
# No step of a sound thread traps

The stack and the frames of a thread have fixed sizes, and its registers count from zero.  The
*trapping* engine takes the steps of the engine, but makes nothing of a slot, a frame or a window
of slots that does not exist, nor of a difference below zero.  On a sound thread it never has to:
it takes the same steps.  So no access of the engine relies on how accesses out of range are
defined.

* `Trapping`   the actions of the trapping engine, with `sub`, `slot`, `slots`, `setSlot`,
                       `setSlots`, `frame` and `setFrame` as the only ways to reach the stores;
* `Trapping.Agrees`   a trapping action does what an action does;
* `agrees_execute`, `Engine.trappingStep_eq`   on sound threads the two engines agree;
* `Situation.never_traps`   from the start of a machine, whatever happens, all this holds.
-/

namespace TickMachine

variable {σ : Type}

/-- Actions that may trap, with nothing to show for it. -/
abbrev Trapping (σ : Type) := ExceptT Cause (StateT (Engine σ) Option)

namespace Trapping

variable {α β : Type}

/-! ## what can trap -/

def lift (x : Exec σ α) : Trapping σ α := fun e => some (x.outcome e)

def demand (P : Prop) [Decidable P] : Trapping σ Unit :=
  fun e => if P then some (.ok (), e) else none

def sub (a b : Nat) : Trapping σ Nat := do
  demand (b ≤ a)
  return a - b

def slot (i : Nat) : Trapping σ Value := do
  demand (i < stackSize)
  return (← lift Exec.thread).slot i

/-- The slots from `lo` up to `hi`. -/
def slots (lo hi : Nat) : Trapping σ (List Value) := do
  demand (lo ≤ hi ∧ hi ≤ stackSize)
  return (← lift Exec.thread).slots lo (hi - lo)

def setSlot (i : Nat) (v : Value) : Trapping σ Unit := do
  demand (i < stackSize)
  lift (Exec.modifyThread (·.setSlot i v))

def setSlots (i : Nat) (vs : List Value) : Trapping σ Unit := do
  demand (i + vs.length ≤ stackSize)
  lift (Exec.modifyThread (·.setSlots i vs))

def frame (i : Nat) : Trapping σ Frame := do
  demand (i < maxFrames)
  return (← lift Exec.thread).frame i

def setFrame (i : Nat) (f : Frame) : Trapping σ Unit := do
  demand (i < maxFrames)
  lift (Exec.modifyThread fun t => { t with frames := t.frames.setIfInBounds i f })

/-! ## instructions -/

def setSp (n : Nat) : Trapping σ Unit := lift (Exec.modifyThread fun t => { t with sp := n })

/-- Lower the stack pointer by one, and give it. -/
def pop : Trapping σ Nat := do
  let t ← lift Exec.thread
  let sp ← sub t.sp 1
  setSp sp
  return sp

def push (v : Value) : Trapping σ Unit := do
  let t ← lift Exec.thread
  if t.sp < stackSize then
    setSlot t.sp v
    setSp (t.sp + 1)
  else
    throw (.exhausted .operandStack (t.sp + 1) stackSize)

def call (index next : Nat) : Trapping σ Outcome := do
  let callee ← lift (Exec.routine index)
  let callerIndex ← lift Exec.currentIndex
  let caller ← lift (Exec.routine callerIndex)
  let t ← lift Exec.thread
  let argc := callee.argc.toNat
  -- this difference is meant to stop at zero
  let provided := t.sp - (t.fp + caller.frameSize)
  if provided < argc then
    throw (.arityMismatch index argc provided)
  if maxFrames ≤ t.depth then
    throw (.exhausted .callFrames (t.depth + 1) maxFrames)
  let sp := t.sp + callee.locals.toNat
  if stackSize < sp then
    throw (.exhausted .operandStack sp stackSize)
  setFrame t.depth ⟨callerIndex, next, t.fp⟩
  let fp ← sub t.sp argc
  lift (Exec.modifyThread fun t => { t with
    depth := t.depth + 1
    routine := some index
    pc := callee.entry.toNat
    fp := fp
    sp := sp })
  return .running

def restore : Trapping σ Unit := do
  let t ← lift Exec.thread
  let depth ← sub t.depth 1
  let f ← frame depth
  lift (Exec.modifyThread fun t => { t with
    depth := depth, fp := f.fp, pc := f.pc, routine := some f.routine })

def ret (count : Nat) : Trapping σ Outcome := do
  let r ← lift Exec.current
  lift (Exec.ensure count)
  let t ← lift Exec.thread
  let values ← sub t.sp count
  if values < t.fp + r.frameSize then
    throw .stackUnderflow
  let base ← sub values r.frameSize
  setSlots base (← slots values t.sp)
  setSp (base + count)
  if t.depth = 0 then
    let results ← slots base (base + count)
    lift (Exec.modifyThread fun t => { t with state := .terminated })
    return .terminated results
  else
    restore
    return .running

/-- The number of arguments there is room for when a built-in is called. -/
def maxArity : Nat := 7

def builtin (p : Peripherals σ) (b : Builtin) (next : Nat) : Trapping σ Outcome := do
  lift (Exec.ensure b.arity)
  let t ← lift Exec.thread
  let base ← sub t.sp b.arity
  if stackSize < base + 1 then
    throw (.exhausted .operandStack (base + 1) stackSize)
  let args ← slots base t.sp
  demand (args.length = b.arity ∧ b.arity ≤ maxArity)
  let result ← lift (Exec.invoke p b (Vector.ofFn fun i => args.getD i 0))
  setSlot base result
  lift (Exec.modifyThread fun t => { t with sp := base + 1, pc := next })
  let t ← lift Exec.thread
  return if t.state = .suspended then .suspended else .running

def execute (p : Peripherals σ) (i : Instruction) (next : Nat) : Trapping σ Outcome :=
  match i with
  | .pushConst v => do
    push v
    lift (Exec.proceed next)
  | .zero => do
    push 0
    lift (Exec.proceed next)
  | .drop => do
    lift (Exec.ensure 1)
    let _ ← pop
    lift (Exec.proceed next)
  | .getGlobal index => do
    push (← lift (Exec.getGlobal index.toNat))
    lift (Exec.proceed next)
  | .setGlobal index => do
    lift (Exec.ensure 1)
    let t ← lift Exec.thread
    let v ← slot (← sub t.sp 1)
    lift (Exec.setGlobal index.toNat v)
    let _ ← pop
    lift (Exec.proceed next)
  | .getLocal index => do
    let i ← lift (Exec.localSlot index.toNat)
    push (← slot i)
    lift (Exec.proceed next)
  | .setLocal index => do
    let i ← lift (Exec.localSlot index.toNat)
    lift (Exec.ensure 1)
    let sp ← pop
    setSlot i (← slot sp)
    lift (Exec.proceed next)
  | .call index => call index.toNat next
  | .ret count => ret count.toNat
  | .jmp displacement => do
    lift (Exec.proceed (← lift (Exec.jumpTarget next displacement)))
  | .jz displacement => do
    lift (Exec.ensure 1)
    let target ← lift (Exec.jumpTarget next displacement)
    let sp ← pop
    let v ← slot sp
    lift (Exec.proceed (if v = 0 then target else next))
  | .builtin b => builtin p b next

end Trapping

/-- One step of the trapping engine.  It traps too if the code reaches beyond the bytecode. -/
def Engine.trappingStep (p : Peripherals σ) (e : Engine σ) :
    Option (Except Fault Outcome × Engine σ) :=
  if e.image.length ≤ e.image.bytecode.size then
    match e.thread.state, e.decoded with
    | .executing, .instruction i =>
      ((Trapping.execute p i (e.thread.pc + i.size)).run e).map fun (result, e') =>
        (result.mapError (e.fault (some i.byte)), e')
    | _, _ => some (e.step p)
  else
    none

/-! ## agreement -/

theorem Builtin.arity_le (b : Builtin) : b.arity ≤ Trapping.maxArity := by
  cases b <;> decide

namespace Trapping

variable {α β : Type} {e : Engine σ}

/-- On `e` the trapping action does what the action does, without a trap. -/
def Agrees (y : Trapping σ α) (x : Exec σ α) (e : Engine σ) : Prop := y.run e = some (x.outcome e)

theorem run_bind_of_ok {y : Trapping σ α} {g : α → Trapping σ β} {a : α} {e' : Engine σ}
    (h : y.run e = some (.ok a, e')) : (y >>= g).run e = (g a).run e' := by
  show Option.bind (y.run e) _ = _
  rw [h]
  rfl

theorem run_demand {P : Prop} [Decidable P] (h : P) :
    (demand P : Trapping σ Unit).run e = some (.ok (), e) := by
  show (if P then _ else _) = _
  rw [if_pos h]

theorem run_sub {a b : Nat} (h : b ≤ a) :
    (sub a b : Trapping σ Nat).run e = some (.ok (a - b), e) := by
  unfold sub
  rw [run_bind_of_ok (run_demand h)]
  rfl

theorem run_slot {i : Nat} (h : i < stackSize) :
    (slot i).run e = some (.ok (e.thread.slot i), e) := by
  unfold slot
  rw [run_bind_of_ok (run_demand h)]
  rfl

theorem run_slots {lo hi : Nat} (h : lo ≤ hi) (hs : hi ≤ stackSize) :
    (slots lo hi).run e = some (.ok (e.thread.slots lo (hi - lo)), e) := by
  unfold slots
  rw [run_bind_of_ok (run_demand ⟨h, hs⟩)]
  rfl

theorem run_setSlot {i : Nat} {v : Value} (h : i < stackSize) :
    (setSlot i v).run e = some (.ok (), { e with thread := e.thread.setSlot i v }) := by
  unfold setSlot
  rw [run_bind_of_ok (run_demand h)]
  rfl

theorem run_setSlots {i : Nat} {vs : List Value} (h : i + vs.length ≤ stackSize) :
    (setSlots i vs).run e = some (.ok (), { e with thread := e.thread.setSlots i vs }) := by
  unfold setSlots
  rw [run_bind_of_ok (run_demand h)]
  rfl

theorem run_frame {i : Nat} (h : i < maxFrames) :
    (frame i).run e = some (.ok (e.thread.frame i), e) := by
  unfold frame
  rw [run_bind_of_ok (run_demand h)]
  rfl

theorem run_setFrame {i : Nat} {f : Frame} (h : i < maxFrames) :
    (setFrame i f).run e = some (.ok (), { e with
      thread := { e.thread with frames := e.thread.frames.setIfInBounds i f } }) := by
  unfold setFrame
  rw [run_bind_of_ok (run_demand h)]
  rfl

theorem run_pop (h : 1 ≤ e.thread.sp) :
    pop.run e = some (.ok (e.thread.sp - 1), { e with thread := e.thread.drop }) := by
  show (sub e.thread.sp 1 >>= _).run e = _
  rw [run_bind_of_ok (run_sub h)]
  rfl

theorem agrees_lift (x : Exec σ α) (e : Engine σ) : Agrees (lift x) x e := rfl

/-- Two sequences agree if their parts do, the second wherever the first leads. -/
theorem Agrees.bind {y : Trapping σ α} {x : Exec σ α} {g : α → Trapping σ β} {f : α → Exec σ β}
    (h : Agrees y x e) (hg : ∀ a e', Exec.Returns x e a e' → Agrees (g a) (f a) e') :
    Agrees (y >>= g) (x >>= f) e := by
  unfold Agrees
  rw [Exec.outcome_bind]
  show Option.bind (y.run e) _ = _
  rw [h]
  rcases hx : x.outcome e with ⟨r, e'⟩
  cases r with
  | ok a => exact hg a e' hx
  | error c => rfl

theorem Agrees.guarded {P : Prop} [Decidable P] {d : Cause} {g : Unit → Trapping σ α}
    {f : Unit → Exec σ α} (h : ¬ P → Agrees (g ()) (f ()) e) :
    Agrees (if P then throw d >>= g else g ()) (if P then throw d >>= f else f ()) e := by
  by_cases hp : P
  · rw [if_pos hp, if_pos hp]
    rfl
  · rw [if_neg hp, if_neg hp]
    exact h hp

/-- An access that does not trap can be taken off. -/
theorem Agrees.after {y : Trapping σ α} {g : α → Trapping σ β} {x : Exec σ β} {a : α}
    (hy : y.run e = some (.ok a, e)) (h : Agrees (g a) x e) : Agrees (y >>= g) x e := by
  unfold Agrees
  rw [run_bind_of_ok hy]
  exact h

/-- Nor does it matter that the other action reads the thread. -/
theorem Agrees.before {y : Trapping σ α} {f : Thread → Exec σ α} (h : Agrees y (f e.thread) e) :
    Agrees y (Exec.thread >>= f) e := by
  unfold Agrees
  rw [Exec.outcome_bind]
  exact h

/-! ## the actions of instructions agree -/

theorem agrees_push (v : Value) (e : Engine σ) : Agrees (push v) (Exec.push v) e := by
  refine (agrees_lift Exec.thread e).bind fun t e' ht => ?_
  obtain ⟨rfl, rfl⟩ := Exec.returns_thread.mp ht
  by_cases h : e'.thread.sp < stackSize
  · rw [if_pos h, if_pos h]
    unfold Agrees
    rw [run_bind_of_ok (run_setSlot h)]
    rfl
  · rw [if_neg h, if_neg h]
    rfl

theorem agrees_pop (h : 1 ≤ e.thread.sp) {g : Nat → Trapping σ α} {f : Unit → Exec σ α}
    (hg : Agrees (g (e.thread.sp - 1)) (f ()) { e with thread := e.thread.drop }) :
    Agrees (pop >>= g) (Exec.modifyThread (·.drop) >>= f) e := by
  unfold Agrees
  rw [run_bind_of_ok (run_pop h), Exec.outcome_bind]
  exact hg

theorem agrees_call (k next : Nat) (e : Engine σ) :
    Agrees (call k next) (Exec.call k next) e := by
  refine (agrees_lift _ e).bind fun callee e₁ hc => ?_
  obtain ⟨-, rfl⟩ := Exec.returns_routine.mp hc
  refine (agrees_lift _ _).bind fun i e₂ hi => ?_
  obtain ⟨-, rfl⟩ := Exec.returns_currentIndex.mp hi
  refine (agrees_lift _ _).bind fun caller e₃ hr => ?_
  obtain ⟨-, rfl⟩ := Exec.returns_routine.mp hr
  refine (agrees_lift _ _).bind fun t e₄ ht => ?_
  obtain ⟨rfl, rfl⟩ := Exec.returns_thread.mp ht
  refine .guarded fun provided => .guarded fun frames => .guarded fun room => ?_
  have hd : e₄.thread.depth < maxFrames := by omega
  have hargs : callee.argc.toNat ≤ e₄.thread.sp := by omega
  unfold Agrees
  rw [run_bind_of_ok (run_setFrame hd), run_bind_of_ok (run_sub hargs)]
  rfl

theorem agrees_restore (hd : e.thread.depth ≠ 0) (hf : e.thread.depth ≤ maxFrames) :
    Agrees restore (Exec.modifyThread (·.restore)) e := by
  show (sub e.thread.depth 1 >>= _).run e = _
  rw [run_bind_of_ok (run_sub (by omega)), run_bind_of_ok (run_frame (by omega))]
  rfl

theorem agrees_ret (n : Nat) (h : e.Sound) : Agrees (ret n) (Exec.ret n) e := by
  refine (agrees_lift _ e).bind fun r e₁ hr => ?_
  obtain ⟨-, rfl⟩ := Exec.returns_current.mp hr
  refine (agrees_lift _ _).bind fun _ e₂ hn => ?_
  obtain ⟨hn, rfl⟩ := Exec.returns_ensure.mp hn
  refine (agrees_lift _ _).bind fun t e₃ ht => ?_
  obtain ⟨rfl, rfl⟩ := Exec.returns_thread.mp ht
  have hs := h.sp_le
  have hwin : e₃.thread.sp - (e₃.thread.sp - n) = n := by omega
  refine .after (run_sub (by omega)) (.guarded fun hv => ?_)
  refine .after (run_sub (by omega)) (.after (run_slots (by omega) hs) ?_)
  rw [hwin]
  -- both move the values down, and are then in the same state
  have hroom : e₃.thread.sp - n - r.frameSize + (e₃.thread.slots (e₃.thread.sp - n) n).length
      ≤ stackSize := by
    rw [Thread.length_slots]
    omega
  unfold Agrees
  rw [run_bind_of_ok (run_setSlots hroom), Exec.outcome_bind, run_bind_of_ok rfl]
  by_cases hd : e₃.thread.depth = 0
  · rw [if_pos hd, if_pos hd, run_bind_of_ok (run_slots (by omega) (by omega)),
      Nat.add_sub_cancel_left]
    rfl
  · rw [if_neg hd, if_neg hd]
    have hc := e₃.thread.collapse_depth n r.frameSize
    refine Agrees.bind (agrees_restore (e := { e₃ with thread := e₃.thread.collapse n r.frameSize })
      ?_ ?_) fun _ _ _ => agrees_lift _ _
    · show (e₃.thread.collapse n r.frameSize).depth ≠ 0
      rwa [hc]
    · show (e₃.thread.collapse n r.frameSize).depth ≤ maxFrames
      rw [hc]
      exact h.depth_le

theorem arguments_eq (t : Thread) (b : Builtin) (base : Nat) :
    Vector.ofFn (fun i : Fin b.arity => (t.slots base b.arity).getD i 0)
      = Exec.arguments t b base := by
  unfold Exec.arguments
  congr 1
  funext i
  simp [Thread.slots]

theorem agrees_builtin (p : Peripherals σ) (b : Builtin) (next : Nat) (h : e.Sound) :
    Agrees (builtin p b next) (Exec.builtin p b next) e := by
  refine (agrees_lift _ e).bind fun _ e₁ hn => ?_
  obtain ⟨hn, rfl⟩ := Exec.returns_ensure.mp hn
  refine (agrees_lift _ _).bind fun t e₂ ht => ?_
  obtain ⟨rfl, rfl⟩ := Exec.returns_thread.mp ht
  have hwin : e₂.thread.sp - (e₂.thread.sp - b.arity) = b.arity := by omega
  refine .after (run_sub (by omega)) (.guarded fun room => ?_)
  refine .after (run_slots (by omega) h.sp_le) ?_
  rw [hwin]
  refine .after (run_demand ⟨Thread.length_slots _ _ _, b.arity_le⟩) ?_
  rw [arguments_eq]
  refine (agrees_lift _ _).bind fun v e₃ hv => ?_
  unfold Agrees
  rw [run_bind_of_ok (run_setSlot (by omega))]
  rfl

theorem agrees_execute (p : Peripherals σ) (i : Instruction) (next : Nat) (h : e.Sound) :
    Agrees (execute p i next) (Exec.execute p i next) e := by
  have hs := h.sp_le
  cases i with
  | pushConst v => exact (agrees_push v e).bind fun _ _ _ => agrees_lift _ _
  | zero => exact (agrees_push 0 e).bind fun _ _ _ => agrees_lift _ _
  | drop =>
    refine (agrees_lift _ e).bind fun _ e₁ hn => ?_
    obtain ⟨one, rfl⟩ := Exec.returns_ensure.mp hn
    exact agrees_pop (by omega) (agrees_lift _ _)
  | getGlobal k =>
    refine (agrees_lift _ e).bind fun v e₁ _ => ?_
    exact (agrees_push v e₁).bind fun _ _ _ => agrees_lift _ _
  | setGlobal k =>
    refine (agrees_lift _ e).bind fun _ e₁ hn => ?_
    obtain ⟨one, rfl⟩ := Exec.returns_ensure.mp hn
    refine (agrees_lift _ _).bind fun t e₂ ht => ?_
    obtain ⟨rfl, rfl⟩ := Exec.returns_thread.mp ht
    refine .after (run_sub (by omega)) (.after (run_slot (by omega)) ?_)
    refine (agrees_lift _ _).bind fun _ e₃ hg => ?_
    obtain ⟨-, rfl⟩ := Exec.returns_setGlobal.mp hg
    refine agrees_pop ?_ (agrees_lift _ _)
    exact Nat.le_trans (Nat.le_add_left 1 _) one
  | getLocal k =>
    refine (agrees_lift _ e).bind fun slot e₁ hl => ?_
    obtain ⟨-, hlt, rfl, rfl⟩ := Exec.returns_localSlot.mp hl
    refine .after (run_slot hlt) (.before ?_)
    exact (agrees_push _ _).bind fun _ _ _ => agrees_lift _ _
  | setLocal k =>
    refine (agrees_lift _ e).bind fun slot e₁ hl => ?_
    obtain ⟨-, hlt, rfl, rfl⟩ := Exec.returns_localSlot.mp hl
    refine (agrees_lift _ _).bind fun _ e₂ hn => ?_
    obtain ⟨one, rfl⟩ := Exec.returns_ensure.mp hn
    refine agrees_pop (by omega) (.after (run_slot (by omega)) ?_)
    unfold Agrees
    rw [run_bind_of_ok (run_setSlot hlt)]
    rfl
  | call k => exact agrees_call k.toNat next e
  | ret n => exact agrees_ret n.toNat h
  | jmp d => exact (agrees_lift _ e).bind fun _ _ _ => agrees_lift _ _
  | jz d =>
    refine (agrees_lift _ e).bind fun _ e₁ hn => ?_
    obtain ⟨one, rfl⟩ := Exec.returns_ensure.mp hn
    refine (agrees_lift _ _).bind fun target e₂ ht => ?_
    obtain ⟨-, rfl⟩ := Exec.returns_jumpTarget.mp ht
    exact agrees_pop (by omega) (.after (run_slot (by omega)) (agrees_lift _ _))
  | builtin b => exact agrees_builtin p b next h

end Trapping

namespace Engine

variable {p : Peripherals σ} {e : Engine σ}

/-- On a sound thread the trapping engine takes the step of the engine. -/
theorem trappingStep_eq (h : e.Sound) : e.trappingStep p = some (e.step p) := by
  unfold trappingStep
  rw [if_pos e.image.length_le]
  split
  · rename_i i hx hi
    have ha : (Trapping.execute p i (e.thread.pc + i.size)).run e = _ :=
      Trapping.agrees_execute p i (e.thread.pc + i.size) h
    rw [ha, step_instruction hx hi]
    rfl
  · rfl

-- a thread that is not sound, with its stack pointer above the capacity, does trap
example : (trappingStep silent ⟨⟨.ofParts [⟨0, 0, 0⟩] [] [0x15, 0, 0] 0, { Thread.idle with
    state := .executing, routine := some 0, sp := 1030 }⟩, ()⟩).isNone := by decide +kernel

end Engine

/-! ## what a fault never says -/

/-- An instruction of a routine that exists does not fail for want of it. -/
theorem Exec.fails_execute_ne {p : Peripherals σ} {e : Engine σ} {c : Cause} {i : Instruction}
    {next k : Nat} {r : Routine} (hr : e.Runs k r) (h : Fails (execute p i next) e c) :
    c ≠ .noActiveRoutine ∧ c ≠ .unknownRoutine k := by
  have hl : ¬ e.Lost c := hr.not_lost
  cases i with
  | pushConst v =>
    simp only [execute, fails_bind, fails_push, fails_proceed, and_false, exists_false,
      or_false] at h
    obtain ⟨-, rfl⟩ := h
    simp
  | zero =>
    simp only [execute, fails_bind, fails_push, fails_proceed, and_false, exists_false,
      or_false] at h
    obtain ⟨-, rfl⟩ := h
    simp
  | drop =>
    simp only [execute, fails_bind, fails_ensure, fails_modifyThread, fails_proceed, and_false,
      exists_false, or_false] at h
    obtain ⟨-, rfl⟩ := h
    simp
  | getGlobal n =>
    simp only [execute, fails_bind, fails_getGlobal, fails_push, fails_proceed, and_false,
      exists_false, or_false] at h
    rcases h with ⟨-, rfl⟩ | ⟨_, _, -, -, rfl⟩ <;> simp
  | setGlobal n =>
    simp only [execute, fails_bind, fails_ensure, fails_thread, fails_setGlobal,
      fails_modifyThread, fails_proceed, and_false, exists_false, or_false, false_or] at h
    rcases h with ⟨-, rfl⟩ | ⟨_, _, -, _, _, -, -, rfl⟩ <;> simp
  | getLocal n =>
    simp only [execute, fails_bind, fails_localSlot, hl, fails_thread, fails_push, fails_proceed,
      and_false, exists_false, or_false, false_or] at h
    rcases h with ⟨_, _, -, -, rfl⟩ | ⟨_, _, -, _, _, -, -, rfl⟩ <;> simp
  | setLocal n =>
    simp only [execute, fails_bind, fails_localSlot, hl, fails_ensure, fails_modifyThread,
      fails_proceed, and_false, exists_false, or_false, false_or] at h
    rcases h with ⟨_, _, -, -, rfl⟩ | ⟨_, _, -, -, rfl⟩ <;> simp
  | call n =>
    rcases fails_call.mp h with ⟨hn, rfl⟩ | ⟨callee, -, lost | ⟨j, caller, -, h⟩⟩
    · -- the routine called is not the one that calls: that one is there
      refine ⟨by simp, ?_⟩
      intro hc
      rw [Cause.unknownRoutine.inj hc, hr.2] at hn
      cases hn
    · exact absurd lost hl
    · rcases h with ⟨-, rfl⟩ | ⟨-, ⟨-, rfl⟩ | ⟨-, -, rfl⟩⟩ <;> simp
  | ret n =>
    rcases fails_ret.mp h with lost | ⟨j, r, -, -, rfl⟩
    · exact absurd lost hl
    · simp
  | jmp d =>
    simp only [execute, fails_bind, fails_jumpTarget, fails_proceed, and_false, exists_false,
      or_false] at h
    obtain ⟨-, rfl⟩ := h
    simp
  | jz d =>
    simp only [execute, fails_bind, fails_ensure, fails_jumpTarget, fails_modifyThread,
      fails_thread, fails_proceed, and_false, exists_false, or_false] at h
    rcases h with ⟨-, rfl⟩ | ⟨_, _, -, -, rfl⟩ <;> simp
  | builtin b =>
    rcases fails_builtin.mp h with ⟨-, rfl⟩ | ⟨-, ⟨-, rfl⟩ | ⟨-, ha⟩⟩
    · simp
    · simp
    · rw [Builtin.action_error ha]
      simp

/-- No fault of a sound thread says that the thread is in no routine. -/
theorem Engine.step_error_cause {p : Peripherals σ} {e : Engine σ} {f : Fault} (h : e.Sound)
    (hf : (e.step p).1 = .error f) :
    f.cause ≠ .noActiveRoutine ∧ ∀ k, e.thread.routine = some k → f.cause ≠ .unknownRoutine k := by
  obtain ⟨hx, ⟨-, rfl⟩ | ⟨byte, -, rfl⟩ | ⟨op, -, rfl⟩ | ⟨i, c, -, hc, rfl⟩⟩ := step_error_iff.mp hf
  · exact ⟨nofun, fun _ _ => nofun⟩
  · exact ⟨nofun, fun _ _ => nofun⟩
  · exact ⟨nofun, fun _ _ => nofun⟩
  · obtain ⟨j, r, hr⟩ := h.runs (by rw [hx]; exact nofun)
    refine ⟨(Exec.fails_execute_ne hr hc).1, fun k hk => ?_⟩
    have hjk : j = k := by
      rw [hr.1, Option.some.injEq] at hk
      exact hk
    rw [← hjk]
    exact (Exec.fails_execute_ne hr hc).2

namespace Situation

/-- **Whatever happens to a machine, its thread stays sound.**  The registers are within their
stores, the activations lie in order and their routines exist; no step traps; and no fault says
that the thread is in no routine. -/
theorem never_traps (p : Peripherals σ) {m : Machine σ} (fresh : m.Fresh) (session : Session)
    (hs : List (Happening σ)) :
    let e := ((Situation.mk m.engine session).after p hs).engine
    e.thread.Sound e.image.routineCount ∧ e.trappingStep p = some (e.step p) ∧
      ∀ f, (e.step p).1 = .error f → f.cause ≠ .noActiveRoutine ∧
        ∀ k, e.thread.routine = some k → f.cause ≠ .unknownRoutine k := by
  intro e
  have h : e.Sound := after_sound p fresh.sound hs
  exact ⟨h, Engine.trappingStep_eq h, fun f hf => Engine.step_error_cause h hf⟩

/-- A main routine about to call another, which goes to sleep. -/
def napping : Machine Unit where
  engine :=
    { image := .ofParts [⟨0, 0, 0⟩, ⟨0, 0, 4⟩] [] [0x0A, 1, 0x0D, 0, 0x00, 1, 0, 0xB3, 0x0D, 0] 0
      thread := { Thread.idle with state := .executing, routine := some 0 }
      devices := () }

/-- While the routine sleeps, the debugger gives its caller two hundred locals. -/
def patching : List (Happening Unit) :=
  [.step, .step, .step] ++ (frame ((Command.writeMem 1 1 1).body ++ [200])).map .byte ++ [.tick]

theorem never_traps_napping :
    napping.Fresh ∧
      let e := ((Situation.mk napping.engine {}).after Engine.silent patching).engine
      e.thread.depth = 1 ∧ e.thread.state = .executing ∧
        e.image.routine? 0 = some ⟨0, 200, 0⟩ ∧ e.thread.Sound e.image.routineCount ∧
        e.trappingStep Engine.silent = some (e.step Engine.silent) := by
  have fresh : napping.Fresh := .load (rfl : Machine.load napping.engine.image () = _)
  have h := never_traps Engine.silent fresh {} patching
  exact ⟨fresh, by decide +kernel, by decide +kernel, by decide +kernel, h.1, h.2.1⟩

end Situation
end TickMachine
