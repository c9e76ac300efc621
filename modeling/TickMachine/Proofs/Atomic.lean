import Mathlib.Control.Monad.Basic
import TickMachine.Engine.Run
import TickMachine.Proofs.Rules

/-!
# Faults change nothing

No instruction is carried out by half: all that can go wrong is found out before anything is
changed.  An action is *read-only* if it never changes the engine, *unfailing* if it never fails,
and *atomic* if it leaves the engine as it was whenever it fails.  Checks are read-only, changes
are unfailing, and an instruction is first the one and then the other.

* `Atomic.after_readOnly`, `Atomic.before_unfailing`   the two ways to go on from a check, and
                       from what may fail to a change;
* `execute_atomic`   every instruction is atomic;
* `Engine.stepped`   the engine after a number of steps;
* `fault_changes_nothing`   a step that fails leaves the engine as it was, names the place and
                       the byte where it failed, and would fail again; a run that fails stops
                       right after its last successful step.
-/

namespace TickMachine

namespace Exec

variable {σ α β : Type}

/-- The action never changes the engine. -/
def ReadOnly (x : Exec σ α) : Prop := ∀ e, (x.outcome e).2 = e

def Unfailing (x : Exec σ α) : Prop := ∀ e c, ¬ Fails x e c

/-- When the action fails, the engine is as it was. -/
def Atomic (x : Exec σ α) : Prop := ∀ e c, Fails x e c → (x.outcome e).2 = e

/-! ## putting actions together -/

theorem ReadOnly.atomic {x : Exec σ α} (h : ReadOnly x) : Atomic x := fun e _ _ => h e

theorem Unfailing.atomic {x : Exec σ α} (h : Unfailing x) : Atomic x :=
  fun e c hf => absurd hf (h e c)

theorem ReadOnly.bind {x : Exec σ α} {f : α → Exec σ β} (hx : ReadOnly x)
    (hf : ∀ a, ReadOnly (f a)) : ReadOnly (x >>= f) := by
  intro e
  rw [outcome_bind]
  have h := hx e
  rcases hr : x.outcome e with ⟨r, e₁⟩
  rw [hr] at h
  cases r with
  | ok a => exact (hf a e₁).trans h
  | error c => exact h

theorem ReadOnly.ite {P : Prop} [Decidable P] {x y : Exec σ α} (hx : ReadOnly x)
    (hy : ReadOnly y) : ReadOnly (if P then x else y) := by
  by_cases h : P
  · rw [if_pos h]; exact hx
  · rw [if_neg h]; exact hy

theorem Atomic.after_readOnly {x : Exec σ α} {f : α → Exec σ β} (hx : ReadOnly x)
    (hf : ∀ a, Atomic (f a)) : Atomic (x >>= f) := by
  intro e c hc
  have h := hx e
  rw [Fails, outcome_bind] at hc
  rw [outcome_bind]
  rcases hr : x.outcome e with ⟨r, e₁⟩
  rw [hr] at h hc
  cases r with
  | ok a => exact (hf a e₁ c hc).trans h
  | error c => exact h

theorem Atomic.before_unfailing {x : Exec σ α} {f : α → Exec σ β} (hx : Atomic x)
    (hf : ∀ a, Unfailing (f a)) : Atomic (x >>= f) := by
  intro e c hc
  rw [Fails, outcome_bind] at hc
  rw [outcome_bind]
  rcases hr : x.outcome e with ⟨r, e₁⟩
  rw [hr] at hc
  cases r with
  | ok a => exact absurd hc (hf a e₁ c)
  | error d =>
    have h := hx e d (by rw [Fails, hr])
    rw [hr] at h
    exact h

theorem Atomic.ite {P : Prop} [Decidable P] {x y : Exec σ α} (hx : Atomic x) (hy : Atomic y) :
    Atomic (if P then x else y) := by
  by_cases h : P
  · rw [if_pos h]; exact hx
  · rw [if_neg h]; exact hy

/-- A check in front of an atomic action: it fails, or nothing has happened yet. -/
theorem Atomic.guarded {P : Prop} [Decidable P] {d : Cause} {f : Unit → Exec σ α}
    (hf : Atomic (f ())) : Atomic (if P then throw d >>= f else f ()) :=
  Atomic.ite (Atomic.after_readOnly (fun _ => rfl) fun _ => hf) hf

/-! ## the actions of instructions -/

theorem readOnly_image : ReadOnly (image (σ := σ)) := fun _ => rfl

theorem readOnly_thread : ReadOnly (thread (σ := σ)) := fun _ => rfl

theorem readOnly_ensure (n : Nat) : ReadOnly (ensure (σ := σ) n) :=
  readOnly_thread.bind fun _ => ReadOnly.ite (fun _ => rfl) fun _ => rfl

theorem readOnly_routine (i : Nat) : ReadOnly (routine (σ := σ) i) := by
  refine readOnly_image.bind fun img => ?_
  cases img.routine? i with
  | none => exact fun _ => rfl
  | some r => exact fun _ => rfl

theorem readOnly_currentIndex : ReadOnly (currentIndex (σ := σ)) := by
  refine readOnly_thread.bind fun t => ?_
  cases t.routine with
  | none => exact fun _ => rfl
  | some i => exact fun _ => rfl

theorem readOnly_current : ReadOnly (current (σ := σ)) :=
  readOnly_currentIndex.bind readOnly_routine

theorem readOnly_localSlot (k : Nat) : ReadOnly (localSlot (σ := σ) k) :=
  readOnly_current.bind fun _ => readOnly_thread.bind fun _ =>
    ReadOnly.ite (fun _ => rfl) fun _ => rfl

theorem readOnly_jumpTarget (next : Nat) (d : Value) : ReadOnly (jumpTarget (σ := σ) next d) :=
  ReadOnly.ite (fun _ => rfl) fun _ => rfl

theorem readOnly_getGlobal (k : Nat) : ReadOnly (getGlobal (σ := σ) k) := by
  refine readOnly_image.bind fun img => ?_
  cases img.global? k with
  | none => exact fun _ => rfl
  | some v => exact fun _ => rfl

theorem unfailing_proceed (pc : Nat) : Unfailing (proceed (σ := σ) pc) :=
  fun _ _ h => fails_proceed.mp h

theorem atomic_push (v : Value) : Atomic (push (σ := σ) v) := by
  refine Atomic.after_readOnly readOnly_thread fun t => Atomic.ite ?_ ?_
  · exact Unfailing.atomic fun e c h => fails_modifyThread.mp h
  · exact ReadOnly.atomic fun _ => rfl

theorem atomic_setGlobal (k : Nat) (v : Value) : Atomic (setGlobal (σ := σ) k v) := by
  refine Atomic.after_readOnly readOnly_image fun img => ?_
  cases img.setGlobal? k v with
  | some img' => exact Unfailing.atomic fun e c h => fails_modifyImage.mp h
  | none => exact ReadOnly.atomic fun _ => rfl

theorem atomic_call (k next : Nat) : Atomic (call (σ := σ) k next) := by
  refine Atomic.after_readOnly (readOnly_routine k) fun callee => ?_
  refine Atomic.after_readOnly readOnly_currentIndex fun i => ?_
  refine Atomic.after_readOnly (readOnly_routine i) fun caller => ?_
  refine Atomic.after_readOnly readOnly_thread fun t => ?_
  -- arity, frames, room: three checks, and only then the call
  refine Atomic.guarded (Atomic.guarded (Atomic.guarded (Unfailing.atomic ?_)))
  intro e c h
  simp at h

theorem atomic_ret (n : Nat) : Atomic (ret (σ := σ) n) := by
  refine Atomic.after_readOnly readOnly_current fun r => ?_
  refine Atomic.after_readOnly (readOnly_ensure n) fun _ => ?_
  refine Atomic.after_readOnly readOnly_thread fun t => ?_
  refine Atomic.guarded (Unfailing.atomic ?_)
  intro e c h
  simp at h

theorem atomic_invoke (p : Peripherals σ) (b : Builtin) (args : Vector Value b.arity) :
    Atomic (invoke p b args) := by
  unfold invoke
  cases b.action args with
  | ok a => exact Unfailing.atomic fun e c h => fails_perform.mp h
  | error c => exact ReadOnly.atomic fun _ => rfl

theorem atomic_builtin (p : Peripherals σ) (b : Builtin) (next : Nat) :
    Atomic (builtin p b next) := by
  refine Atomic.after_readOnly (readOnly_ensure b.arity) fun _ => ?_
  refine Atomic.after_readOnly readOnly_thread fun t => ?_
  refine Atomic.guarded (Atomic.before_unfailing (atomic_invoke p b _) fun v => ?_)
  intro e c h
  simp at h

theorem execute_atomic (p : Peripherals σ) (i : Instruction) (next : Nat) :
    Atomic (execute p i next) := by
  cases i with
  | pushConst v => exact (atomic_push v).before_unfailing fun _ => unfailing_proceed next
  | zero => exact (atomic_push 0).before_unfailing fun _ => unfailing_proceed next
  | drop =>
    refine Atomic.after_readOnly (readOnly_ensure 1) fun _ => Unfailing.atomic ?_
    intro e c h
    simp at h
  | getGlobal k =>
    refine Atomic.after_readOnly (readOnly_getGlobal k.toNat) fun v => ?_
    exact (atomic_push v).before_unfailing fun _ => unfailing_proceed next
  | setGlobal k =>
    refine Atomic.after_readOnly (readOnly_ensure 1) fun _ => ?_
    refine Atomic.after_readOnly readOnly_thread fun t => ?_
    refine (atomic_setGlobal k.toNat t.top).before_unfailing fun _ => ?_
    intro e c h
    simp at h
  | getLocal k =>
    refine Atomic.after_readOnly (readOnly_localSlot k.toNat) fun slot => ?_
    refine Atomic.after_readOnly readOnly_thread fun t => ?_
    exact (atomic_push _).before_unfailing fun _ => unfailing_proceed next
  | setLocal k =>
    refine Atomic.after_readOnly (readOnly_localSlot k.toNat) fun slot => ?_
    refine Atomic.after_readOnly (readOnly_ensure 1) fun _ => Unfailing.atomic ?_
    intro e c h
    simp at h
  | call k => exact atomic_call k.toNat next
  | ret n => exact atomic_ret n.toNat
  | jmp d =>
    refine Atomic.after_readOnly (readOnly_jumpTarget next d) fun target => ?_
    exact (unfailing_proceed target).atomic
  | jz d =>
    refine Atomic.after_readOnly (readOnly_ensure 1) fun _ => ?_
    refine Atomic.after_readOnly (readOnly_jumpTarget next d) fun target => Unfailing.atomic ?_
    intro e c h
    simp at h
  | builtin b => exact atomic_builtin p b next

end Exec

/-! ## steps and runs that fail -/

namespace Engine

variable {σ : Type}

/-- The engine after `n` steps. -/
def stepped (p : Peripherals σ) : Nat → Engine σ → Engine σ
  | 0, e => e
  | n + 1, e => stepped p n (e.step p).2

theorem step_error_engine {p : Peripherals σ} {e : Engine σ} {f : Fault}
    (h : (e.step p).1 = .error f) : (e.step p).2 = e := by
  obtain ⟨hx, hd | ⟨byte, hd, -⟩ | ⟨op, hd, -⟩ | ⟨i, c, hd, hc, -⟩⟩ := step_error_iff.mp h
  · simp [step, hx, hd.1]
  · simp [step, hx, hd]
  · simp [step, hx, hd]
  · rw [step_instruction hx hd]
    exact Exec.execute_atomic p i _ e c hc

theorem step_error_names {p : Peripherals σ} {e : Engine σ} {f : Fault}
    (h : (e.step p).1 = .error f) :
    f.pc = e.thread.pc ∧ f.sp = e.thread.sp ∧ f.opcode = e.image.code[e.thread.pc]? := by
  have hb : e.decoded.byte? = e.image.fetch e.thread.pc := byte?_decode _ _
  rw [← Image.fetch_eq_code, ← hb]
  obtain ⟨-, ⟨hd, rfl⟩ | ⟨byte, hd, rfl⟩ | ⟨op, hd, rfl⟩ | ⟨i, c, hd, -, rfl⟩⟩ :=
    step_error_iff.mp h <;> rw [hd] <;> exact ⟨rfl, rfl, rfl⟩

/-- A run that fails took some steps that went on, and stopped where the next one fails. -/
theorem run_error {p : Peripherals σ} {f : Fault} {fuel : Nat} {e : Engine σ} {log : Array Event}
    {r : Run σ} (h : e.run p fuel log = some r) (hf : r.result = .error f) :
    ∃ n, (∀ k < n, ((e.stepped p k).step p).1 = .ok .running) ∧ r.engine = e.stepped p n ∧
      r.engine.step p = (.error f, r.engine) := by
  induction fuel generalizing e log with
  | zero => cases h
  | succ fuel ih =>
    rcases hs : e.step p with ⟨result, e₁⟩
    rw [run, hs] at h
    rcases result with f' | o
    · -- the first step fails: the run is over, and nothing has changed
      cases h
      cases hf
      have hc : e₁ = e := by
        have hc := step_error_engine (p := p) (e := e) (f := f) (by rw [hs])
        rwa [hs] at hc
      subst hc
      exact ⟨0, fun k hk => absurd hk (Nat.not_lt_zero k), rfl, hs⟩
    · cases o with
      | running =>
        obtain ⟨n, hn, hr, hstop⟩ := ih h
        refine ⟨n + 1, ?_, ?_, hstop⟩
        · intro k hk
          cases k with
          | zero =>
            show (e.step p).1 = _
            rw [hs]
          | succ k =>
            show ((stepped p k (e.step p).2).step p).1 = _
            rw [hs]
            exact hn k (by omega)
        · show r.engine = stepped p n (e.step p).2
          rw [hs]
          exact hr
      | idle => cases h; cases hf
      | suspended => cases h; cases hf
      | terminated vs => cases h; cases hf

/-- **Faults change nothing.**  A step that fails leaves image, thread and peripherals as they
were; its fault names the program counter, the depth of the stack and the byte at the program
counter, if the code reaches that far; and another step fails in the same way.  A run that fails
leaves the engine as it was after the last step that succeeded. -/
theorem fault_changes_nothing (p : Peripherals σ) (e : Engine σ) :
    (∀ f e', e.step p = (.error f, e') →
      e' = e ∧ f.pc = e.thread.pc ∧ f.sp = e.thread.sp ∧
      (f.opcode = none ↔ e.image.length ≤ e.thread.pc) ∧
      (∀ h : e.thread.pc < e.image.code.length, f.opcode = some e.image.code[e.thread.pc]) ∧
      e'.step p = (.error f, e')) ∧
    (∀ fuel log r f, e.run p fuel log = some r → r.result = .error f →
      ∃ n, (∀ k < n, ((e.stepped p k).step p).1 = .ok .running) ∧ r.engine = e.stepped p n ∧
        r.engine.step p = (.error f, r.engine)) := by
  refine ⟨?_, fun fuel log r f h hf => run_error h hf⟩
  intro f e' h
  have hf : (e.step p).1 = .error f := by rw [h]
  have he : e' = e := by
    have he := step_error_engine hf
    rwa [h] at he
  obtain ⟨hpc, hsp, hop⟩ := step_error_names hf
  subst he
  refine ⟨rfl, hpc, hsp, ?_, ?_, h⟩
  · rw [hop, List.getElem?_eq_none_iff, Image.length_code]
  · intro hlt
    rw [hop, List.getElem?_eq_getElem hlt]

/-- Peripherals that answer everything with zero. -/
def silent : Peripherals Unit where
  answer _ _ := (0, ())

/-- An engine about to divide seven by zero. -/
def dividing : Engine Unit where
  image := .ofParts [⟨0, 0, 0⟩] [] [0x00, 7, 0, 0x01, 0x83] 0
  thread := { Thread.idle with state := .executing, routine := some 0 }
  devices := ()

theorem fault_changes_nothing_dividing :
    (∃ r, dividing.run silent 3 #[] = some r ∧
      r.result = .error ⟨.divisionByZero, 4, some 0x83, 2⟩ ∧
      ∃ n, (∀ k < n, ((dividing.stepped silent k).step silent).1 = .ok .running) ∧
        r.engine = dividing.stepped silent n) ∧
    (dividing.stepped silent 2).step silent =
      (.error ⟨.divisionByZero, 4, some 0x83, 2⟩, dividing.stepped silent 2) := by
  have h0 : dividing.step silent = (.ok .running, dividing.stepped silent 1) := Prod.ext rfl rfl
  have h1 : (dividing.stepped silent 1).step silent = (.ok .running, dividing.stepped silent 2) :=
    Prod.ext rfl rfl
  have hf : ((dividing.stepped silent 2).step silent).1
      = .error ⟨.divisionByZero, 4, some 0x83, 2⟩ := by decide +kernel
  have h2 : (dividing.stepped silent 2).step silent
      = (.error ⟨.divisionByZero, 4, some 0x83, 2⟩, dividing.stepped silent 2) :=
    Prod.ext hf (step_error_engine hf)
  obtain ⟨r, hr, hres⟩ : ∃ r, dividing.run silent 3 #[] = some r ∧
      r.result = .error ⟨.divisionByZero, 4, some 0x83, 2⟩ := by
    simp only [run, h0, h1, h2, Option.some.injEq, exists_eq_left']
  obtain ⟨n, hn, he, -⟩ := (fault_changes_nothing silent dividing).2 3 #[] r _ hr hres
  exact ⟨⟨r, hr, hres, n, hn, he⟩,
    ((fault_changes_nothing silent (dividing.stepped silent 2)).1 _ _ h2).2.2.2.2.2⟩

end Engine
end TickMachine
