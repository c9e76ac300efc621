import TickMachine.Proofs.Calls
import TickMachine.Proofs.Listings
import TickMachine.Proofs.Pauses
import TickMachine.Proofs.Views

/-!
# What a step changes

An instruction may write to three things, the image, the thread and the peripherals, and each of
them holds much that is not the instruction's business: the code, the slots of the callers, the
frames saved below.  Every kind of instruction writes to its own place only, and how far it moves
the stack pointer shows in its first byte.

* `stackChange?`, `Performs.sp`   the first byte tells how the depth of the stack changes;
* `Builtin.asks`, `Performs.devices`   which built-ins ask the peripherals;
* `Image.Steady`, `Engine.run_steady`   no run of any length writes to anything but globals;
* `Performs.state`   only a return from the outermost activation and a pause change the state;
* `Changes`   all that a step may change, and `step_changes`, that it changes no more.
-/

namespace TickMachine

variable {σ : Type}

/-! ## what the first byte tells -/

/-- By how much an instruction that begins with this byte changes the depth of the stack.  Of calls
and returns the byte does not tell. -/
def stackChange? (byte : UInt8) : Option Int :=
  match Opcode.ofByte? byte with
  | some .pushConst | some .zero | some .getGlobal | some .getLocal => some 1
  | some .drop | some .setGlobal | some .setLocal | some .jz => some (-1)
  | some .jmp => some 0
  | some .call | some .ret => none
  | none => (Builtin.ofByte? byte).map Builtin.stackEffect

theorem stackChange?_builtin (b : Builtin) : stackChange? b.byte = some b.stackEffect := by
  cases b <;> rfl

theorem Pushes.stackChange? {e : Engine σ} {i : Instruction} {v : Value} (h : Pushes e i v) :
    stackChange? i.byte = some 1 := by
  cases h <;> rfl

namespace Builtin

def asks : Builtin → Bool
  | mulFixed | sinFixed | cosFixed | drawLine | fillRect | fillTriangle
  | keyPressed | keyReleased | keyHeld | random | setRandomSeed => true
  | _ => false

theorem asks_of_action {b : Builtin} {args : Vector Value b.arity} {r : Request}
    (h : b.action args = .ok (.ask r)) : b.asks = true := by
  cases b <;> simp only [action, Except.ok.injEq, reduceCtorEq] at h
  case div | mod => split at h <;> cases h
  all_goals rfl

theorem state_effect {b : Builtin} {a : Action} (p : Peripherals σ) (e : Engine σ)
    (does : b.action (Exec.arguments e.thread b (e.thread.sp - b.arity)) = .ok a) :
    (a.effect p e).2.thread.state =
      if b = .pauseFrames ∧ 0 < e.thread.top then .suspended else e.thread.state := by
  cases a with
  | yield v =>
    rw [if_neg]
    · rfl
    · rintro ⟨rfl, -⟩
      cases does
  | ask r =>
    rw [if_neg]
    · rfl
    · rintro ⟨rfl, -⟩
      cases does
  | sleep count =>
    obtain ⟨rfl, rfl⟩ := action_sleep does
    show (e.thread.pause e.thread.top).state = _
    unfold Thread.pause
    by_cases hpos : 0 < e.thread.top
    · rw [if_pos hpos, if_pos ⟨rfl, hpos⟩]
    · rw [if_neg hpos, if_neg fun h => hpos h.2]

end Builtin

/-! ## the image -/

/-- Nothing but the globals has changed. -/
structure Image.Steady (img img' : Image) : Prop where
  routines : img'.routineBytes = img.routineBytes
  bytecode : img'.bytecode = img.bytecode
  length : img'.length = img.length
  main : img'.main = img.main

namespace Image.Steady

theorem refl (img : Image) : img.Steady img := ⟨rfl, rfl, rfl, rfl⟩

theorem trans {img img' img'' : Image} (h : img.Steady img') (h' : img'.Steady img'') :
    img.Steady img'' where
  routines := h'.routines.trans h.routines
  bytecode := h'.bytecode.trans h.bytecode
  length := h'.length.trans h.length
  main := h'.main.trans h.main

end Image.Steady

/-! ## the state of the thread -/

/-- The state in which an instruction leaves a thread: a return from the outermost activation ends
it, and a pause for a positive number of ticks puts it to sleep. -/
def Thread.stateAfter (t : Thread) (i : Instruction) : ThreadState :=
  if i.opcode? = some .ret ∧ t.depth = 0 then .terminated
  else if i = .builtin .pauseFrames ∧ 0 < t.top then .suspended
  else t.state

theorem Thread.stateAfter_eq (t : Thread) {i : Instruction} (hret : i.opcode? ≠ some .ret)
    (hpause : i ≠ .builtin .pauseFrames) : t.stateAfter i = t.state := by
  unfold stateAfter
  rw [if_neg fun h => hret h.1, if_neg fun h => hpause h.1]

section
variable {p : Peripherals σ} {e e' : Engine σ} {next : Nat} {i : Instruction} {o : Outcome}

theorem Performs.image (h : Performs p e next i o e') :
    (e'.image = e.image ∧ ∀ k, i ≠ .setGlobal k) ∨
    ∃ k, i = .setGlobal k ∧ k.toNat < e.image.globalCount ∧
      e'.image = e.image.setGlobal k.toNat e.thread.top := by
  cases h with
  | push pushes room =>
    refine .inl ⟨rfl, ?_⟩
    rintro k rfl
    cases pushes
  | drop one => exact .inl ⟨rfl, nofun⟩
  | setGlobal one found => exact .inr ⟨_, rfl, found, rfl⟩
  | setLocal runs inFrame inStack one => exact .inl ⟨rfl, nofun⟩
  | jmp reach => exact .inl ⟨rfl, nofun⟩
  | jz one reach => exact .inl ⟨rfl, nofun⟩
  | call found runs provided frames room => exact .inl ⟨rfl, nofun⟩
  | back runs values inner => exact .inl ⟨rfl, nofun⟩
  | finish runs values outer => exact .inl ⟨rfl, nofun⟩
  | @builtin b a v e₁ args room does effect =>
    have ha := (a.effect_thread p e).1
    rw [effect] at ha
    exact .inl ⟨ha, nofun⟩

theorem Performs.steady (h : Performs p e next i o e') : e.image.Steady e'.image := by
  rcases h.image with ⟨himage, -⟩ | ⟨k, -, -, himage⟩
  · rw [himage]
    exact .refl _
  · rw [himage]
    exact ⟨rfl, rfl, rfl, rfl⟩

/-! ## the thread -/

theorem Performs.sp (h : Performs p e next i o e') {δ : Int} (hδ : stackChange? i.byte = some δ) :
    (e'.thread.sp : Int) = e.thread.sp + δ := by
  cases h with
  | push pushes room =>
    cases pushes.stackChange?.symm.trans hδ
    rfl
  | drop one | setGlobal one found | setLocal runs inFrame inStack one | jz one reach =>
    cases hδ
    show ((e.thread.sp - 1 : Nat) : Int) = e.thread.sp + -1
    omega
  | jmp reach =>
    cases hδ
    exact (Int.add_zero _).symm
  | call found runs provided frames room => cases hδ
  | back runs values inner => cases hδ
  | finish runs values outer => cases hδ
  | @builtin b a v e₁ args room does effect =>
    cases (stackChange?_builtin b).symm.trans hδ
    show ((e.thread.sp - b.arity + 1 : Nat) : Int) = e.thread.sp + (1 - b.arity)
    omega

theorem Performs.sp_call {k : UInt8} (h : Performs p e next (.call k) o e') :
    ∃ callee, e.image.routine? k.toNat = some callee ∧
      e'.thread.sp = e.thread.sp + callee.locals.toNat := by
  cases h with
  | push pushes room => cases pushes
  | call found runs provided frames room => exact ⟨_, found, rfl⟩

theorem Performs.state (h : Performs p e next i o e') :
    e'.thread.state = e.thread.stateAfter i := by
  have hrest : i.opcode? ≠ some .ret → i ≠ .builtin .pauseFrames →
      e.thread.state = e.thread.stateAfter i := fun hret hpause =>
    (e.thread.stateAfter_eq hret hpause).symm
  cases h with
  | push pushes room => cases pushes <;> exact hrest nofun nofun
  | drop one => exact hrest nofun nofun
  | setGlobal one found => exact hrest nofun nofun
  | setLocal runs inFrame inStack one => exact hrest nofun nofun
  | jmp reach => exact hrest nofun nofun
  | jz one reach => exact hrest nofun nofun
  | call found runs provided frames room => exact hrest nofun nofun
  | @back n i r runs values inner =>
    unfold Thread.stateAfter
    rw [if_neg fun h => inner h.2, if_neg fun h => nomatch h.1]
    show (e.thread.collapse n.toNat r.frameSize).state = e.thread.state
    rw [Thread.collapse_eq]
  | finish runs values outer => exact (if_pos ⟨rfl, outer⟩).symm
  | @builtin b a v e₁ args room does effect =>
    have hstate := Builtin.state_effect p e does
    rw [effect] at hstate
    unfold Thread.stateAfter
    rw [if_neg fun h => nomatch h.1]
    simpa [Thread.settle, Thread.setSlot] using hstate

/-! ## the peripherals -/

theorem Performs.devices (h : Performs p e next i o e')
    (asksNot : ∀ b, i = .builtin b → b.asks = false) : e'.devices = e.devices := by
  cases h with
  | @builtin b a v e₁ args room does effect =>
    show e₁.devices = e.devices
    cases a with
    | yield v =>
      cases effect
      rfl
    | ask r =>
      have hasks := Builtin.asks_of_action does
      rw [asksNot b rfl] at hasks
      cases hasks
    | sleep count =>
      cases effect
      rfl
  | _ => rfl

end

/-! ## runs -/

namespace Engine

variable {p : Peripherals σ} {e : Engine σ}

theorem step_steady (p : Peripherals σ) (e : Engine σ) : e.image.Steady (e.step p).2.image := by
  rcases hs : e.step p with ⟨result, e'⟩
  cases result with
  | error f =>
    have he := step_error_engine (p := p) (e := e) (f := f) (by rw [hs])
    rw [hs] at he
    rw [show e' = e from he]
    exact .refl _
  | ok o =>
    rcases step_ok_iff.mp hs with ⟨-, -, rfl⟩ | ⟨-, i, -, hp⟩
    · exact .refl _
    · exact hp.steady

theorem stepped_steady (p : Peripherals σ) (e : Engine σ) (n : Nat) :
    e.image.Steady (e.stepped p n).image := by
  induction n generalizing e with
  | zero => exact .refl _
  | succ n ih => exact (step_steady p e).trans (ih (e.step p).2)

theorem run_steady {fuel : Nat} {log : Array Event} {r : Run σ}
    (h : e.run p fuel log = some r) : e.image.Steady r.engine.image := by
  obtain ⟨n, -, hlast, -⟩ := run_ends h
  have hsteady := stepped_steady p e (n + 1)
  rw [stepped_succ, hlast] at hsteady
  exact hsteady

end Engine

/-! ## all that a step changes -/

/-- What a step with the instruction `i` may change.  It writes to the globals only if it sets one,
and never below its activation; the first byte tells how the stack pointer moves, except for calls
and returns, and where execution goes on, unless it is transferred; and the peripherals are touched
only by their own operations. -/
structure Changes (i : Instruction) (e e' : Engine σ) : Prop where
  image : e.image.Steady e'.image
  globals : (∀ k, i ≠ .setGlobal k) → e'.image.globalBytes = e.image.globalBytes
  global : ∀ k, i = .setGlobal k → k.toNat < e.image.globalCount ∧
    ∀ j, e'.image.global? j = if j = k.toNat then some e.thread.top else e.image.global? j
  slots : ∀ k < e.thread.fp, e'.thread.slot k = e.thread.slot k
  frames : ∀ k < min e.thread.depth e'.thread.depth, e'.thread.frame k = e.thread.frame k
  sp : ∀ δ, stackChange? i.byte = some δ → (e'.thread.sp : Int) = e.thread.sp + δ
  spCall : ∀ k, i = .call k → ∃ callee, e.image.routine? k.toNat = some callee ∧
    e'.thread.sp = e.thread.sp + callee.locals.toNat
  pc : ¬ Transfers i.byte e.thread → e'.thread.pc = e.thread.pc + span i.byte
  state : e'.thread.state = e.thread.stateAfter i
  devices : (∀ b, i = .builtin b → b.asks = false) → e'.devices = e.devices

theorem Performs.changes {p : Peripherals σ} {e e' : Engine σ} {i : Instruction} {o : Outcome}
    (h : Performs p e (e.thread.pc + i.size) i o e') (hf : e.thread.fp ≤ e.thread.sp)
    (hs : e.thread.sp ≤ stackSize) (hx : e.thread.state = .executing) : Changes i e e' := by
  have alive : e.thread.state ≠ .terminated := by rw [hx]; exact nofun
  have shares := (h.moves hf hs alive).shares
  refine ⟨h.steady, ?_, ?_, shares.below, ?_, fun δ => h.sp, ?_, ?_, h.state, h.devices⟩
  · intro none
    rcases h.image with ⟨himage, -⟩ | ⟨k, hk, -, -⟩
    · rw [himage]
    · exact absurd hk (none k)
  · intro k hk
    rcases h.image with ⟨-, none⟩ | ⟨k', hk', found, himage⟩
    · exact absurd hk (none k)
    · rw [hk, Instruction.setGlobal.injEq] at hk'
      subst hk'
      refine ⟨found, fun j => ?_⟩
      rw [himage]
      exact Image.global?_setGlobal e.image _ found j
  · intro k hk
    exact shares.frame k (by omega) (by omega)
  · rintro k rfl
    exact h.sp_call
  · intro stays
    rw [← Instruction.size_eq_span]
    exact h.falls_through stays

namespace Engine

/-- **What a step changes.**  A step that succeeds changes no more than its instruction may, which
is the one whose first byte is at the program counter; and no run of any length changes anything of
an image but the values of its globals. -/
theorem step_changes (p : Peripherals σ) :
    (∀ (e e' : Engine σ) (o : Outcome), e.thread.state = .executing →
      e.thread.fp ≤ e.thread.sp → e.thread.sp ≤ stackSize → e.thread.depth ≤ maxFrames →
      e.step p = (.ok o, e') →
      ∃ i, e.decoded = .instruction i ∧ e.image.code[e.thread.pc]? = some i.byte ∧
        Changes i e e') ∧
    (∀ (e : Engine σ) (n : Nat), e.image.Steady (e.stepped p n).image) ∧
    (∀ (e : Engine σ) (fuel : Nat) (log : Array Event) (r : Run σ),
      e.run p fuel log = some r → e.image.Steady r.engine.image) := by
  refine ⟨?_, stepped_steady p, fun e fuel log r => run_steady⟩
  intro e e' o hx hf hs _ h
  rcases step_ok_iff.mp h with ⟨hn, -, -⟩ | ⟨-, i, hi, hp⟩
  · exact absurd hx hn
  · refine ⟨i, hi, ?_, hp.changes hf hs hx⟩
    have hbyte : e.decoded.byte? = e.image.fetch e.thread.pc := byte?_decode _ _
    rw [← Image.fetch_eq_code, ← hbyte, hi]
    rfl

/-- An engine inside a call, about to set the second of two globals. -/
def storing : Engine Unit where
  image := .ofParts [⟨0, 1, 0⟩, ⟨0, 1, 2⟩] [5, 6] [0x0A, 1, 0x04, 1, 0x0D, 0] 0
  thread := { Thread.idle with
    state := .executing
    routine := some 1
    pc := 2
    sp := 3
    fp := 1
    depth := 1
    frames := Vector.replicate maxFrames ⟨0, 2, 0⟩
    stack := Vector.replicate stackSize 9 }
  devices := ()

theorem step_changes_storing :
    ∃ e', storing.step silent = (.ok .running, e') ∧ e'.image.global? 0 = some 5 ∧
      e'.image.global? 1 = some 9 ∧ (e'.thread.sp : Int) = 2 ∧ e'.thread.pc = 4 ∧
      e'.thread.slot 0 = 9 ∧ e'.thread.state = .executing ∧ e'.image.main = 0 := by
  have hstep : (storing.step silent).1 = .ok .running := by decide +kernel
  obtain ⟨i, hi, -, h⟩ := (step_changes silent).1 storing _ .running rfl (by decide) (by decide)
    (by decide) (Prod.ext hstep rfl)
  have hd : storing.decoded = .instruction (.setGlobal 1) := by decide +kernel
  cases hi.symm.trans hd
  obtain ⟨-, hglobal⟩ := h.global 1 rfl
  refine ⟨_, Prod.ext hstep rfl, hglobal 0, hglobal 1, h.sp (-1) rfl, h.pc ?_, h.slots 0 ?_, ?_,
    h.image.main⟩
  · unfold Transfers
    decide
  · decide
  · exact h.state

end Engine
end TickMachine
