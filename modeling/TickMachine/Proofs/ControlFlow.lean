import TickMachine.Proofs.Rules

/-!
# Where a step leads

After a step the program counter is behind the instruction, unless the instruction calls, returns
or jumps.  A jump that is taken leads to its target, or fails if the target lies before the code.
And a step fails for want of an instruction exactly if there is none.

* `Engine.decoded_eq`   what an engine decodes is read off the code of its image;
* `Transfers`   the instructions that lead elsewhere, by their first byte;
* `Performs.falls_through`   all others lead to the next one;
* `Jumps`   the jumps that are taken;
* `Engine.step_jumps`, `Engine.step_jumps_out`   where they lead;
* `Engine.step_unknown_iff`, `Engine.step_truncated_iff`   no instruction, or half of one.
-/

namespace TickMachine

variable {σ : Type}

/-! ## the code of an engine -/

def reading (code : List UInt8) : Fetch := fun pc => code[pc]?

theorem Image.fetch_eq_reading (img : Image) : img.fetch = reading img.code :=
  funext img.fetch_eq_code

theorem Engine.decoded_eq (e : Engine σ) : e.decoded = decode (reading e.image.code) e.thread.pc := by
  unfold Engine.decoded
  rw [Image.fetch_eq_reading]

/-! ## leading on and elsewhere -/

/-- What begins with this byte leads elsewhere than to the next instruction: it calls, returns or
jumps, or it jumps on zero and finds one. -/
def Transfers (byte : UInt8) (t : Thread) : Prop :=
  byte = Opcode.byte .call ∨ byte = Opcode.byte .ret ∨ byte = Opcode.byte .jmp ∨
    (byte = Opcode.byte .jz ∧ t.top = 0)

theorem Performs.falls_through {p : Peripherals σ} {e e' : Engine σ} {next : Nat}
    {i : Instruction} {o : Outcome} (h : Performs p e next i o e')
    (stays : ¬ Transfers i.byte e.thread) : e'.thread.pc = next := by
  cases h with
  | push pushes room => rfl
  | drop one => rfl
  | setGlobal one found => rfl
  | setLocal runs inFrame inStack one => rfl
  | jmp reach => exact absurd (.inr (.inr (.inl rfl))) stays
  | jz one reach =>
    have hz : e.thread.top ≠ 0 := fun hz => stays (.inr (.inr (.inr ⟨rfl, hz⟩)))
    show (if e.thread.top = 0 then _ else next) = next
    rw [if_neg hz]
  | call found runs provided frames room => exact absurd (.inl rfl) stays
  | back runs values inner => exact absurd (.inr (.inl rfl)) stays
  | finish runs values outer => exact absurd (.inr (.inl rfl)) stays
  | builtin args room does effect => rfl

/-- `Jumps t i d`: on the thread `t` the instruction `i` jumps by the displacement `d`. -/
inductive Jumps (t : Thread) : Instruction → Value → Prop where
  | jmp (d : Value) : Jumps t (.jmp d) d
  | jz (d : Value) (one : t.fp + 1 ≤ t.sp) (zero : t.top = 0) : Jumps t (.jz d) d

theorem Jumps.size {t : Thread} {i : Instruction} {d : Value} (h : Jumps t i d) : i.size = 3 := by
  cases h <;> rfl

theorem Jumps.performs {p : Peripherals σ} {e : Engine σ} {i : Instruction} {d : Value}
    (h : Jumps e.thread i d) {next target : Nat} (reach : (target : Int) = next + d.toInt) :
    ∃ e', Performs p e next i .running e' ∧ e'.thread.pc = target := by
  cases h with
  | jmp => exact ⟨_, .jmp reach, rfl⟩
  | jz _ one zero => exact ⟨_, .jz one reach, if_pos zero⟩

/-- A jump fails if its target lies before the code. -/
theorem Jumps.fails {p : Peripherals σ} {e : Engine σ} {i : Instruction} {d : Value}
    (h : Jumps e.thread i d) {next : Nat} (out : (next : Int) + d.toInt < 0) :
    Exec.Fails (Exec.execute p i next) e (.jumpOutOfRange (next + d.toInt)) := by
  cases h with
  | jmp => simp [Exec.execute, out]
  | jz _ one zero =>
    have enough : ¬ e.thread.sp < e.thread.fp + 1 := by omega
    simp [Exec.execute, out, one, enough]

/-! ## faults of instructions -/

/-- What was decoded as an instruction does not fail for want of one. -/
theorem Exec.not_fails_undecoded {p : Peripherals σ} {e : Engine σ} {i : Instruction}
    {next : Nat} {c : Cause} (hc : c = .pcOverflow ∨ ∃ byte, c = .unknownOpcode byte) :
    ¬ Fails (execute p i next) e c := by
  intro h
  cases i with
  | builtin b =>
    rcases fails_builtin.mp h with ⟨-, rfl⟩ | ⟨-, ⟨-, rfl⟩ | ⟨-, ha⟩⟩
    · rcases hc with hc | ⟨byte, hc⟩ <;> cases hc
    · rcases hc with hc | ⟨byte, hc⟩ <;> cases hc
    · rcases hc with rfl | ⟨byte, rfl⟩ <;> cases Builtin.action_error ha
  | _ =>
    rcases hc with rfl | ⟨byte, rfl⟩ <;> simp [execute, fails_call, fails_ret, Engine.Lost] at h

namespace Engine

variable {p : Peripherals σ} {e e' : Engine σ}

theorem step_falls_through {i : Instruction} {o : Outcome} (hx : e.thread.state = .executing)
    (hd : e.decoded = .instruction i) (stays : ¬ Transfers i.byte e.thread)
    (h : e.step p = (.ok o, e')) : e'.thread.pc = e.thread.pc + i.size := by
  rcases step_ok_iff.mp h with ⟨hn, -, -⟩ | ⟨-, j, hj, hp⟩
  · exact absurd hx hn
  · rw [hd, Decoded.instruction.injEq] at hj
    subst hj
    exact hp.falls_through stays

theorem step_jumps {i : Instruction} {d : Value} (hx : e.thread.state = .executing)
    (hd : e.decoded = .instruction i) (hj : Jumps e.thread i d) {target : Nat}
    (reach : (target : Int) = e.thread.pc + 3 + d.toInt) :
    ∃ e', e.step p = (.ok .running, e') ∧ e'.thread.pc = target := by
  have hnext : (target : Int) = ((e.thread.pc + i.size : Nat) : Int) + d.toInt := by
    rw [hj.size]
    omega
  obtain ⟨e', hp, hpc⟩ := hj.performs (p := p) hnext
  exact ⟨e', step_ok_iff.mpr (.inr ⟨hx, i, hd, hp⟩), hpc⟩

theorem step_jumps_out {i : Instruction} {d : Value} (hx : e.thread.state = .executing)
    (hd : e.decoded = .instruction i) (hj : Jumps e.thread i d)
    (out : (e.thread.pc + 3 + d.toInt : Int) < 0) :
    (e.step p).1 =
      .error (e.fault (some i.byte) (.jumpOutOfRange (e.thread.pc + 3 + d.toInt))) := by
  have hnext : ((e.thread.pc + i.size : Nat) : Int) + d.toInt = e.thread.pc + 3 + d.toInt := by
    rw [hj.size]
    omega
  have hf : Exec.Fails (Exec.execute p i (e.thread.pc + i.size)) e _ := hj.fails (by omega)
  rw [hnext] at hf
  exact step_error_iff.mpr ⟨hx, .inr (.inr (.inr ⟨i, _, hd, hf, rfl⟩))⟩

/-! ## no instruction -/

theorem step_unknown_iff (hx : e.thread.state = .executing) {byte : UInt8} :
    (∃ f, (e.step p).1 = .error f ∧ f.cause = .unknownOpcode byte) ↔
      e.decoded = .unknown byte := by
  constructor
  · rintro ⟨f, hf, hc⟩
    obtain ⟨-, ⟨-, rfl⟩ | ⟨b, hd, rfl⟩ | ⟨op, -, rfl⟩ | ⟨i, c, -, hfail, rfl⟩⟩ :=
      step_error_iff.mp hf
    · cases hc
    · cases hc
      exact hd
    · cases hc
    · cases hc
      exact absurd hfail (Exec.not_fails_undecoded (.inr ⟨_, rfl⟩))
  · intro hd
    exact ⟨_, step_error_iff.mpr ⟨hx, .inr (.inl ⟨byte, hd, rfl⟩)⟩, rfl⟩

theorem step_truncated_iff (hx : e.thread.state = .executing) {byte : UInt8} :
    (∃ f, (e.step p).1 = .error f ∧ f.cause = .pcOverflow ∧ f.opcode = some byte) ↔
      ∃ op, e.decoded = .truncated op ∧ op.byte = byte := by
  constructor
  · rintro ⟨f, hf, hc, hb⟩
    obtain ⟨-, ⟨-, rfl⟩ | ⟨b, -, rfl⟩ | ⟨op, hd, rfl⟩ | ⟨i, c, -, hfail, rfl⟩⟩ :=
      step_error_iff.mp hf
    · cases hb
    · cases hc
    · exact ⟨op, hd, Option.some.inj hb⟩
    · cases hc
      exact absurd hfail (Exec.not_fails_undecoded (.inl rfl))
  · rintro ⟨op, hd, rfl⟩
    exact ⟨_, step_error_iff.mpr ⟨hx, .inr (.inr (.inl ⟨op, hd, rfl⟩))⟩, rfl, rfl⟩

end Engine
end TickMachine
