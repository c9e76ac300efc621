import TickMachine.Proofs.Atomic
import TickMachine.Proofs.ControlFlow
import TickMachine.Proofs.ImageFiles

/-!
# The law of jumps

A jump leads as many bytes from its end as its displacement says, and fails if that is before the
code.  A conditional jump takes a value from the stack and leads there if it is zero, else to the
next instruction.  But it looks at its target first, and so fails for a target before the code
whatever the value is.

* `Engine.Faces`   a whole instruction stands at the program counter;
* `Thread.destination`   where a jump leads;
* `Engine.step_jmp`, `Engine.step_jz`   what the two jumps do, in every case;
* `Engine.jump_law`   the law, and when a jump that is not taken goes on;
* `Engine.untaken_jump_fails`   it may not.
-/

namespace TickMachine

variable {σ : Type}

/-! ## instructions at the program counter -/

/-- The bytes of an instruction stand at the program counter, all of them within the code. -/
def Engine.Faces (e : Engine σ) (i : Instruction) : Prop :=
  i.encode <+: e.image.code.drop e.thread.pc

theorem Engine.Faces.decoded {e : Engine σ} {i : Instruction} (h : e.Faces i) :
    e.decoded = .instruction i := by
  obtain ⟨rest, hrest⟩ := h
  apply decode_of_encode
  intro k hk
  rw [Image.fetch_eq_code, ← List.getElem?_drop, ← hrest, List.getElem?_append_left hk,
    List.getElem?_eq_getElem hk]

namespace Thread

theorem top?_eq_top {t : Thread} (hpos : 0 < t.sp) (hs : t.sp ≤ stackSize) :
    t.top? = some t.top := by
  have hlt : t.sp - 1 < t.stack.toList.length := by
    rw [Vector.length_toList]
    omega
  unfold top? live top slot
  rw [List.getLast?_take, if_neg (by omega), List.getElem?_eq_getElem hlt]
  simp [Vector.getElem?_eq_getElem (show t.sp - 1 < stackSize by omega)]

/-- Where a jump by `d` leads: so far from its end, and it is three bytes long. -/
def destination (t : Thread) (d : Value) : Int := t.pc + 3 + d.toInt

end Thread

/-! ## the two jumps -/

namespace Exec

variable {p : Peripherals σ} {e : Engine σ} {c : Cause}

theorem fails_jmp {next : Nat} {d : Value} :
    Fails (execute p (.jmp d) next) e c ↔
      (next : Int) + d.toInt < 0 ∧ c = .jumpOutOfRange (next + d.toInt) := by
  simp [execute]

/-- Nothing is said of the value on the stack. -/
theorem fails_jz {next : Nat} {d : Value} :
    Fails (execute p (.jz d) next) e c ↔
      (e.thread.sp < e.thread.fp + 1 ∧ c = .stackUnderflow) ∨
      (e.thread.fp + 1 ≤ e.thread.sp ∧ (next : Int) + d.toInt < 0 ∧
        c = .jumpOutOfRange (next + d.toInt)) := by
  simp [execute]

end Exec

namespace Engine

variable {p : Peripherals σ} {e : Engine σ} {d : Value}

theorem step_fails {i : Instruction} {c : Cause} (hx : e.thread.state = .executing)
    (hd : e.decoded = .instruction i)
    (hc : Exec.Fails (Exec.execute p i (e.thread.pc + i.size)) e c) :
    e.step p = (.error (e.fault (some i.byte) c), e) := by
  have hf : (e.step p).1 = .error (e.fault (some i.byte) c) :=
    step_error_iff.mpr ⟨hx, .inr (.inr (.inr ⟨i, c, hd, hc, rfl⟩))⟩
  exact Prod.ext hf (step_error_engine hf)

/-- The step that goes on at `target` with the thread `t`.  It fails if the target lies before the
code. -/
def leap (e : Engine σ) (byte : UInt8) (t : Thread) (target : Int) :
    Except Fault Outcome × Engine σ :=
  if 0 ≤ target then (.ok .running, { e with thread := { t with pc := target.toNat } })
  else (.error ⟨.jumpOutOfRange target, e.thread.pc, some byte, e.thread.sp⟩, e)

theorem step_jmp (hx : e.thread.state = .executing) (hd : e.decoded = .instruction (.jmp d)) :
    e.step p = e.leap 0x14 e.thread (e.thread.destination d) := by
  have hnext : ((e.thread.pc + (Instruction.jmp d).size : Nat) : Int) + d.toInt =
      e.thread.destination d := rfl
  unfold leap
  by_cases htarget : 0 ≤ e.thread.destination d
  · rw [if_pos htarget]
    exact step_ok_iff.mpr (.inr ⟨hx, _, hd, .jmp (by rw [hnext, Int.toNat_of_nonneg htarget])⟩)
  · rw [if_neg htarget]
    exact step_fails hx hd (Exec.fails_jmp.mpr ⟨by omega, rfl⟩)

theorem step_jz (hx : e.thread.state = .executing) (hd : e.decoded = .instruction (.jz d))
    (one : e.thread.fp < e.thread.sp) :
    e.step p =
      if 0 ≤ e.thread.destination d then
        (.ok .running, { e with thread := { e.thread.drop with
          pc := if e.thread.top = 0 then (e.thread.destination d).toNat else e.thread.pc + 3 } })
      else
        (.error ⟨.jumpOutOfRange (e.thread.destination d), e.thread.pc, some 0x15, e.thread.sp⟩,
          e) := by
  have hnext : ((e.thread.pc + (Instruction.jz d).size : Nat) : Int) + d.toInt =
      e.thread.destination d := rfl
  by_cases htarget : 0 ≤ e.thread.destination d
  · rw [if_pos htarget]
    exact step_ok_iff.mpr
      (.inr ⟨hx, _, hd, .jz one (by rw [hnext, Int.toNat_of_nonneg htarget])⟩)
  · rw [if_neg htarget]
    exact step_fails hx hd (Exec.fails_jz.mpr (.inr ⟨one, by omega, rfl⟩))

/-- **The law of jumps.**  A jump goes on at its target, if that is an address, and else fails with
that number.  A conditional jump takes the last value; if it is zero it goes on like a jump.  If it
is not, then it goes on at the next instruction exactly if the target is an address, although it
does not lead there, and else it fails like a jump.  Nothing else changes. -/
theorem jump_law (p : Peripherals σ) (e : Engine σ) (d : Value)
    (hx : e.thread.state = .executing) (hs : e.thread.sp ≤ stackSize) :
    (e.Faces (.jmp d) → e.step p = e.leap 0x14 e.thread (e.thread.destination d)) ∧
    (e.Faces (.jz d) → e.thread.fp < e.thread.sp → ∃ v, e.thread.top? = some v ∧
      (v = 0 → e.step p =
        e.leap 0x15 { e.thread with sp := e.thread.sp - 1 } (e.thread.destination d)) ∧
      (v ≠ 0 →
        (e.step p = (.ok .running, { e with thread := { e.thread with
            sp := e.thread.sp - 1, pc := e.thread.pc + 3 } }) ↔
          0 ≤ e.thread.destination d) ∧
        (e.thread.destination d < 0 → e.step p =
          (.error ⟨.jumpOutOfRange (e.thread.destination d), e.thread.pc, some 0x15, e.thread.sp⟩,
            e)))) := by
  refine ⟨fun h => step_jmp hx h.decoded, fun h one => ?_⟩
  have hstep := step_jz (p := p) hx h.decoded one
  refine ⟨e.thread.top, Thread.top?_eq_top (by omega) hs, fun zero => ?_, fun nonzero => ?_⟩
  · rw [hstep, if_pos zero]
    rfl
  · rw [hstep, if_neg nonzero]
    refine ⟨?_, fun out => if_neg (by omega)⟩
    by_cases htarget : 0 ≤ e.thread.destination d
    · rw [if_pos htarget]
      exact iff_of_true rfl htarget
    · rw [if_neg htarget]
      refine iff_of_false ?_ htarget
      intro h
      cases congrArg Prod.fst h

def weighing (v d : Value) : Engine Unit where
  image := .ofParts [⟨0, 0, 0⟩] [] ((Instruction.pushConst v).encode ++ (Instruction.jz d).encode) 0
  thread := { Thread.idle with
    state := .executing
    routine := some 0
    pc := 3
    sp := 1
    stack := Vector.replicate stackSize v }
  devices := ()

theorem faces_weighing (v d : Value) : (weighing v d).Faces (.jz d) := by
  show (Instruction.jz d).encode <+: List.drop 3 (Image.ofParts _ _ _ _).code
  rw [Image.ofParts, Image.code_ofSegments]
  exact List.prefix_rfl

theorem jump_law_weighing :
    (weighing 0 (-6)).Faces (.jz (-6)) ∧ ∃ e', (weighing 0 (-6)).step silent = (.ok .running, e') ∧
      e'.thread.pc = 0 ∧ e'.thread.sp = 0 := by
  obtain ⟨v, hv, hzero, -⟩ := (jump_law silent (weighing 0 (-6)) (-6) rfl (by decide)).2
    (faces_weighing 0 (-6)) (by decide)
  have htop : (weighing 0 (-6)).thread.top? = some 0 := by decide +kernel
  cases hv.symm.trans htop
  exact ⟨faces_weighing 0 (-6), _, hzero rfl, rfl, rfl⟩

/-- The value on the stack is one, so the jump is not taken; it fails for its target all the
same. -/
theorem untaken_jump_fails :
    let e := weighing 1 (-100)
    e.thread.state = .executing ∧ e.Faces (.jz (-100)) ∧ e.thread.fp < e.thread.sp ∧
      e.thread.sp ≤ stackSize ∧ e.thread.top? = some 1 ∧
      e.step silent = (.error ⟨.jumpOutOfRange (-94), 3, some 0x15, 1⟩, e) ∧
      ¬ ∃ e', e.step silent = (.ok .running, e') := by
  intro e
  have hf : (e.step silent).1 = .error ⟨.jumpOutOfRange (-94), 3, some 0x15, 1⟩ := by decide +kernel
  refine ⟨rfl, faces_weighing 1 (-100), by decide, by decide, by decide +kernel,
    Prod.ext hf (step_error_engine hf), ?_⟩
  rintro ⟨e', he'⟩
  rw [he'] at hf
  cases hf

end Engine
end TickMachine
