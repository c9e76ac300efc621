import TickMachine.Value
import TickMachine.Opcode
import TickMachine.Builtin

/-!
# Instructions

An instruction is an opcode with its operand, or a built-in.  `Instruction.encode` gives its
bytes; `decode` reads the instruction at an address, through a function that gives the byte
at every address within the code.

* `readByte?`, `readValue?`   the two kinds of operand;
* `decode_of_encode`   what was encoded at an address is decoded there.
-/

namespace TickMachine

/-- Code as seen by a reader: the byte at an address, or nothing past the end. -/
abbrev Fetch := Nat → Option UInt8

def readByte? (fetch : Fetch) (addr : Nat) : Option UInt8 := fetch addr

def readValue? (fetch : Fetch) (addr : Nat) : Option Value := do
  let lo ← fetch addr
  let hi ← fetch (addr + 1)
  return Value.ofBytes lo hi

inductive Instruction where
  | pushConst (v : Value)
  | zero
  | drop
  | getGlobal (index : UInt8)
  | setGlobal (index : UInt8)
  | getLocal (index : UInt8)
  | setLocal (index : UInt8)
  | call (routine : UInt8)
  | ret (count : UInt8)
  | jmp (displacement : Value)
  | jz (displacement : Value)
  | builtin (b : Builtin)
  deriving DecidableEq, Repr

namespace Instruction

/-- The opcode of an instruction that is not a built-in. -/
def opcode? : Instruction → Option Opcode
  | pushConst _ => some .pushConst
  | zero => some .zero
  | drop => some .drop
  | getGlobal _ => some .getGlobal
  | setGlobal _ => some .setGlobal
  | getLocal _ => some .getLocal
  | setLocal _ => some .setLocal
  | call _ => some .call
  | ret _ => some .ret
  | jmp _ => some .jmp
  | jz _ => some .jz
  | builtin _ => none

def byte : Instruction → UInt8
  | pushConst _ => Opcode.byte .pushConst
  | zero => Opcode.byte .zero
  | drop => Opcode.byte .drop
  | getGlobal _ => Opcode.byte .getGlobal
  | setGlobal _ => Opcode.byte .setGlobal
  | getLocal _ => Opcode.byte .getLocal
  | setLocal _ => Opcode.byte .setLocal
  | call _ => Opcode.byte .call
  | ret _ => Opcode.byte .ret
  | jmp _ => Opcode.byte .jmp
  | jz _ => Opcode.byte .jz
  | builtin b => b.byte

def operand : Instruction → List UInt8
  | pushConst v | jmp v | jz v => Value.bytes v
  | getGlobal n | setGlobal n | getLocal n | setLocal n | call n | ret n => [n]
  | zero | drop | builtin _ => []

def encode (i : Instruction) : List UInt8 := i.byte :: i.operand

def size (i : Instruction) : Nat := 1 + i.operand.length

@[simp] theorem length_encode (i : Instruction) : i.encode.length = i.size := by
  simp [encode, size, Nat.add_comm]

theorem size_pos (i : Instruction) : 0 < i.size := by simp only [size]; omega

end Instruction

/-- The instruction of an opcode with the operand at `addr`, if all of the operand is there. -/
def Opcode.complete? (op : Opcode) (fetch : Fetch) (addr : Nat) : Option Instruction :=
  match op with
  | .pushConst => (readValue? fetch addr).map .pushConst
  | .zero => some .zero
  | .drop => some .drop
  | .getGlobal => (readByte? fetch addr).map .getGlobal
  | .setGlobal => (readByte? fetch addr).map .setGlobal
  | .getLocal => (readByte? fetch addr).map .getLocal
  | .setLocal => (readByte? fetch addr).map .setLocal
  | .call => (readByte? fetch addr).map .call
  | .ret => (readByte? fetch addr).map .ret
  | .jmp => (readValue? fetch addr).map .jmp
  | .jz => (readValue? fetch addr).map .jz

inductive Decoded where
  | outside
  | unknown (byte : UInt8)
  | truncated (op : Opcode)
  | instruction (i : Instruction)
  deriving DecidableEq, Repr

namespace Decoded

/-- What a first byte begins, with the operand at `addr`. -/
def ofByte (byte : UInt8) (fetch : Fetch) (addr : Nat) : Decoded :=
  if Builtin.base ≤ byte then
    match Builtin.ofByte? byte with
    | some b => .instruction (.builtin b)
    | none => .unknown byte
  else
    match Opcode.ofByte? byte with
    | none => .unknown byte
    | some op =>
      match op.complete? fetch addr with
      | some i => .instruction i
      | none => .truncated op

end Decoded

def decode (fetch : Fetch) (pc : Nat) : Decoded :=
  match fetch pc with
  | none => .outside
  | some byte => .ofByte byte fetch (pc + 1)

/-- An instruction whose bytes stand at `pc` is decoded there. -/
theorem decode_of_encode (fetch : Fetch) (pc : Nat) (i : Instruction)
    (h : ∀ k, (hk : k < i.encode.length) → fetch (pc + k) = some i.encode[k]) :
    decode fetch pc = .instruction i := by
  have h0 := h 0 (by simp [Instruction.encode])
  cases i with
  | pushConst v | jmp v | jz v =>
    have h1 := h 1 (by simp [Instruction.encode, Instruction.operand, Value.bytes])
    have h2 := h 2 (by simp [Instruction.encode, Instruction.operand, Value.bytes])
    simp [Instruction.encode, Instruction.operand, Instruction.byte, Value.bytes] at h0 h1 h2
    simp [decode, h0, Decoded.ofByte, Builtin.base, Opcode.byte, Opcode.ofByte?,
      Opcode.complete?, readValue?, h1, h2, Nat.add_assoc]
  | getGlobal n | setGlobal n | getLocal n | setLocal n | call n | ret n =>
    have h1 := h 1 (by simp [Instruction.encode, Instruction.operand])
    simp [Instruction.encode, Instruction.operand, Instruction.byte] at h0 h1
    simp [decode, h0, Decoded.ofByte, Builtin.base, Opcode.byte, Opcode.ofByte?,
      Opcode.complete?, readByte?, h1]
  | zero | drop =>
    simp [Instruction.encode, Instruction.byte] at h0
    simp [decode, h0, Decoded.ofByte, Builtin.base, Opcode.byte, Opcode.ofByte?, Opcode.complete?]
  | builtin b =>
    simp [Instruction.encode, Instruction.byte] at h0
    simp [decode, h0, Decoded.ofByte, Builtin.base_le_byte]

end TickMachine
