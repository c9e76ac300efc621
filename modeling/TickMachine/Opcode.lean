/-!
# Opcodes

The core opcodes lie below 128.  Each has a fixed number of operand bytes after it.
-/

namespace TickMachine

inductive Opcode where
  | pushConst | zero | drop
  | getGlobal | setGlobal | getLocal | setLocal
  | call | ret
  | jmp | jz
  deriving DecidableEq, Repr

namespace Opcode

def byte : Opcode → UInt8
  | pushConst => 0x00
  | zero => 0x01
  | drop => 0x02
  | getGlobal => 0x03
  | setGlobal => 0x04
  | getLocal => 0x05
  | setLocal => 0x06
  | call => 0x0A
  | ret => 0x0D
  | jmp => 0x14
  | jz => 0x15

/-- The name in listings and in the instruction trace. -/
def mnemonic : Opcode → String
  | pushConst => "pushconst"
  | zero => "zero"
  | drop => "drop"
  | getGlobal => "getglobal"
  | setGlobal => "setglobal"
  | getLocal => "getlocal"
  | setLocal => "setlocal"
  | call => "call"
  | ret => "ret"
  | jmp => "jmp"
  | jz => "jz"

def operandSize : Opcode → Nat
  | pushConst | jmp | jz => 2
  | getGlobal | setGlobal | getLocal | setLocal | call | ret => 1
  | zero | drop => 0

def ofByte? : UInt8 → Option Opcode
  | 0x00 => some pushConst
  | 0x01 => some zero
  | 0x02 => some drop
  | 0x03 => some getGlobal
  | 0x04 => some setGlobal
  | 0x05 => some getLocal
  | 0x06 => some setLocal
  | 0x0A => some call
  | 0x0D => some ret
  | 0x14 => some jmp
  | 0x15 => some jz
  | _ => none

@[simp] theorem ofByte?_byte (op : Opcode) : ofByte? op.byte = some op := by cases op <;> rfl

theorem byte_of_ofByte? {n : UInt8} {op : Opcode} (h : ofByte? n = some op) : op.byte = n := by
  unfold ofByte? at h
  split at h <;> cases h <;> rfl

end Opcode
end TickMachine
