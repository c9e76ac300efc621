import TickMachine.Opcode
import TickMachine.Builtin
import TickMachine.Value
import TickMachine.Text.Hex

/-!
# Listings

The lines of a code, each with its address.  A listing knows of an instruction only what it needs
to show it: it cuts the operand of an opcode out of the code, by the size alone, and prints it by
its shape.  It ends with the code, or with the first line that is no complete instruction.

* `Line.operand?`   the bytes of an operand;
* `Line.ofByte`, `Line.at?`   the line at an address;
* `Line.text`   a line as it is printed;
* `listing`   the lines of a code, one after the other.
-/

namespace TickMachine

inductive Line where
  | builtin (b : Builtin)
  /-- An opcode with the bytes of its operand. -/
  | operation (op : Opcode) (operand : List UInt8)
  | unknown (byte : UInt8)
  /-- An opcode whose operand is cut off by the end of the code. -/
  | truncated (op : Opcode)
  deriving DecidableEq, Repr

namespace Line

/-- The operand of an opcode that stands at `pc`, if all of it is there. -/
def operand? (code : Array UInt8) (pc : Nat) (op : Opcode) : Option (List UInt8) :=
  let stop := pc + 1 + op.operandSize
  if stop ≤ code.size then some (code.extract (pc + 1) stop).toList else none

/-- The line of what begins with `byte`, at the address `pc`. -/
def ofByte (code : Array UInt8) (pc : Nat) (byte : UInt8) : Line :=
  if Builtin.base ≤ byte then
    match Builtin.ofByte? byte with
    | some b => .builtin b
    | none => .unknown byte
  else
    match Opcode.ofByte? byte with
    | none => .unknown byte
    | some op =>
      match operand? code pc op with
      | some operand => .operation op operand
      | none => .truncated op

def at? (code : Array UInt8) (pc : Nat) : Option Line := code[pc]?.map (ofByte code pc)

theorem lt_of_at? {code : Array UInt8} {pc : Nat} {l : Line} (h : at? code pc = some l) :
    pc < code.size := by
  obtain ⟨byte, hbyte, -⟩ := Option.map_eq_some_iff.mp h
  exact (Array.getElem?_eq_some_iff.mp hbyte).1

/-- How many bytes a line shows, if there can be lines after it. -/
def length? : Line → Option Nat
  | builtin _ => some 1
  | operation op _ => some (1 + op.operandSize)
  | unknown _ | truncated _ => none

theorem length?_pos {l : Line} {n : Nat} (h : l.length? = some n) : 0 < n := by
  cases l <;> cases h <;> omega

/-! ## texts -/

/-- An integer with its sign, also when it is positive. -/
def signed (i : Int) : String := if i < 0 then toString i else s!"+{i}"

/-- The target of a jump that ends at `next`, in 64 bits. -/
def jumpText (mnemonic : String) (displacement : Value) (next : Nat) : String :=
  let target := (next : Int) + displacement.toInt
  s!"{mnemonic} {signed displacement.toInt} ; -> {Hex.address (Hex.complement target)}"

def operandText (op : Opcode) (operand : Int) : String := s!"{op.mnemonic} {operand}"

/-- The text of an opcode at `pc`, whose operand is read as its length suggests. -/
def operationText (op : Opcode) (operand : List UInt8) (pc : Nat) : String :=
  match op, operand with
  | .jmp, [lo, hi] => jumpText (Opcode.mnemonic .jmp) (Value.ofBytes lo hi) (pc + 3)
  | .jz, [lo, hi] => jumpText (Opcode.mnemonic .jz) (Value.ofBytes lo hi) (pc + 3)
  | op, [lo, hi] => operandText op (Value.ofBytes lo hi).toInt
  | op, [n] => operandText op n.toNat
  | op, _ => op.mnemonic

/-- The text of a line at the address `pc`. -/
def text (l : Line) (pc : Nat) : String :=
  match l with
  | .builtin b => s!"{b.name} ({b.arity})"
  | .operation op operand => operationText op operand pc
  | .unknown byte => s!".byte {Hex.byte byte}"
  | .truncated op => s!"{op.mnemonic} <truncated>"

end Line

/-- The lines from address `pc` on. -/
def listFrom (code : Array UInt8) (pc : Nat) : List (Nat × Line) :=
  match _ : Line.at? code pc with
  | none => []
  | some line =>
    match _ : line.length? with
    | some n => (pc, line) :: listFrom code (pc + n)
    | none => [(pc, line)]
termination_by code.size - pc
decreasing_by
  have hpc := Line.lt_of_at? ‹_›
  have hpos := Line.length?_pos ‹_›
  omega

theorem listFrom_of_none {code : Array UInt8} {pc : Nat} (h : Line.at? code pc = none) :
    listFrom code pc = [] := by
  fun_cases listFrom code pc with
  | case1 => rfl
  | case2 l hl => cases h.symm.trans hl
  | case3 l hl => cases h.symm.trans hl

theorem listFrom_of_length {code : Array UInt8} {pc n : Nat} {l : Line}
    (h : Line.at? code pc = some l) (hn : l.length? = some n) :
    listFrom code pc = (pc, l) :: listFrom code (pc + n) := by
  fun_cases listFrom code pc with
  | case1 hnone => cases h.symm.trans hnone
  | case2 l' hl n' hn' =>
    cases h.symm.trans hl
    cases hn.symm.trans hn'
    rfl
  | case3 l' hl hnone =>
    cases h.symm.trans hl
    cases hn.symm.trans hnone

def listing (code : Array UInt8) : List (Nat × Line) := listFrom code 0

def renderLine (line : Nat × Line) : String :=
  Hex.address line.1 ++ "  " ++ line.2.text line.1

end TickMachine
