import TickMachine.Word
import TickMachine.Wire.Framing

/-!
# Commands

What a debugger can ask.  A command is a letter with operands of fixed size; the data of a memory
write follow its header in the same frame.
-/

namespace TickMachine

inductive Command where
  | hello
  | reset
  | beginExec (routine nargs : UInt8)
  | writeMem (segment : UInt8) (offset count : UInt16)
  deriving DecidableEq, Repr

namespace Command

/-! ## the letters of the commands -/

def helloOp : UInt8 := 0x68
def resetOp : UInt8 := 0x72
def beginExecOp : UInt8 := 0x78
def writeMemOp : UInt8 := 0x77

def isKnown (op : UInt8) : Bool :=
  op == helloOp || op == resetOp || op == beginExecOp || op == writeMemOp

/-- The most bytes of a command that are kept. -/
def bufferSize : Nat := 32

/-- The size of the header of a memory write. -/
def writeMemHeaderSize : Nat := 6

def op : Command → UInt8
  | hello => helloOp
  | reset => resetOp
  | beginExec .. => beginExecOp
  | writeMem .. => writeMemOp

def body : Command → List UInt8
  | hello => [helloOp]
  | reset => [resetOp]
  | beginExec r n => [beginExecOp, r, n]
  | writeMem s offset count =>
    [writeMemOp, s, lowByte offset, highByte offset, lowByte count, highByte count]

/-- The command with a given payload; every other payload is none. -/
def parse? : List UInt8 → Option Command
  | [a] => if a = helloOp then some hello else if a = resetOp then some reset else none
  | [a, r, n] => if a = beginExecOp then some (beginExec r n) else none
  | [a, s, o0, o1, n0, n1] =>
    if a = writeMemOp then some (writeMem s (word o0 o1) (word n0 n1)) else none
  | _ => none

def encode (c : Command) : List UInt8 := frame c.body

theorem parse?_body (c : Command) : parse? c.body = some c := by
  cases c with
  | hello => rfl
  | reset => rfl
  | beginExec r n => rfl
  | writeMem s o n => simp [body, parse?]

end Command
end TickMachine
