import TickMachine.Text.Hex

/-!
# Faults

A fault is what stops a program: the cause, where the faulting instruction stands, its first
byte (absent when there was none to fetch) and the depth of the stack before it.
-/

namespace TickMachine

/-- The stores of fixed size that a program can exhaust. -/
inductive Resource where
  | operandStack
  | callFrames
  deriving DecidableEq, Repr

def Resource.label : Resource → String
  | .operandStack => "operand stack"
  | .callFrames => "call-frame stack"

inductive Cause where
  | pcOverflow
  | unknownOpcode (byte : UInt8)
  | arityMismatch (routine expected provided : Nat)
  | unknownRoutine (index : Nat)
  | stackUnderflow
  | exhausted (resource : Resource) (attempted capacity : Nat)
  | localOutOfRange (index frameSize : Nat)
  | globalOutOfRange (index count : Nat)
  | jumpOutOfRange (target : Int)
  | divisionByZero
  | noActiveRoutine
  deriving DecidableEq, Repr

def Cause.message : Cause → String
  | .pcOverflow => "pc overflow"
  | .unknownOpcode byte => s!"unknown opcode {Hex.byte byte}"
  | .arityMismatch r expected provided =>
    s!"function {r} expects {expected} argument(s), call site provides {provided}"
  | .unknownRoutine i => s!"unknown function {i}"
  | .stackUnderflow => "stack underflow"
  | .exhausted resource attempted capacity =>
    s!"{resource.label} exhausted (attempted depth {attempted}, capacity {capacity})"
  | .localOutOfRange i frameSize => s!"local {i} outside frame of {frameSize} slot(s)"
  | .globalOutOfRange i count => s!"global {i} out of range ({count} global(s))"
  | .jumpOutOfRange target => s!"jump target {target} outside bytecode"
  | .divisionByZero => "division by zero"
  | .noActiveRoutine => "thread has no active function"

structure Fault where
  cause : Cause
  pc : Nat
  opcode : Option UInt8
  sp : Nat
  deriving DecidableEq, Repr

def Fault.message (f : Fault) : String :=
  let opcode := match f.opcode with
    | some byte => Hex.byte byte
    | none => "-"
  s!"{f.cause.message} at pc 0x{Hex.address f.pc} (opcode {opcode}, sp {f.sp})"

end TickMachine
