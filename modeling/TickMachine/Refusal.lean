/-!
# Refusals

Why a request to the machine (a command of the debugger, or the start of a program) is turned
down.  The debugger is told by a one-byte code.
-/

namespace TickMachine

inductive Refusal where
  | invalidSegment (id : UInt8)
  | outOfBounds (offset len capacity : Nat)
  | payloadTooLong (announced : Nat)
  | unknownRoutine (index : Nat)
  | argumentCount (routine expected provided : Nat)
  deriving DecidableEq, Repr

namespace Refusal

def code : Refusal → UInt8
  | invalidSegment _ => 1
  | outOfBounds .. => 2
  | payloadTooLong _ => 3
  | unknownRoutine _ => 4
  | argumentCount .. => 5

def message : Refusal → String
  | invalidSegment id => s!"invalid memory segment {id}"
  | outOfBounds offset len capacity =>
    s!"write of {len} byte(s) at offset {offset} exceeds segment of {capacity} byte(s)"
  | payloadTooLong n => s!"write payload longer than the announced {n} byte(s)"
  | unknownRoutine i => s!"unknown function {i}"
  | argumentCount r expected provided =>
    s!"function {r} takes {expected} argument(s), got {provided}"

end Refusal
end TickMachine
