import TickMachine.Value
import TickMachine.Refusal
import TickMachine.Wire.Command

/-!
# Replies

What a debugger is told.  An acknowledgement is short: the letter of the command and a
delimiter.  All other replies are frames.
-/

namespace TickMachine

inductive Reply where
  | hello
  | ack (op : UInt8)
  | refused (op : UInt8) (why : Refusal)
  /-- The program finished with these results. -/
  | completed (results : List Value)
  deriving DecidableEq, Repr

namespace Reply

def errorOp : UInt8 := 0x65
def completedOp : UInt8 := 0x63

def body : Reply → List UInt8
  | hello => [Command.helloOp, 0x53, 0x54, 0x41, 0x4B]
  | ack op => [op]
  | refused op why => [errorOp, op, why.code]
  | completed results =>
    completedOp :: UInt8.ofNat results.length :: results.flatMap Value.bytes

def bytes : Reply → List UInt8
  | ack op => [op, delimiter]
  | r => frame r.body

end Reply
end TickMachine
