import TickMachine.Builtin
import TickMachine.Fault
import TickMachine.Peripherals

/-!
# What the built-ins do

On its arguments a built-in yields a value, asks the peripherals for one, or puts the thread to
sleep.  Arithmetic is done in 32 bits and narrowed to a value.
-/

namespace TickMachine

/-- What a built-in does on given arguments. -/
inductive Action where
  | yield (v : Value)
  | ask (r : Request)
  | sleep (count : Value)
  deriving DecidableEq, Repr

/-- The amount of a shift: the low five bits of an argument. -/
def shiftAmount (v : Value) : Int32 := Value.wide v &&& 31

open Value in
/-- The action of a built-in on its arguments, the leftmost first.  Only division fails. -/
def Builtin.action (b : Builtin) (args : Vector Value b.arity) : Except Cause Action :=
  match b, args with
  | .add, args => .ok (.yield (narrow (wide args[0] + wide args[1])))
  | .sub, args => .ok (.yield (narrow (wide args[0] - wide args[1])))
  | .mul, args => .ok (.yield (narrow (wide args[0] * wide args[1])))
  | .div, args =>
    if args[1] = 0 then .error .divisionByZero
    else .ok (.yield (narrow (wide args[0] / wide args[1])))
  | .mod, args =>
    if args[1] = 0 then .error .divisionByZero
    else .ok (.yield (narrow (wide args[0] % wide args[1])))
  | .shl, args => .ok (.yield (narrow (wide args[0] <<< shiftAmount args[1])))
  | .shr, args => .ok (.yield (narrow (wide args[0] >>> shiftAmount args[1])))
  | .mulFixed, args => .ok (.ask (.mul args[0] args[1]))
  | .sinFixed, args => .ok (.ask (.sin args[0]))
  | .cosFixed, args => .ok (.ask (.cos args[0]))
  | .lt, args => .ok (.yield (ofBool (args[0] < args[1])))
  | .le, args => .ok (.yield (ofBool (args[0] ≤ args[1])))
  | .eq, args => .ok (.yield (ofBool (args[0] = args[1])))
  | .ne, args => .ok (.yield (ofBool (args[0] ≠ args[1])))
  | .gt, args => .ok (.yield (ofBool (args[1] < args[0])))
  | .ge, args => .ok (.yield (ofBool (args[1] ≤ args[0])))
  | .not, args => .ok (.yield (ofBool (!truthy args[0])))
  | .and, args => .ok (.yield (ofBool (truthy args[0] && truthy args[1])))
  | .or, args => .ok (.yield (ofBool (truthy args[0] || truthy args[1])))
  | .drawLine, args => .ok (.ask (.drawLine args[0] args[1] args[2] args[3] args[4]))
  | .fillRect, args => .ok (.ask (.fillRect args[0] args[1] args[2] args[3] args[4]))
  | .fillTriangle, args =>
    .ok (.ask (.fillTriangle args[0] args[1] args[2] args[3] args[4] args[5] args[6]))
  | .pauseFrames, args => .ok (.sleep args[0])
  | .keyPressed, args => .ok (.ask (.keyPressed args[0]))
  | .keyReleased, args => .ok (.ask (.keyReleased args[0]))
  | .keyHeld, args => .ok (.ask (.keyHeld args[0]))
  | .random, _ => .ok (.ask .random)
  | .setRandomSeed, args => .ok (.ask (.setRandomSeed args[0]))

end TickMachine
