import TickMachine.Value

/-!
# Peripherals

What a machine asks of the world outside: drawing, the keyboard, random numbers and fixed-point
arithmetic.  Every request has exactly one answer, a value.  A `Peripherals σ` answers requests
from a state of type `σ`, and is told when a frame tick starts and ends.
-/

namespace TickMachine

inductive Request where
  | drawLine (color x0 y0 x1 y1 : Value)
  | fillRect (color x y w h : Value)
  | fillTriangle (color x0 y0 x1 y1 x2 y2 : Value)
  | keyPressed (key : Value)
  | keyReleased (key : Value)
  | keyHeld (key : Value)
  | random
  | setRandomSeed (seed : Value)
  | sin (angle : Value)
  | cos (angle : Value)
  | mul (a b : Value)
  deriving DecidableEq, Repr

structure Peripherals (σ : Type) where
  answer : Request → σ → Value × σ
  frameStart : σ → σ := id
  frameEnd : σ → σ := id

end TickMachine
