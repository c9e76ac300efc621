import TickMachine.Peripherals
import TickMachine.Fixed

/-!
# Headless peripherals

Peripherals without a display: drawings are counted, keys are set from outside, and random
numbers come from a linear congruential generator of 32 bits.
-/

namespace TickMachine

/-- The number of keys: up, down, left, right, control. -/
def keyCount : Nat := 5

structure Headless where
  held : Vector Bool keyCount := Vector.replicate keyCount false
  /-- The keys held down at the end of the last frame. -/
  previous : Vector Bool keyCount := Vector.replicate keyCount false
  seed : UInt32 := 1
  drawings : Nat := 0
  frames : Nat := 0

namespace Headless

/-- Press or release a key.  A key that does not exist is ignored. -/
def setKey (h : Headless) (key : Nat) (down : Bool) : Headless :=
  { h with held := h.held.setIfInBounds key down }

/-- Whether a key is down in `keys`; one that does not exist never is. -/
def isDown (keys : Vector Bool keyCount) (key : Value) : Bool :=
  if 0 ≤ key then keys[key.toNatClampNeg]?.getD false else false

/-- The next state of the random generator. -/
def nextSeed (s : UInt32) : UInt32 := s * 1103515245 + 12345

/-- The random number of a state of the generator: its bits 16 to 30. -/
def randomValue (s : UInt32) : Value := ((s >>> 16) &&& 0x7fff).toUInt16.toInt16

def draw (h : Headless) : Value × Headless := (0, { h with drawings := h.drawings + 1 })

def answer (r : Request) (h : Headless) : Value × Headless :=
  match r with
  | .drawLine .. | .fillRect .. | .fillTriangle .. => h.draw
  | .keyPressed k => (Value.ofBool (isDown h.held k && !isDown h.previous k), h)
  | .keyReleased k => (Value.ofBool (!isDown h.held k && isDown h.previous k), h)
  | .keyHeld k => (Value.ofBool (isDown h.held k), h)
  | .random => (randomValue (nextSeed h.seed), { h with seed := nextSeed h.seed })
  | .setRandomSeed s => (0, { h with seed := s.toUInt16.toUInt32 })
  | .sin a => (Fixed.sin a, h)
  | .cos a => (Fixed.cos a, h)
  | .mul a b => (Fixed.mul a b, h)

/-- At the end of a frame the keys held become the previous ones. -/
def frameEnd (h : Headless) : Headless := { h with previous := h.held, frames := h.frames + 1 }

def peripherals : Peripherals Headless where
  answer := answer
  frameEnd := frameEnd

end Headless
end TickMachine
