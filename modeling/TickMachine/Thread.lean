import TickMachine.Image

/-!
# Threads

A thread is the execution state of a program: its registers, the operand stack and the stack of
saved frames.  The live operand stack is the first `sp` slots; the current activation begins at
slot `fp`; the first `depth` frames are saved callers.

* `Thread.enter`   start a routine, leaving the slots as they are;
* `Thread.pause`, `Thread.tick`   sleep for a number of frame ticks, and count them down.
-/

namespace TickMachine

def stackSize : Nat := 1024

/-- The capacity of the stack of saved frames. -/
def maxFrames : Nat := 64

inductive ThreadState where
  | terminated
  | executing
  | suspended
  deriving DecidableEq, Repr

/-- A saved caller: which routine, where it goes on, and where its activation begins. -/
structure Frame where
  routine : Nat
  pc : Nat
  fp : Nat
  deriving DecidableEq, Repr

structure Thread where
  state : ThreadState
  /-- The frame ticks left to sleep. -/
  paused : Nat
  routine : Option Nat
  pc : Nat
  sp : Nat
  fp : Nat
  /-- The number of saved frames. -/
  depth : Nat
  frames : Vector Frame maxFrames
  stack : Vector Value stackSize

namespace Thread

/-- A terminated thread with nothing to run. -/
def idle : Thread where
  state := .terminated
  paused := 0
  routine := none
  pc := 0
  sp := 0
  fp := 0
  depth := 0
  frames := Vector.replicate maxFrames ⟨0, 0, 0⟩
  stack := Vector.replicate stackSize 0

/-! ## slots -/

def slot (t : Thread) (i : Nat) : Value := t.stack[i]?.getD 0

def setSlot (t : Thread) (i : Nat) (v : Value) : Thread :=
  { t with stack := t.stack.setIfInBounds i v }

/-- The values of `n` slots from slot `i` on. -/
def slots (t : Thread) (i n : Nat) : List Value := (List.range n).map fun k => t.slot (i + k)

def setSlots (t : Thread) (i : Nat) : List Value → Thread
  | [] => t
  | v :: vs => (t.setSlot i v).setSlots (i + 1) vs

@[simp] theorem length_slots (t : Thread) (i n : Nat) : (t.slots i n).length = n := by
  simp [slots]

theorem slot_setSlot_self (t : Thread) (i : Nat) (v : Value) (h : i < stackSize) :
    (t.setSlot i v).slot i = v := by
  simp [slot, setSlot, h]

theorem slot_setSlot_of_ne (t : Thread) {i j : Nat} (v : Value) (h : i ≠ j) :
    (t.setSlot i v).slot j = t.slot j := by
  simp [slot, setSlot, h]

/-- The live operand stack, bottom first. -/
def live (t : Thread) : List Value := t.stack.toList.take t.sp

def top? (t : Thread) : Option Value := t.live.getLast?

/-- The value in the slot below the stack pointer. -/
def top (t : Thread) : Value := t.slot (t.sp - 1)

def push (t : Thread) (v : Value) : Thread := { t.setSlot t.sp v with sp := t.sp + 1 }

def drop (t : Thread) : Thread := { t with sp := t.sp - 1 }

def jump (t : Thread) (pc : Nat) : Thread := { t with pc := pc }

/-! ## saved frames -/

/-- The saved frames, outermost first. -/
def saved (t : Thread) : List Frame := t.frames.toList.take t.depth

def frame (t : Thread) (i : Nat) : Frame := t.frames[i]?.getD ⟨0, 0, 0⟩

def save (t : Thread) (f : Frame) : Thread :=
  { t with frames := t.frames.setIfInBounds t.depth f, depth := t.depth + 1 }

def restore (t : Thread) : Thread :=
  let f := t.frame (t.depth - 1)
  { t with depth := t.depth - 1, fp := f.fp, pc := f.pc, routine := some f.routine }

/-! ## starting, stopping, sleeping -/

/-- Begin to execute a routine of `img` with an empty stack of frames.  The stack is made as deep
as the routine's activation; the slots keep what they hold. -/
def enter (t : Thread) (img : Image) (index : Nat) : Except Refusal Thread :=
  match img.routine? index with
  | none => .error (.unknownRoutine index)
  | some r => .ok { t with
      state := .executing
      paused := 0
      routine := some index
      pc := r.entry.toNat
      sp := r.frameSize
      fp := 0
      depth := 0 }

/-- A thread at the main routine of an image. -/
def ofImage (img : Image) : Except Refusal Thread := idle.enter img img.main

/-- Terminate with an empty stack. -/
def reset (t : Thread) : Thread :=
  { t with state := .terminated, paused := 0, routine := none, pc := 0, sp := 0, fp := 0, depth := 0 }

/-- Terminate after a fault; the registers stay for inspection. -/
def stop (t : Thread) : Thread := { t with state := .terminated, paused := 0 }

/-- Sleep for `count` frame ticks.  A count that is not positive is ignored. -/
def pause (t : Thread) (count : Value) : Thread :=
  if 0 < count then { t with state := .suspended, paused := count.toNatClampNeg } else t

/-- One frame tick: count a pause down, and wake up at its end. -/
def tick (t : Thread) : Thread :=
  if t.paused = 0 then t
  else if t.paused = 1 ∧ t.state = .suspended then { t with paused := 0, state := .executing }
  else { t with paused := t.paused - 1 }

def isExecuting (t : Thread) : Bool := t.state = .executing

def isTerminated (t : Thread) : Bool := t.state = .terminated

end Thread
end TickMachine
