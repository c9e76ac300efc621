import TickMachine.Thread
import TickMachine.Builtin.Action

/-!
# The engine

The engine executes the instructions of an image on a thread, one at a time, and asks the
peripherals for what lies outside.  An instruction that cannot be carried out is a fault.

* `Exec`   the actions instructions are made of: they change the engine and may fail;
* `Exec.execute`   one instruction;
* `Engine.step`   fetch, decode and execute.
-/

namespace TickMachine

/-- A program in memory with the thread that runs it. -/
structure Program where
  image : Image
  thread : Thread

/-- A program with the state of its peripherals. -/
structure Engine (σ : Type) extends Program where
  devices : σ

inductive Outcome where
  | idle
  /-- The instruction is done and the thread goes on. -/
  | running
  | suspended
  | terminated (results : List Value)
  deriving DecidableEq, Repr

abbrev Exec (σ : Type) := ExceptT Cause (StateM (Engine σ))

namespace Exec

variable {σ : Type}

/-! ## reading and changing the engine -/

@[inline] def image : Exec σ Image := do
  return (← get).image

@[inline] def thread : Exec σ Thread := do
  return (← get).thread

@[inline] def modifyThread (f : Thread → Thread) : Exec σ Unit :=
  modify fun e => { e with thread := f e.thread }

@[inline] def modifyImage (f : Image → Image) : Exec σ Unit :=
  modify fun e => { e with image := f e.image }

@[inline] def proceed (pc : Nat) : Exec σ Outcome := do
  modifyThread (·.jump pc)
  return .running

/-! ## checks -/

/-- Check that `count` values lie above the frame pointer. -/
@[inline] def ensure (count : Nat) : Exec σ Unit := do
  let t ← thread
  if t.sp < t.fp + count then
    throw .stackUnderflow

@[inline] def push (v : Value) : Exec σ Unit := do
  let t ← thread
  if t.sp < stackSize then
    modifyThread (·.push v)
  else
    throw (.exhausted .operandStack (t.sp + 1) stackSize)

def routine (index : Nat) : Exec σ Routine := do
  match (← image).routine? index with
  | some r => return r
  | none => throw (.unknownRoutine index)

/-- The index of the routine being executed. -/
def currentIndex : Exec σ Nat := do
  match (← thread).routine with
  | some index => return index
  | none => throw .noActiveRoutine

def current : Exec σ Routine := do
  routine (← currentIndex)

/-- The stack slot of a local of the current activation. -/
def localSlot (index : Nat) : Exec σ Nat := do
  let r ← current
  let t ← thread
  if r.frameSize ≤ index ∨ stackSize ≤ t.fp + index then
    throw (.localOutOfRange index r.frameSize)
  return t.fp + index

/-- The address `displacement` bytes from `next`. -/
def jumpTarget (next : Nat) (displacement : Value) : Exec σ Nat :=
  let target := (next : Int) + displacement.toInt
  if target < 0 then throw (.jumpOutOfRange target) else return target.toNat

/-! ## globals -/

def getGlobal (index : Nat) : Exec σ Value := do
  let img ← image
  match img.global? index with
  | some v => return v
  | none => throw (.globalOutOfRange index img.globalCount)

def setGlobal (index : Nat) (v : Value) : Exec σ Unit := do
  let img ← image
  match img.setGlobal? index v with
  | some img' => modifyImage fun _ => img'
  | none => throw (.globalOutOfRange index img.globalCount)

/-! ## calls and returns -/

/-- Call a routine, to return to `next`.  Its arguments are the values on top of the stack; they
must lie above the caller's own slots. -/
def call (index next : Nat) : Exec σ Outcome := do
  let callee ← routine index
  let callerIndex ← currentIndex
  let caller ← routine callerIndex
  let t ← thread
  let argc := callee.argc.toNat
  let provided := t.sp - (t.fp + caller.frameSize)
  if provided < argc then
    throw (.arityMismatch index argc provided)
  if maxFrames ≤ t.depth then
    throw (.exhausted .callFrames (t.depth + 1) maxFrames)
  let sp := t.sp + callee.locals.toNat
  if stackSize < sp then
    throw (.exhausted .operandStack sp stackSize)
  modifyThread fun t => { t.save ⟨callerIndex, next, t.fp⟩ with
    routine := some index
    pc := callee.entry.toNat
    fp := t.sp - argc
    sp := sp }
  return .running

/-- Return `count` values, which take the place of the activation's own slots.  Without a caller
to return to the thread terminates. -/
def ret (count : Nat) : Exec σ Outcome := do
  let r ← current
  ensure count
  let t ← thread
  let values := t.sp - count
  if values < t.fp + r.frameSize then
    throw .stackUnderflow
  let base := values - r.frameSize
  modifyThread fun t => { t.setSlots base (t.slots values count) with sp := base + count }
  if t.depth = 0 then
    let t ← thread
    modifyThread fun t => { t with state := .terminated }
    return .terminated (t.slots base count)
  else
    modifyThread (·.restore)
    return .running

/-! ## built-ins -/

/-- Carry out the action of a built-in and give its result. -/
def perform (p : Peripherals σ) : Action → Exec σ Value
  | .yield v => return v
  | .ask r => do
    let e ← get
    let (v, devices) := p.answer r e.devices
    set { e with devices := devices }
    return v
  | .sleep count => do
    modifyThread (·.pause count)
    return 0

/-- The result of a built-in on its arguments. -/
def invoke (p : Peripherals σ) (b : Builtin) (args : Vector Value b.arity) : Exec σ Value :=
  match b.action args with
  | .ok action => perform p action
  | .error cause => throw cause

/-- The arguments of a built-in: the slots from `base` on. -/
def arguments (t : Thread) (b : Builtin) (base : Nat) : Vector Value b.arity :=
  Vector.ofFn fun i => t.slot (base + i)

/-- Replace the arguments of a built-in by its result. -/
def builtin (p : Peripherals σ) (b : Builtin) (next : Nat) : Exec σ Outcome := do
  ensure b.arity
  let t ← thread
  let base := t.sp - b.arity
  if stackSize < base + 1 then
    throw (.exhausted .operandStack (base + 1) stackSize)
  let result ← invoke p b (arguments t b base)
  modifyThread fun t => { t.setSlot base result with sp := base + 1, pc := next }
  let t ← thread
  return if t.state = .suspended then .suspended else .running

/-! ## instructions -/

/-- Execute an instruction that ends at `next`. -/
def execute (p : Peripherals σ) (i : Instruction) (next : Nat) : Exec σ Outcome :=
  match i with
  | .pushConst v => do
    push v
    proceed next
  | .zero => do
    push 0
    proceed next
  | .drop => do
    ensure 1
    modifyThread (·.drop)
    proceed next
  | .getGlobal index => do
    push (← getGlobal index.toNat)
    proceed next
  | .setGlobal index => do
    ensure 1
    let t ← thread
    setGlobal index.toNat t.top
    modifyThread (·.drop)
    proceed next
  | .getLocal index => do
    let slot ← localSlot index.toNat
    let t ← thread
    push (t.slot slot)
    proceed next
  | .setLocal index => do
    let slot ← localSlot index.toNat
    ensure 1
    modifyThread (·.drop)
    modifyThread fun t => t.setSlot slot (t.slot t.sp)
    proceed next
  | .call index => call index.toNat next
  | .ret count => ret count.toNat
  | .jmp displacement => do
    proceed (← jumpTarget next displacement)
  | .jz displacement => do
    ensure 1
    let target ← jumpTarget next displacement
    modifyThread (·.drop)
    let t ← thread
    proceed (if t.slot t.sp = 0 then target else next)
  | .builtin b => builtin p b next

end Exec

namespace Engine

variable {σ : Type}

def decoded (e : Engine σ) : Decoded := decode e.image.fetch e.thread.pc

/-- Execute one instruction.  A fault names the program counter and the stack depth before it. -/
def step (p : Peripherals σ) (e : Engine σ) : Except Fault Outcome × Engine σ :=
  if e.thread.state = .executing then
    let pc := e.thread.pc
    let sp := e.thread.sp
    let fault (opcode : Option UInt8) (cause : Cause) : Fault := ⟨cause, pc, opcode, sp⟩
    match e.decoded with
    | .outside => (.error (fault none .pcOverflow), e)
    | .unknown byte => (.error (fault (some byte) (.unknownOpcode byte)), e)
    | .truncated op => (.error (fault (some op.byte) .pcOverflow), e)
    | .instruction i =>
      let (result, e') := (Exec.execute p i (pc + i.size)).run e
      (result.mapError (fault (some i.byte)), e')
  else
    (.ok .idle, e)

end Engine
end TickMachine
