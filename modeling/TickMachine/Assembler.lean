import TickMachine.Image

/-!
# The assembler

An assembler builds an image routine by routine.  It goes on after an operand that does not fit
its field: the field is left zero, and the first such error is reported at the end.

Jumps whose target is not known yet are emitted open.  They are numbered in the order of their
emission, and may be patched any number of times.

* `Directive`   what an assembler can be told;
* `Assembler.apply`   obey a directive;
* `Assembler.finish`   the image, or the first error.
-/

namespace TickMachine

inductive AssemblyError where
  | routineTooFar (offset : Nat)
  | globalTooMany (index : Nat)
  | routineIdTooLarge (id : Nat)
  /-- The jump at address `pc` cannot reach its target. -/
  | jumpTooFar (pc : Nat) (target : UInt64)
  | tooManyRoutines (count : Nat)
  deriving DecidableEq, Repr

def AssemblyError.message : AssemblyError → String
  | .routineTooFar offset =>
    s!"Function starts at offset {offset} beyond the 16-bit address space"
  | .globalTooMany index => s!"Global {index} does not fit a u8 operand"
  | .routineIdTooLarge id => s!"Function {id} does not fit a u8 operand"
  | .jumpTooFar pc target => s!"Jump at {pc} to {target} is out of 16-bit range"
  | .tooManyRoutines count => s!"{count} functions exceed the 256-entry table"

structure UnknownBuiltin where
  name : String
  deriving DecidableEq, Repr

def UnknownBuiltin.message (e : UnknownBuiltin) : String := s!"Unknown built-in: {e.name}"

inductive Directive where
  | routine (argc locals : UInt8)
  /-- Declare a global with its initial value. -/
  | global (v : Value)
  | pushConst (v : Value)
  | zero
  | drop
  | getGlobal (index : UInt8)
  | setGlobal (index : UInt8)
  | getLocal (index : UInt8)
  | setLocal (index : UInt8)
  | call (routine : Nat)
  | ret (count : UInt8)
  | builtin (name : String)
  | jmpTo (target : UInt64)
  | jzTo (target : UInt64)
  | jmp
  | jz
  | patch (jump : Nat) (target : UInt64)
  | patchHere (jump : Nat)
  deriving DecidableEq, Repr

structure Assembler where
  code : Array UInt8 := #[]
  routines : Array Routine := #[]
  globals : Array Value := #[]
  /-- Where the operands of the open jumps stand. -/
  jumps : Array Nat := #[]
  /-- The first operand that did not fit. -/
  error : Option AssemblyError := none

namespace Assembler

def here (a : Assembler) : Nat := a.code.size

/-- Report an error; the first one stays. -/
def fail (a : Assembler) (e : AssemblyError) : Assembler := { a with error := a.error.or (some e) }

def emit (a : Assembler) (i : Instruction) : Assembler := { a with code := a.code ++ i.encode }

def routine (a : Assembler) (argc locals : UInt8) : Assembler :=
  if a.here < 65536 then
    { a with routines := a.routines.push ⟨argc, locals, UInt16.ofNat a.here⟩ }
  else
    { a with routines := a.routines.push ⟨argc, locals, 0⟩ }.fail (.routineTooFar a.here)

def global (a : Assembler) (v : Value) : Assembler :=
  let index := a.globals.size
  let a := { a with globals := a.globals.push v }
  if index < 256 then a else a.fail (.globalTooMany index)

def call (a : Assembler) (id : Nat) : Assembler :=
  if id < 256 then a.emit (.call (UInt8.ofNat id))
  else (a.fail (.routineIdTooLarge id)).emit (.call 0)

/-- Write the displacement of a jump into its operand. -/
def setDisplacement (a : Assembler) (site : Nat) (d : Value) : Assembler :=
  { a with
    code := (a.code.setIfInBounds site (Value.lo d)).setIfInBounds (site + 1) (Value.hi d) }

/-- Let the jump with its operand at `site` lead to `target`.  Displacements count from the byte
after the operand; the target is read as a signed number of 64 bits. -/
def aim (a : Assembler) (site : Nat) (target : UInt64) : Assembler :=
  let d := target.toInt64.toInt - ((site : Int) + 2)
  if -32768 ≤ d ∧ d < 32768 then a.setDisplacement site (Int16.ofInt d)
  else (a.fail (.jumpTooFar (site - 1) target)).setDisplacement site 0

def jumpTo (a : Assembler) (i : Instruction) (target : UInt64) : Assembler :=
  let a := a.emit i
  a.aim (a.here - 2) target

def openJump (a : Assembler) (i : Instruction) : Assembler :=
  let a := a.emit i
  { a with jumps := a.jumps.push (a.here - 2) }

def patch (a : Assembler) (jump : Nat) (target : UInt64) : Assembler :=
  match a.jumps[jump]? with
  | some site => a.aim site target
  | none => a

/-- What a directive gives back: the number of a routine, of a global or of an open jump. -/
abbrev Answer := Except UnknownBuiltin (Option Nat)

/-- Obey a directive.  A built-in that does not exist emits nothing. -/
def apply (a : Assembler) : Directive → Assembler × Answer
  | .routine argc locals => (a.routine argc locals, .ok (some a.routines.size))
  | .global v =>
    let index := a.globals.size
    (a.global v, .ok (some (if index < 256 then index else 0)))
  | .pushConst v => (a.emit (.pushConst v), .ok none)
  | .zero => (a.emit .zero, .ok none)
  | .drop => (a.emit .drop, .ok none)
  | .getGlobal i => (a.emit (.getGlobal i), .ok none)
  | .setGlobal i => (a.emit (.setGlobal i), .ok none)
  | .getLocal i => (a.emit (.getLocal i), .ok none)
  | .setLocal i => (a.emit (.setLocal i), .ok none)
  | .call id => (a.call id, .ok none)
  | .ret n => (a.emit (.ret n), .ok none)
  | .builtin name =>
    match Builtin.ofName? name with
    | some b => (a.emit (.builtin b), .ok none)
    | none => (a, .error ⟨name⟩)
  | .jmpTo target => (a.jumpTo (.jmp 0) target, .ok none)
  | .jzTo target => (a.jumpTo (.jz 0) target, .ok none)
  | .jmp => (a.openJump (.jmp 0), .ok (some a.jumps.size))
  | .jz => (a.openJump (.jz 0), .ok (some a.jumps.size))
  | .patch jump target => (a.patch jump target, .ok none)
  | .patchHere jump => (a.patch jump (UInt64.ofNat a.here), .ok none)

def applyAll (a : Assembler) (ds : List Directive) : Assembler :=
  ds.foldl (fun a d => (a.apply d).1) a

theorem applyAll_append (a : Assembler) (xs ys : List Directive) :
    a.applyAll (xs ++ ys) = (a.applyAll xs).applyAll ys := List.foldl_append

/-- The image of what was assembled, or the first error. -/
def finish (a : Assembler) (main : Nat) : Except AssemblyError Image :=
  match a.error with
  | some e => .error e
  | none =>
    if 256 < a.routines.size then .error (.tooManyRoutines a.routines.size)
    else .ok (.ofParts a.routines.toList a.globals.toList a.code.toList main)

end Assembler
end TickMachine
