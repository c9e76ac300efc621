import TickMachine.Engine
import TickMachine.Event

/-!
# Runs

A run steps the engine until the thread no longer executes.  A program may run for ever, so a run
is given the number of steps it may take and is undecided when they are used up.  The events of
a run are read off its steps.

* `Engine.notice`, `Notice.journal`   the events of one step, from before and after it;
* `Engine.run`   until the thread sleeps, terminates or faults;
* `Engine.walk`   a given number of steps at most, with a view of the engine after each.
-/

namespace TickMachine

/-- The name of an instruction in the trace. -/
def Instruction.name : Instruction → String
  | .builtin b => b.name
  | i => match i.opcode? with
    | some op => op.mnemonic
    | none => ""

def Request.event? : Request → Option Event
  | .drawLine color x0 y0 x1 y1 => some (.drewLine color x0 y0 x1 y1)
  | .fillRect color x y w h => some (.filledRect color x y w h)
  | .fillTriangle color x0 y0 x1 y1 x2 y2 => some (.filledTriangle color x0 y0 x1 y1 x2 y2)
  | _ => none

def Action.event? : Action → Option Event
  | .ask r => r.event?
  | _ => none

/-- What is known before a step of the events it will bring: none, the execution of an instruction
that is cut off, or that of an instruction, with the drawing it makes if it succeeds. -/
inductive Notice where
  | silent
  | cut (exec : Event)
  | instruction (exec : Event) (i : Instruction) (drawing : Option Event)

namespace Engine

variable {σ : Type}

/-- The event that the thread of `e` executes an instruction. -/
def execEvent (e : Engine σ) (name : String) : Event :=
  .exec e.thread.pc e.thread.sp e.thread.fp name

/-- The event of a drawing that an instruction would make on `e`. -/
def drawing? (e : Engine σ) : Instruction → Option Event
  | .builtin b =>
    match b.action (Exec.arguments e.thread b (e.thread.sp - b.arity)) with
    | .ok action => action.event?
    | .error _ => none
  | _ => none

/-- What is known before a step of the events it will bring. -/
def notice (e : Engine σ) : Notice :=
  if e.thread.state = .executing then
    match e.decoded with
    | .outside | .unknown _ => .silent
    | .truncated op => .cut (e.execEvent op.mnemonic)
    | .instruction i => .instruction (e.execEvent i.name) i (e.drawing? i)
  else
    .silent

end Engine

namespace Notice

variable {σ : Type}

/-- The events of a step that was noticed, with its result. -/
def journal (n : Notice) (stepped : Except Fault Outcome × Engine σ) : List Event :=
  match n, stepped with
  | .silent, _ => []
  | .cut exec, _ => [exec]
  | .instruction exec _ _, (.error _, _) => [exec]
  | .instruction exec i drawing, (.ok outcome, after) =>
    exec :: match i, outcome with
      | .call index, _ => [.called index.toNat after.thread.depth]
      | .ret count, .terminated _ => [.returned count.toNat after.thread.sp]
      | _, _ => drawing.toList

end Notice

structure Run (σ : Type) where
  result : Except Fault Outcome
  engine : Engine σ
  log : Array Event

namespace Engine

variable {σ : Type}

/-- Step until a step does not leave the thread running, at most `fuel` times; the events are
added to `log`. -/
def run (p : Peripherals σ) (fuel : Nat) (e : Engine σ) (log : Array Event) : Option (Run σ) :=
  match fuel with
  | 0 => none
  | fuel + 1 =>
    let notice := e.notice
    let stepped := e.step p
    let log := log ++ notice.journal stepped
    match stepped with
    | (.ok .running, e') => e'.run p fuel log
    | (result, e') => some ⟨result, e', log⟩

end Engine

/-- The engine after some steps, with a view of it after each step and the last result. -/
structure Walk (σ α : Type) where
  views : Array α
  last : Option (Except Fault Outcome)
  engine : Engine σ
  log : Array Event

namespace Engine

variable {σ α : Type}

/-- Step until a step does not leave the thread running, at most `n` times, going on from `w`. -/
def walkOn (p : Peripherals σ) (view : Engine σ → α) : Nat → Walk σ α → Walk σ α
  | 0, w => w
  | n + 1, w =>
    let ⟨views, _, e, log⟩ := w
    let notice := e.notice
    let stepped := e.step p
    let log := log ++ notice.journal stepped
    let w := ⟨views.push (view stepped.2), some stepped.1, stepped.2, log⟩
    match stepped.1 with
    | .ok .running => walkOn p view n w
    | _ => w

def walk (p : Peripherals σ) (view : Engine σ → α) (n : Nat) (e : Engine σ) : Walk σ α :=
  walkOn p view n ⟨#[], none, e, #[]⟩

end Engine
end TickMachine
