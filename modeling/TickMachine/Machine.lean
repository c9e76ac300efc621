import TickMachine.Engine.Run
import TickMachine.Session

/-!
# Machines

A machine runs a program tick by tick and, in debug mode, serves a debugger between the ticks:
the engine and the debugger strictly take turns.

* `Machine.load`, `Machine.debug`   a machine for a program, or for a debugger;
* `Machine.tick`   one frame tick;
* `Machine.service`   hear the debugger out.
-/

namespace TickMachine

/-- The debugger's end: a session over a link. -/
structure Debugger where
  session : Session := {}
  link : Link := {}

structure Machine (σ : Type) where
  engine : Engine σ
  debugger : Option Debugger := none
  /-- The results of the last program that finished. -/
  results : Option (List Value) := none
  ticks : Nat := 0

structure Ticked (σ : Type) where
  machine : Machine σ
  result : Except Fault Outcome
  events : Array Event

structure Serviced (σ : Type) where
  machine : Machine σ
  /-- The number of bytes read, unless an answer could not be sent. -/
  result : Except LinkError Nat
  events : Array Event

namespace Machine

variable {σ : Type}

/-- A machine that runs an image from its main routine. -/
def load (img : Image) (devices : σ) : Except Refusal (Machine σ) := do
  let thread ← Thread.ofImage img
  return { engine := { image := img, thread := thread, devices := devices } }

/-- A machine without a program that waits for a debugger. -/
def debug (devices : σ) (link : Link) : Machine σ where
  engine := { image := .blank, thread := .idle, devices := devices }
  debugger := some { link := link }

def isDebugging (m : Machine σ) : Bool := m.debugger.isSome

/-- Whether there is nothing left to do: never in debug mode, else once the thread terminated. -/
def isFinished (m : Machine σ) : Bool := !m.isDebugging && m.engine.thread.isTerminated

def mapDevices (f : σ → σ) (m : Machine σ) : Machine σ :=
  { m with engine := { m.engine with devices := f m.engine.devices } }

def mapThread (f : Thread → Thread) (m : Machine σ) : Machine σ :=
  { m with engine := { m.engine with thread := f m.engine.thread } }

/-- Change the link to the debugger, if there is one. -/
def mapLink (f : Link → Link) (m : Machine σ) : Machine σ :=
  { m with debugger := m.debugger.map fun d => { d with link := f d.link } }

def service (m : Machine σ) : Serviced σ :=
  match m.debugger with
  | none => ⟨m, .ok 0, #[]⟩
  | some d =>
    let polled := d.session.poll m.engine.toProgram d.link
    let m := { m with
      engine := { m.engine with toProgram := polled.program }
      debugger := some { session := polled.session, link := polled.link } }
    ⟨m, polled.result, polled.events⟩

/-- Keep the results of a finished program, and tell the debugger. -/
def finish (m : Machine σ) (results : List Value) : Machine σ × List Event :=
  let m := { m with results := some results }
  let finished := Event.finished m.ticks results
  match m.debugger with
  | none => (m, [finished])
  | some d =>
    match Session.report d.link results with
    | (.ok link, events) =>
      ({ m with debugger := some { d with link := link } }, finished :: events)
    | (.error why, events) => (m, finished :: (events ++ [.reportFailed why]))

/-- What follows a run: results are kept, and a fault stops the thread. -/
def conclude (m : Machine σ) : Except Fault Outcome → Machine σ × List Event
  | .ok (.terminated results) => m.finish results
  | .ok _ => (m, [])
  | .error fault => (m.mapThread (·.stop), [.stopped m.ticks fault])

/-- The start of a frame tick: the peripherals are told, and a pause counts down. -/
def beginTick (p : Peripherals σ) (m : Machine σ) : Machine σ :=
  ({ m with ticks := m.ticks + 1 }.mapDevices p.frameStart).mapThread (·.tick)

/-- The end of a frame tick whose run is over. -/
def endTick (p : Peripherals σ) (m : Machine σ) (run : Run σ) : Ticked σ :=
  let m := { m with engine := run.engine }.mapDevices p.frameEnd
  let (m, events) := m.conclude run.result
  let serviced := m.service
  let failed := match serviced.result with
    | .ok _ => []
    | .error why => [Event.replyFailed why]
  ⟨serviced.machine, run.result, run.log ++ events ++ serviced.events ++ failed⟩

/-- One frame tick: peripherals, pause, engine, peripherals again, then the debugger.  The engine
may take at most `fuel` steps; with fewer than it needs the tick is undecided. -/
def tick (p : Peripherals σ) (fuel : Nat) (m : Machine σ) : Option (Ticked σ) :=
  let m := m.beginTick p
  (m.engine.run p fuel #[]).map (m.endTick p)

end Machine
end TickMachine
