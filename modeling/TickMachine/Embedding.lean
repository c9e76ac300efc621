import TickMachine.Listing
import TickMachine.Machine
import TickMachine.Peripherals.Headless

/-!
# Embedded machines

A headless machine for use by another program: it is given an image, or driven through the debug
protocol, and asked for its state in plain terms.
-/

namespace TickMachine

structure Embedding where
  machine : Machine Headless

/-- Why an embedded machine does not do what it is asked. -/
inductive EmbeddingError where
  | invalidImage (why : LoadError)
  | cannotStart (why : Refusal)
  | faulted (fault : Fault)
  | notDebugging
  | unanswered (why : LinkError)
  | noKey (index : Nat)
  | noGlobal (index : Nat)
  deriving DecidableEq, Repr

def EmbeddingError.message : EmbeddingError → String
  | .invalidImage why => s!"Invalid module: {why.message}"
  | .cannotStart why => s!"Invalid module: {why.message}"
  | .faulted fault => fault.message
  | .notDebugging => "Machine is not in debug mode"
  | .unanswered why => why.message
  | .noKey index => s!"No key {index}"
  | .noGlobal index => s!"No global {index}"

def ThreadState.label : ThreadState → String
  | .terminated => "terminated"
  | .executing => "executing"
  | .suspended => "suspended"

namespace Embedding

/-- A machine at the main routine of an image file. -/
def load (bytes : List UInt8) : Except EmbeddingError Embedding := do
  let img ← (Image.ofBytes bytes).mapError .invalidImage
  let m ← (Machine.load img ({} : Headless)).mapError .cannotStart
  return ⟨m⟩

/-- A machine without a program, to be driven by `feed`. -/
def debug : Embedding := ⟨.debug {} {}⟩

/-- One frame tick: the results, if the program finished in it. -/
def tick (fuel : Nat) (m : Embedding) : Option (Except EmbeddingError (Option (List Value)) × Embedding) :=
  (m.machine.tick Headless.peripherals fuel).map fun ticked =>
    let result := match ticked.result with
      | .ok (.terminated results) => .ok (some results)
      | .ok _ => .ok none
      | .error fault => .error (.faulted fault)
    (result, ⟨ticked.machine⟩)

/-- Send bytes to the debug protocol, and take all that the machine has sent. -/
def feed (m : Embedding) (bytes : List UInt8) : Except EmbeddingError (List UInt8) × Embedding :=
  if m.machine.isDebugging then
    let serviced := (m.machine.mapLink (·.push bytes)).service
    match serviced.result with
    | .error why => (.error (.unanswered why), ⟨serviced.machine⟩)
    | .ok _ =>
      let sent := match serviced.machine.debugger with
        | some d => d.link.take.1
        | none => []
      (.ok sent, ⟨serviced.machine.mapLink (·.take.2)⟩)
  else
    (.error .notDebugging, m)

def setKey (m : Embedding) (index : Nat) (down : Bool) : Except EmbeddingError Embedding :=
  if index < keyCount then .ok ⟨m.machine.mapDevices (·.setKey index down)⟩
  else .error (.noKey index)

def global (m : Embedding) (index : Nat) : Except EmbeddingError Value :=
  match m.machine.engine.image.global? index with
  | some v => .ok v
  | none => .error (.noGlobal index)

def listing (m : Embedding) : List String :=
  (TickMachine.listing m.machine.engine.image.code.toArray).map renderLine

def thread (m : Embedding) : Thread := m.machine.engine.thread

def describe (m : Embedding) : String :=
  let t := m.thread
  s!"<Machine state='{t.state.label}' pc={t.pc} sp={t.sp} ticks={m.machine.ticks}>"

end Embedding
end TickMachine
