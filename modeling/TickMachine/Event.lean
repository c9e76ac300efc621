import TickMachine.Fault
import TickMachine.Image.File
import TickMachine.Link
import TickMachine.Peripherals
import TickMachine.Text.Visible

/-!
# Events

What a machine reports about itself.  An event is a fact; `Event.entry` gives its severity, its
origin and its wording, and the two renderings of an entry differ in whether the origin is
named and texts are quoted.
-/

namespace TickMachine

inductive Level where
  | error
  | warn
  | info
  | debug
  | trace
  deriving DecidableEq, Repr

namespace Level

def label : Level → String
  | error => "ERROR"
  | warn => "WARN"
  | info => "INFO"
  | debug => "DEBUG"
  | trace => "TRACE"

/-- Zero is the most severe. -/
def rank : Level → Nat
  | error => 0
  | warn => 1
  | info => 2
  | debug => 3
  | trace => 4

/-- Whether `l` is reported when everything down to `limit` is. -/
def within (l limit : Level) : Bool := l.rank ≤ limit.rank

end Level

/-- The part of the machine an event comes from. -/
inductive Origin where
  | command
  | host
  | engine
  | peripherals
  | session
  | link
  deriving DecidableEq, Repr

def Origin.label : Origin → String
  | .command => "stak"
  | .host => "stak::host"
  | .engine => "stak::executor"
  | .peripherals => "stak::peripherals"
  | .session => "stak::protocol"
  | .link => "stak::transport"

/-- A named detail of an event: a text that may be quoted, or one that is shown as it is. -/
inductive Detail where
  | text (s : String)
  | shown (s : String)
  deriving DecidableEq, Repr

structure Entry where
  level : Level
  origin : Origin
  message : String
  details : List (String × Detail) := []

namespace Entry

def renderDetail (quoted : Bool) : String × Detail → String
  | (name, .shown s) => s!" {name}={s}"
  | (name, .text s) => if quoted then s!" {name}=\"{s}\"" else s!" {name}={s}"

def details? (quoted : Bool) (e : Entry) : String :=
  String.join (e.details.map (renderDetail quoted))

def plain (e : Entry) : String := s!"{e.level.label} {e.message}{e.details? false}"

/-- Level, origin, message and details as a terminal shows them, with texts quoted.  A message may
hold a path, so it is made visible. -/
def full (e : Entry) : String :=
  s!"{e.level.label} {e.origin.label}: {Visible.text e.message}{e.details? true}"

end Entry

def renderValues (vs : List Value) : String :=
  "[" ++ ", ".intercalate (vs.map fun v => toString v.toInt) ++ "]"

inductive Event where
  /-- An instruction is about to be executed. -/
  | exec (pc sp fp : Nat) (name : String)
  | called (routine depth : Nat)
  | returned (count sp : Nat)
  | drewLine (color x0 y0 x1 y1 : Value)
  | filledRect (color x y w h : Value)
  | filledTriangle (color x0 y0 x1 y1 x2 y2 : Value)
  /-- A frame begins with an unknown command byte. -/
  | frameDiscarded (op : UInt8)
  | commandOverflow (capacity : Nat)
  | frameAborted
  | writeBegun (segment : UInt8) (offset count : Nat)
  | writeRefused (why : Refusal)
  | writeTooLong (why : Refusal) (excess : Nat)
  | writeDone (stop : Nat)
  | unrecognized (op : UInt8) (len : Nat)
  | hello
  | reset
  | execBegun (routine nargs : UInt8)
  | execRefused (why : Refusal)
  | reporting (count : Nat)
  | finished (tick : Nat) (results : List Value)
  | stopped (tick : Nat) (fault : Fault)
  | reportFailed (why : LinkError)
  | replyFailed (why : LinkError)
  | listening (socket : Nat)
  | listenFailed (reason : String) (socket : Nat)
  | loading (path : String)
  | loaded (routines globals bytecode : Nat)
  | loadFailed (why : LoadError)
  | startFailed (why : Refusal)
  | tickLimit (ticks : Nat)
  | done (results : List Value) (drawings : Nat)
  deriving DecidableEq, Repr

namespace Event

def nat (name : String) (n : Nat) : String × Detail := (name, .shown (toString n))

def value (name : String) (v : Value) : String × Detail := (name, .shown (toString v.toInt))

def entry : Event → Entry
  | exec pc sp fp name =>
    ⟨.trace, .engine, "exec", [nat "pc" pc, nat "sp" sp, nat "fp" fp, ("op", .text name)]⟩
  | called r depth => ⟨.trace, .engine, "call", [nat "func" r, nat "depth" depth]⟩
  | returned count sp =>
    ⟨.trace, .engine, "return from entry function", [nat "retc" count, nat "sp" sp]⟩
  | drewLine color x0 y0 x1 y1 =>
    ⟨.trace, .peripherals, "draw-line", [value "color" color, value "x0" x0, value "y0" y0,
      value "x1" x1, value "y1" y1]⟩
  | filledRect color x y w h =>
    ⟨.trace, .peripherals, "fill-rect", [value "color" color, value "x" x, value "y" y,
      value "w" w, value "h" h]⟩
  | filledTriangle color x0 y0 x1 y1 x2 y2 =>
    ⟨.trace, .peripherals, "fill-triangle", [value "color" color, value "x0" x0, value "y0" y0,
      value "x1" x1, value "y1" y1, value "x2" x2, value "y2" y2]⟩
  | frameDiscarded op =>
    ⟨.debug, .session, "unrecognized command, discarding frame", [nat "op" op.toNat]⟩
  | commandOverflow capacity =>
    ⟨.warn, .session, "command buffer overflow", [nat "size" capacity]⟩
  | frameAborted => ⟨.warn, .session, "frame aborted by escaped delimiter", []⟩
  | writeBegun segment offset count =>
    ⟨.debug, .session, "WRITE_MEM", [nat "segment" segment.toNat, nat "offset" offset,
      nat "nbytes" count]⟩
  | writeRefused why =>
    ⟨.warn, .session, "WRITE_MEM rejected", [("error", .shown why.message)]⟩
  | writeTooLong why excess =>
    ⟨.warn, .session, "WRITE_MEM payload truncated", [("error", .shown why.message),
      nat "excess" excess]⟩
  | writeDone stop => ⟨.debug, .session, "WRITE_MEM done", [nat "end" stop]⟩
  | unrecognized op len =>
    ⟨.debug, .session, "unrecognized command", [nat "op" op.toNat, nat "len" len]⟩
  | hello => ⟨.debug, .session, "HELLO", []⟩
  | reset => ⟨.debug, .session, "RESET", []⟩
  | execBegun r nargs =>
    ⟨.debug, .session, "BEGIN_EXEC", [nat "func" r.toNat, nat "nargs" nargs.toNat]⟩
  | execRefused why =>
    ⟨.warn, .session, "BEGIN_EXEC rejected", [("error", .shown why.message)]⟩
  | reporting count => ⟨.debug, .session, "reporting completion", [nat "retc" count]⟩
  | finished tick results =>
    ⟨.info, .host, "program finished", [nat "tick" tick, ("results", .shown (renderValues results))]⟩
  | stopped tick fault =>
    ⟨.error, .host, "program error, thread stopped", [nat "tick" tick,
      ("error", .shown fault.message)]⟩
  | reportFailed why =>
    ⟨.warn, .host, "could not report completion to debugger", [("error", .shown why.message)]⟩
  | replyFailed why => ⟨.warn, .host, "debugger reply failed", [("error", .shown why.message)]⟩
  | listening socket =>
    ⟨.info, .link, "debug listener ready", [("addr", .shown s!"0.0.0.0:{socket}")]⟩
  | listenFailed reason socket =>
    ⟨.error, .command, s!"Failed to start debug listener: {reason}", [nat "port" socket]⟩
  | loading path => ⟨.info, .command, s!"Loading module from: {path}", []⟩
  | loaded routines globals bytecode =>
    ⟨.info, .command, "module loaded", [nat "functions" routines, nat "globals" globals,
      nat "bytecode" bytecode]⟩
  | loadFailed why => ⟨.error, .command, s!"Failed to load module: {why.message}", []⟩
  | startFailed why => ⟨.error, .command, s!"Cannot start module: {why.message}", []⟩
  | tickLimit ticks => ⟨.info, .command, "tick limit reached", [nat "ticks" ticks]⟩
  | done results drawings =>
    ⟨.info, .command, "done", [("results", .shown (renderValues results)),
      nat "draw_calls" drawings]⟩

def reported (limit : Level) (events : List Event) : List Event :=
  events.filter fun e => e.entry.level.within limit

end Event
end TickMachine
