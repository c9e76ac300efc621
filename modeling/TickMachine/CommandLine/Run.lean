import TickMachine.CommandLine.Options
import TickMachine.Listing
import TickMachine.Machine
import TickMachine.Peripherals.Headless

/-!
# Running the command line

The command line runs an image file, prints its code, or waits for a debugger.  What it reads and
where it listens are given to it as its `Surroundings`, so that its output is a function of them.

* `prepare`   up to the first tick;
* `turn`   one turn of the frame loop;
* `execute`   a whole run.
-/

namespace TickMachine.CommandLine

structure Surroundings where
  /-- The bytes of a file, or why it cannot be read. -/
  readFile : String → Except FileError (List UInt8)
  sockets : Sockets

/-- A piece of output: an event, or a line of text. -/
inductive Output where
  | event (e : Event)
  | line (s : String)
  deriving DecidableEq, Repr

/-- The text of output, with the events down to `limit`, if any are wanted. -/
def Output.render (limit : Option Level) : Output → String
  | line s => s ++ "\n"
  | event e =>
    match limit with
    | some l => if e.entry.level.within l then e.entry.full ++ "\n" else ""
    | none => ""

structure Report where
  exit : Nat
  output : Array Output

/-- What to do after the start: end at once, or go on with a machine. -/
inductive Start where
  | over (exit : Nat) (output : List Output)
  | go (m : Machine Headless) (output : List Output)

def loadFile (w : Surroundings) (path : String) : Except LoadError Image :=
  match w.readFile path with
  | .ok bytes => Image.ofBytes bytes
  | .error why => .error (.unreadable why)

def prepareDebug (w : Surroundings) (o : Options) : Start :=
  match Listener.bind w.sockets o.socket with
  | .error why => .over 1 [.event (.listenFailed why.message o.socket)]
  | .ok listener => .go (.debug {} listener.link) [.event (.listening listener.socket)]

/-- Start a machine for an image file, or print its code. -/
def prepareFile (w : Surroundings) (o : Options) (path : String) : Start :=
  let loading := Output.event (.loading path)
  match loadFile w path with
  | .error why => .over 1 [loading, .event (.loadFailed why)]
  | .ok img =>
    let loaded := Output.event (.loaded img.routineCount img.globalCount img.length)
    if o.disasm then
      .over 0 (loading :: loaded :: (listing img.code.toArray).map fun l => .line (renderLine l))
    else
      match Machine.load img ({} : Headless) with
      | .error why => .over 1 [loading, loaded, .event (.startFailed why)]
      | .ok m => .go m [loading, loaded]

def prepare (w : Surroundings) (o : Options) : Start :=
  match o.file with
  | some path => if o.debug then prepareDebug w o else prepareFile w o path
  | none => prepareDebug w o

/-- What to do after a turn of the frame loop. -/
inductive Turn where
  | over (exit : Nat) (output : Array Output)
  | go (m : Machine Headless) (output : Array Output)

/-- The last words of a machine: its results, if it has any. -/
def farewell (m : Machine Headless) : List Output :=
  match m.results with
  | some results => [.event (.done results m.engine.devices.drawings)]
  | none => []

/-- One turn: end when the program is finished or the tick limit is reached, else tick.  Only
without a debugger a fault ends the loop. -/
def turn (o : Options) (fuel : Nat) (m : Machine Headless) : Option Turn :=
  if m.isFinished then
    some (.over 0 (farewell m).toArray)
  else if 0 < o.ticks ∧ o.ticks ≤ m.ticks then
    some (.over 0 (.event (.tickLimit m.ticks) :: farewell m).toArray)
  else
    (m.tick Headless.peripherals fuel).map fun ticked =>
      let output := ticked.events.map Output.event
      match ticked.result with
      | .ok _ => .go ticked.machine output
      | .error _ =>
        if m.isDebugging then .go ticked.machine output else .over 1 output

/-- At most `turns` turns of the frame loop. -/
def drive (o : Options) (fuel : Nat) : Nat → Machine Headless → Array Output → Option Report
  | 0, _, _ => none
  | turns + 1, m, output =>
    match turn o fuel m with
    | none => none
    | some (.over exit more) => some ⟨exit, output ++ more⟩
    | some (.go m more) => drive o fuel turns m (output ++ more)

def helpText : List String :=
  ["Run STAK bytecode, or serve a remote debugger",
    "",
    "Usage: stak [OPTIONS] [FILE]",
    "",
    "Arguments:",
    "  [FILE]  Module file to run",
    "",
    "Options:",
    "  -g, --debug              Start with an empty module and wait for a debugger",
    "      --port <PORT>        TCP port of the debug listener [default: 5000]",
    "      --ticks <TICKS>      Stop after this many frame ticks (0 = no limit) [default: 0]",
    "      --tick-ms <TICK_MS>  Frame period in milliseconds [default: 16]",
    "      --disasm             Print the module's bytecode instead of running it",
    "  -h, --help               Print help"]

/-- A whole run, with at most `fuel` turns and `fuel` steps in each.  Wrong usage ends with code
2 and without output. -/
def execute (fuel : Nat) (w : Surroundings) (args : List String) : Option Report :=
  match Options.parse args with
  | .error _ => some ⟨2, #[]⟩
  | .ok .help => some ⟨0, (helpText.map Output.line).toArray⟩
  | .ok (.run o) =>
    match prepare w o with
    | .over exit output => some ⟨exit, output.toArray⟩
    | .go m output => drive o fuel fuel m output.toArray

def Report.text (r : Report) (limit : Option Level) : String :=
  String.join (r.output.toList.map (Output.render limit))

end TickMachine.CommandLine
