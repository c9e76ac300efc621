import TickMachine.CommandLine.Run

/-!
# The program

The command line with real files, a real clock and the standard streams.  No network is built in:
a listener never gets a client, and no socket is ever taken.
-/

namespace TickMachine.CommandLine

/-- The level of a word in the environment; without one it is `info`. -/
def levelOf : Option String → Option Level
  | none => some .info
  | some "error" => some .error
  | some "warn" => some .warn
  | some "info" => some .info
  | some "debug" => some .debug
  | some "trace" => some .trace
  | some _ => none

/-- More steps than any tick takes. -/
def endless : Nat := 1000000000000000000

def write (limit : Option Level) (output : Array Output) : IO Unit := do
  let out ← IO.getStdout
  for o in output do
    out.putStr (o.render limit)
  out.flush

/-- The frame loop, with a rest between the ticks. -/
partial def loop (limit : Option Level) (o : Options) (m : Machine Headless) : IO UInt32 := do
  match turn o endless m with
  | none => return 1
  | some (.over exit output) =>
    write limit output
    return UInt32.ofNat exit
  | some (.go m output) =>
    write limit output
    IO.sleep (UInt32.ofNat o.tickMs)
    loop limit o m

def reasonOf : IO.Error → FileError
  | .noFileOrDirectory .. => .notFound
  | .inappropriateType .. => .isDirectory
  | e => .other (toString e)

/-- The bytes of a file, or why it cannot be read. -/
def readBytes (path : String) : IO (Except FileError (List UInt8)) := do
  try
    let bytes ← IO.FS.readBinFile path
    return .ok bytes.toList
  catch e =>
    return .error (reasonOf e)

end TickMachine.CommandLine

open TickMachine.CommandLine in
def main (args : List String) : IO UInt32 := do
  let limit := levelOf (← IO.getEnv "STAK_LOG")
  match Options.parse args with
  | .error why =>
    IO.eprintln s!"error: {why.message}"
    return 2
  | .ok .help =>
    write limit (helpText.map Output.line).toArray
    return 0
  | .ok (.run o) =>
    let file ← readBytes (o.file.getD "")
    let surroundings : Surroundings := ⟨fun _ => file, ⟨fun _ => false, 49152⟩⟩
    match prepare surroundings o with
    | .over exit output =>
      write limit output.toArray
      return UInt32.ofNat exit
    | .go m output =>
      write limit output.toArray
      loop limit o m
