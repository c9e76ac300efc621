import TickMachine.Listener

/-!
# The options of the command line

Arguments are read from left to right.  An option takes its number from the next argument or
after an equals sign; no option may be given twice; after `--` every argument is a file.

* `Options.parse`   the options, a call for help, or what is wrong.
-/

namespace TickMachine.CommandLine

structure Options where
  file : Option String := none
  /-- Wait for a debugger instead. -/
  debug : Bool := false
  socket : Nat := Listener.defaultSocket
  /-- Stop after this many ticks; zero is no limit. -/
  ticks : Nat := 0
  tickMs : Nat := 16
  disasm : Bool := false
  deriving DecidableEq, Repr

inductive UsageError where
  | unexpected (argument : String)
  | repeated (option : String)
  | missingValue (option : String)
  | invalidValue (option value : String)
  | missingFile
  | fileWithDebug
  deriving DecidableEq, Repr

def UsageError.message : UsageError → String
  | .unexpected argument => s!"unexpected argument '{argument}' found"
  | .repeated option => s!"the argument '{option}' cannot be used multiple times"
  | .missingValue option => s!"a value is required for '{option}' but none was supplied"
  | .invalidValue option value => s!"invalid value '{value}' for '{option}'"
  | .missingFile => "the following required arguments were not provided: <FILE>"
  | .fileWithDebug => "the argument '[FILE]' cannot be used with '--debug'"

/-! ## numbers -/

/-- The number written by decimal digits alone. -/
def digits? (cs : List Char) : Option Nat :=
  if cs.isEmpty then none
  else cs.foldlM (fun n c => if c.isDigit then some (10 * n + (c.toNat - '0'.toNat)) else none) 0

/-- An unsigned number of 64 bits, with a plus sign or without. -/
def unsigned? (s : String) : Option Nat := do
  let n ← match s.toList with
    | '+' :: cs => digits? cs
    | cs => digits? cs
  if n < 18446744073709551616 then some n else none

/-- A number of 16 bits, with either sign or without. -/
def socket? (s : String) : Option Nat := do
  let n ← match s.toList with
    | '-' :: cs => (digits? cs).filter (· == 0)
    | '+' :: cs => digits? cs
    | cs => digits? cs
  if n < 65536 then some n else none

/-! ## arguments -/

inductive Setting where
  | socket
  | ticks
  | tickMs
  deriving DecidableEq, Repr

namespace Setting

def name : Setting → String
  | socket => "--port"
  | ticks => "--ticks"
  | tickMs => "--tick-ms"

def all : List Setting := [socket, ticks, tickMs]

def read? : Setting → String → Option Nat
  | socket, s => socket? s
  | ticks, s | tickMs, s => unsigned? s

end Setting

structure Draft where
  file : Option String := none
  debug : Bool := false
  disasm : Bool := false
  settings : List (Setting × Nat) := []

namespace Draft

def addFile (d : Draft) (s : String) : Except UsageError Draft :=
  if d.file.isSome then .error (.unexpected s)
  else if s.isEmpty then .error (.invalidValue "[FILE]" s)
  else .ok { d with file := some s }

def addDebug (d : Draft) : Except UsageError Draft :=
  if d.debug then .error (.repeated "--debug") else .ok { d with debug := true }

def addDisasm (d : Draft) : Except UsageError Draft :=
  if d.disasm then .error (.repeated "--disasm") else .ok { d with disasm := true }

def lookup (d : Draft) (s : Setting) : Option Nat := d.settings.lookup s

def addSetting (d : Draft) (s : Setting) (value : String) : Except UsageError Draft :=
  match d.lookup s with
  | some _ => .error (.repeated s.name)
  | none =>
    match s.read? value with
    | some n => .ok { d with settings := (s, n) :: d.settings }
    | none => .error (.invalidValue s.name value)

/-- A file and a debugger exclude each other, and one of them is needed. -/
def finish (d : Draft) : Except UsageError Options :=
  match d.file, d.debug with
  | some _, true => .error .fileWithDebug
  | none, false => .error .missingFile
  | file, debug =>
    .ok {
      file := file
      debug := debug
      socket := (d.lookup .socket).getD Listener.defaultSocket
      ticks := (d.lookup .ticks).getD 0
      tickMs := (d.lookup .tickMs).getD 16
      disasm := d.disasm }

end Draft

inductive Wish where
  | help
  | run (o : Options)
  deriving DecidableEq, Repr

inductive Argument where
  /-- Two dashes: files follow. -/
  | rest
  /-- A name after two dashes, with what follows an equals sign. -/
  | long (name : String) (value : Option String)
  /-- Letters after one dash. -/
  | short (letters : List Char)
  | plain

def Argument.ofString (s : String) : Argument :=
  match s.toList with
  | ['-', '-'] => .rest
  | '-' :: '-' :: cs =>
    let name := cs.takeWhile (· != '=')
    match cs.dropWhile (· != '=') with
    | [] => .long (String.ofList name) none
    | _ :: value => .long (String.ofList name) (some (String.ofList value))
  | '-' :: c :: cs => .short (c :: cs)
  | _ => .plain

/-- Read letters after one dash; `none` is a call for help. -/
def parseShort (d : Draft) (argument : String) : List Char → Except UsageError (Option Draft)
  | [] => .ok (some d)
  | 'g' :: cs => do parseShort (← d.addDebug) argument cs
  | 'h' :: _ => .ok none
  | _ :: _ => .error (.unexpected argument)

def parseFiles (d : Draft) : List String → Except UsageError Draft
  | [] => .ok d
  | s :: rest => do parseFiles (← d.addFile s) rest

def parseFrom (d : Draft) : List String → Except UsageError Wish
  | [] => return .run (← d.finish)
  | argument :: rest =>
    match Argument.ofString argument with
    | .rest => do
      let d ← parseFiles d rest
      return .run (← d.finish)
    | .plain => do parseFrom (← d.addFile argument) rest
    | .short letters => do
      match ← parseShort d argument letters with
      | some d => parseFrom d rest
      | none => return .help
    | .long "help" none => return .help
    | .long "debug" none => do parseFrom (← d.addDebug) rest
    | .long "disasm" none => do parseFrom (← d.addDisasm) rest
    | .long name (some value) =>
      match Setting.all.find? fun s => s.name == "--" ++ name with
      | some s => do parseFrom (← d.addSetting s value) rest
      | none => .error (.unexpected argument)
    | .long name none =>
      match Setting.all.find? fun s => s.name == "--" ++ name, rest with
      | none, _ => .error (.unexpected argument)
      | some s, [] => .error (.missingValue s.name)
      | some s, value :: rest => do
        if value.startsWith "-" then .error (.missingValue s.name)
        else parseFrom (← d.addSetting s value) rest

def Options.parse (args : List String) : Except UsageError Wish := parseFrom {} args

end TickMachine.CommandLine
