import TickMachine.Files
import TickMachine.Image

/-!
# Image files

An image file is a header of eight bytes (length of the code as a word, number of routines,
number of globals, main routine, three bytes of padding), then the function table, the globals
and the code.  Bytes after that are ignored.

* `Image.ofBytes`   reading, which checks that every part is there and every routine begins
  within the code;
* `Image.toBytes`   writing, which keeps of each count what its header field holds.
-/

namespace TickMachine

/-- The parts of an image file, in their order. -/
inductive Part where
  | header
  | routines
  | globals
  | code
  deriving DecidableEq, Repr

def Part.label : Part → String
  | .header => "header"
  | .routines => "function table"
  | .globals => "globals"
  | .code => "bytecode"

inductive LoadError where
  | unreadable (why : FileError)
  | truncated (part : Part) (expected actual : Nat)
  | mainOutOfRange (main count : Nat)
  | routineOutOfBounds (routine offset length : Nat)
  deriving DecidableEq, Repr

def LoadError.message : LoadError → String
  | .unreadable why => s!"failed to read module: {why.message}"
  | .truncated part expected actual =>
    s!"module truncated in {part.label}: need {expected} bytes, have {actual}"
  | .mainOutOfRange main count => s!"main function {main} out of range ({count} function(s))"
  | .routineOutOfBounds r offset length =>
    s!"function {r} starts at {offset}, past the end of bytecode ({length} bytes)"

namespace Image

def headerSize : Nat := 8

/-- The `len` bytes from `offset` on, if they are there. -/
def cut (bytes : List UInt8) (offset len : Nat) (part : Part) : Except LoadError (List UInt8) :=
  if offset + len ≤ bytes.length then
    .ok ((bytes.drop offset).take len)
  else
    .error (.truncated part len (bytes.length - offset))

/-- The first routine that does not begin within the code, with its entry. -/
def firstStray? (img : Image) : Option (Nat × Nat) :=
  (List.range img.routineCount).findSome? fun i =>
    match img.routine? i with
    | some r => if img.length ≤ r.entry.toNat then some (i, r.entry.toNat) else none
    | none => none

def ofBytes (bytes : List UInt8) : Except LoadError Image := do
  let header ← cut bytes 0 headerSize .header
  let length := (word (header.getD 0 0) (header.getD 1 0)).toNat
  let routineCount := (header.getD 2 0).toNat
  let globalCount := (header.getD 3 0).toNat
  let main := (header.getD 4 0).toNat
  let routinesAt := headerSize
  let routines ← cut bytes routinesAt (routineCount * Routine.recordSize) .routines
  let globalsAt := routinesAt + routineCount * Routine.recordSize
  let globals ← cut bytes globalsAt (globalCount * 2) .globals
  let codeAt := globalsAt + globalCount * 2
  let code ← cut bytes codeAt length .code
  if routineCount ≤ main then
    throw (.mainOutOfRange main routineCount)
  let img := ofSegments routines globals code main
  match img.firstStray? with
  | some (i, entry) => throw (.routineOutOfBounds i entry length)
  | none => return img

def header (img : Image) : List UInt8 :=
  let length := UInt16.ofNat img.length
  [lowByte length, highByte length, UInt8.ofNat img.routineCount, UInt8.ofNat img.globalCount,
    UInt8.ofNat img.main, 0, 0, 0]

def toBytes (img : Image) : List UInt8 :=
  img.header ++ img.routineBytes.toList ++ img.globalBytes.toList ++ img.code

end Image
end TickMachine
