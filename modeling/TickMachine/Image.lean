import TickMachine.Value
import TickMachine.Routine
import TickMachine.Instruction
import TickMachine.Refusal

/-!
# Images

An image is a program in memory: function table, globals and bytecode, each a segment of bytes,
so that a debugger can patch them by offset.  Routines and globals are decoded when they are
looked up.  Of the bytecode only the first `length` bytes are code.

* `Image.routine?`, `Image.global?`, `Image.setGlobal?`   the typed view;
* `Image.fetch`   the code as a reader sees it;
* `Image.reserve`, `Image.poke`   the byte view: claim a window, then write into it.
-/

namespace TickMachine

inductive Segment where
  | bytecode
  | routines
  | globals
  deriving DecidableEq, Repr

/-- The segment that a debugger calls `id`. -/
def Segment.ofId (id : UInt8) : Except Refusal Segment :=
  match id with
  | 0 => .ok .bytecode
  | 1 => .ok .routines
  | 2 => .ok .globals
  | other => .error (.invalidSegment other)

structure Image where
  routineBytes : Array UInt8
  globalBytes : Array UInt8
  bytecode : Array UInt8
  /-- How much of the bytecode is code. -/
  length : Nat
  /-- The index of the routine a program starts with. -/
  main : Nat
  length_le : length ≤ bytecode.size

namespace Image

/-! ## making images -/

/-- The image with the given segments, all of whose bytecode is code. -/
def ofSegments (routines globals code : List UInt8) (main : Nat) : Image where
  routineBytes := routines.toArray
  globalBytes := globals.toArray
  bytecode := code.toArray
  length := code.length
  main := main
  length_le := by simp

/-- The image of the given parts.  Nothing is checked. -/
def ofParts (routines : List Routine) (globals : List Value) (code : List UInt8) (main : Nat) :
    Image :=
  ofSegments (routines.flatMap Routine.record) (globals.flatMap Value.bytes) code main

/-- The sizes of the segments of an image that a debugger fills. -/
def blankCapacity : Segment → Nat
  | .bytecode => 16384
  | .routines => 1024
  | .globals => 1024

/-- An image without code, with room for a debugger to load some. -/
def blank : Image where
  routineBytes := Array.replicate (blankCapacity .routines) 0
  globalBytes := Array.replicate (blankCapacity .globals) 0
  bytecode := Array.replicate (blankCapacity .bytecode) 0
  length := 0
  main := 0
  length_le := Nat.zero_le _

/-! ## routines, globals, code -/

/-- The number of records in the function table. -/
def routineCount (img : Image) : Nat := img.routineBytes.size / Routine.recordSize

def globalCount (img : Image) : Nat := img.globalBytes.size / 2

def routine? (img : Image) (i : Nat) : Option Routine := do
  let argc ← img.routineBytes[4 * i]?
  let locals ← img.routineBytes[4 * i + 1]?
  let lo ← img.routineBytes[4 * i + 2]?
  let hi ← img.routineBytes[4 * i + 3]?
  return .ofRecord argc locals lo hi

def global? (img : Image) (i : Nat) : Option Value := do
  let lo ← img.globalBytes[2 * i]?
  let hi ← img.globalBytes[2 * i + 1]?
  return Value.ofBytes lo hi

/-- The image with the two bytes of global `i` replaced. -/
def setGlobal (img : Image) (i : Nat) (v : Value) : Image :=
  { img with
    globalBytes := (img.globalBytes.setIfInBounds (2 * i) (Value.lo v)).setIfInBounds (2 * i + 1)
      (Value.hi v) }

/-- The image with global `i` replaced, if there is one. -/
def setGlobal? (img : Image) (i : Nat) (v : Value) : Option Image :=
  if i < img.globalCount then some (img.setGlobal i v) else none

theorem setGlobal?_of_lt (img : Image) {i : Nat} (v : Value) (h : i < img.globalCount) :
    img.setGlobal? i v = some (img.setGlobal i v) := if_pos h

theorem setGlobal?_of_le (img : Image) {i : Nat} (v : Value) (h : img.globalCount ≤ i) :
    img.setGlobal? i v = none := if_neg (Nat.not_lt.mpr h)

theorem setGlobal?_eq_some_iff {img img' : Image} {i : Nat} {v : Value} :
    img.setGlobal? i v = some img' ↔ i < img.globalCount ∧ img' = img.setGlobal i v := by
  unfold setGlobal?
  split
  · next h => simp only [Option.some_inj, h, true_and, eq_comm]
  · next h => exact ⟨nofun, fun hi => absurd hi.1 h⟩

theorem global?_setGlobal_self (img : Image) (i : Nat) (v : Value) (h : i < img.globalCount) :
    (img.setGlobal i v).global? i = some v := by
  have hi : 2 * i + 1 < img.globalBytes.size := by
    simp only [globalCount] at h
    omega
  have hi' : 2 * i < img.globalBytes.size := by omega
  simp [global?, setGlobal, hi, hi']

def fetch (img : Image) : Fetch := fun pc =>
  if pc < img.length then img.bytecode[pc]? else none

def code (img : Image) : List UInt8 := img.bytecode.toList.take img.length

theorem fetch_eq_code (img : Image) (pc : Nat) : img.fetch pc = img.code[pc]? := by
  simp [fetch, code, List.getElem?_take]

@[simp] theorem length_code (img : Image) : img.code.length = img.length := by
  simp [code, img.length_le]

/-! ## segments -/

def segment (img : Image) : Segment → Array UInt8
  | .bytecode => img.bytecode
  | .routines => img.routineBytes
  | .globals => img.globalBytes

/-- The code made to reach at least up to `stop`, as far as there is bytecode. -/
def extend (img : Image) (stop : Nat) : Image :=
  if h : img.length < stop ∧ stop ≤ img.bytecode.size then
    { img with length := stop, length_le := h.2 }
  else
    img

/-- Claim the bytes from `offset` to `offset + len` of a segment for writing.  Claimed bytecode
counts as code from then on. -/
def reserve (img : Image) (s : Segment) (offset len : Nat) : Except Refusal Image :=
  if offset + len ≤ (img.segment s).size then
    .ok (if s = .bytecode then img.extend (offset + len) else img)
  else
    .error (.outOfBounds offset len (img.segment s).size)

theorem segment_reserve {img img' : Image} {s : Segment} {offset len : Nat}
    (h : img.reserve s offset len = .ok img') (s' : Segment) :
    img'.segment s' = img.segment s' := by
  unfold reserve at h
  split at h
  · cases h
    split
    · unfold extend
      split <;> cases s' <;> rfl
    · rfl
  · cases h

def poke (img : Image) (s : Segment) (i : Nat) (b : UInt8) : Image :=
  match s with
  | .bytecode =>
    { img with
      bytecode := img.bytecode.setIfInBounds i b
      length_le := by simpa using img.length_le }
  | .routines => { img with routineBytes := img.routineBytes.setIfInBounds i b }
  | .globals => { img with globalBytes := img.globalBytes.setIfInBounds i b }

theorem segment_poke (img : Image) (s : Segment) (i : Nat) (b : UInt8) :
    (img.poke s i b).segment s = (img.segment s).setIfInBounds i b := by
  cases s <;> rfl

theorem segment_poke_of_ne (img : Image) {s s' : Segment} (i : Nat) (b : UInt8) (h : s ≠ s') :
    (img.poke s i b).segment s' = img.segment s' := by
  cases s <;> cases s' <;> simp_all [poke, segment]

@[simp] theorem length_poke (img : Image) (s : Segment) (i : Nat) (b : UInt8) :
    (img.poke s i b).length = img.length := by
  cases s <;> rfl

def pokeAll (img : Image) (s : Segment) (i : Nat) : List UInt8 → Image
  | [] => img
  | b :: bs => (img.poke s i b).pokeAll s (i + 1) bs

/-- The bytes from `offset` to `offset + len` of a segment. -/
def window (img : Image) (s : Segment) (offset len : Nat) : List UInt8 :=
  ((img.segment s).extract offset (offset + len)).toList

end Image
end TickMachine
