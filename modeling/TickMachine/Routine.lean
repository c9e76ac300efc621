import TickMachine.Word

/-!
# Routines

A routine is an entry of the function table: how many arguments it takes, how many more locals
it has, and where its code begins.  An activation owns one stack slot per argument and local,
the arguments in the low slots.
-/

namespace TickMachine

structure Routine where
  argc : UInt8
  locals : UInt8
  entry : UInt16
  deriving DecidableEq, Repr

namespace Routine

/-- The number of stack slots an activation owns. -/
def frameSize (r : Routine) : Nat := r.argc.toNat + r.locals.toNat

/-- The size of a record of the function table, in bytes. -/
def recordSize : Nat := 4

/-- The record of a routine: both counts, then the entry with its low byte first. -/
def record (r : Routine) : List UInt8 := [r.argc, r.locals, lowByte r.entry, highByte r.entry]

def ofRecord (argc locals lo hi : UInt8) : Routine := ⟨argc, locals, word lo hi⟩

@[simp] theorem length_record (r : Routine) : r.record.length = recordSize := rfl

@[simp] theorem ofRecord_record (r : Routine) :
    ofRecord r.argc r.locals (lowByte r.entry) (highByte r.entry) = r := by
  simp [ofRecord]

end Routine
end TickMachine
