import TickMachine.Word

/-!
# Values

The machine has exactly one datum: a signed 16-bit word.  It serves as number, as truth value
(zero is false) and as argument and result of the built-ins, so the operand stack needs no tags.

* `Value.wide`, `Value.narrow`   to 32 bits, where the arithmetic is done, and back;
* `Value.ofBytes`, `Value.bytes`   the stored form, low byte first.
-/

namespace TickMachine

abbrev Value := Int16

namespace Value

def truthy (v : Value) : Bool := v != 0

def ofBool (b : Bool) : Value := bif b then 1 else 0

def wide (v : Value) : Int32 := v.toInt32

/-- The low 16 bits of a 32-bit result. -/
def narrow (w : Int32) : Value := w.toInt16

/-- The value stored in two bytes, low byte first. -/
def ofBytes (lo hi : UInt8) : Value := (word lo hi).toInt16

def lo (v : Value) : UInt8 := lowByte v.toUInt16
def hi (v : Value) : UInt8 := highByte v.toUInt16

def bytes (v : Value) : List UInt8 := [lo v, hi v]

@[simp] theorem ofBytes_lo_hi (v : Value) : ofBytes (lo v) (hi v) = v := by
  simp [ofBytes, lo, hi]

@[simp] theorem lo_ofBytes (a b : UInt8) : lo (ofBytes a b) = a := by
  simp [ofBytes, lo]

@[simp] theorem hi_ofBytes (a b : UInt8) : hi (ofBytes a b) = b := by
  simp [ofBytes, hi]

/-- The values of a byte string taken in pairs; an odd last byte is left over. -/
def ofByteList : List UInt8 → List Value
  | a :: b :: rest => ofBytes a b :: ofByteList rest
  | _ => []

theorem ofByteList_flatMap_bytes (vs : List Value) : ofByteList (vs.flatMap bytes) = vs := by
  induction vs with
  | nil => rfl
  | cons v vs ih => simp [bytes, ofByteList, ih]

end Value
end TickMachine
