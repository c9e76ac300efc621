/-!
# Hexadecimal text

Lower-case digits, padded with zeros to a least width.
-/

namespace TickMachine.Hex

/-- The hexadecimal digits of `n`, at least `width` of them. -/
def padded (width n : Nat) : String :=
  let digits := Nat.toDigits 16 n
  String.ofList (List.replicate (width - digits.length) '0' ++ digits)

/-- A byte as two digits after the mark `0x`. -/
def byte (b : UInt8) : String := "0x" ++ padded 2 b.toNat

def address (n : Nat) : String := padded 4 n

/-- The 64-bit two's complement of an integer. -/
def complement (i : Int) : Nat := (i % 18446744073709551616).toNat

end TickMachine.Hex
