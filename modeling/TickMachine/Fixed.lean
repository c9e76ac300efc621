import TickMachine.Value

/-!
# Fixed-point numbers

A fixed-point number carries six fractional bits, so 64 stands for one.  Angles are counted in
256ths of a turn.  Sine and cosine are read from one quarter of the wave.
-/

namespace TickMachine.Fixed

/-- The first quarter of the sine wave, `64 * sin (i / 64 * π / 2)` rounded, for `i` up to 64. -/
def quarterWave : Vector Value 65 := #v[
  0, 2, 3, 5, 6, 8, 9, 11, 12, 14, 16, 17, 19, 20, 22, 23, 24, 26, 27, 29, 30, 32, 33, 34, 36,
  37, 38, 39, 41, 42, 43, 44, 45, 46, 47, 48, 49, 50, 51, 52, 53, 54, 55, 56, 56, 57, 58, 59,
  59, 60, 60, 61, 61, 62, 62, 62, 63, 63, 63, 64, 64, 64, 64, 64, 64]

def phase (angle : Value) : Nat := angle.toUInt16.toNat % 256

/-- The wave rises along the table in the first and third quarter and falls back along it from
entry 63 in the second and fourth; in the second half of the turn it is negative. -/
def sinPhase (ph : Nat) : Value :=
  let i := ph % 64
  let magnitude := quarterWave[if ph / 64 % 2 = 0 then i else 63 - i]?.getD 0
  if ph / 128 = 0 then magnitude else -magnitude

def sin (angle : Value) : Value := sinPhase (phase angle)

/-- The cosine is the sine a quarter turn ahead. -/
def cos (angle : Value) : Value := sin (angle + 64)

/-- The product, with its six surplus fractional bits shifted out. -/
def mul (a b : Value) : Value := Value.narrow ((Value.wide a * Value.wide b) >>> 6)

end TickMachine.Fixed
