/-!
# The built-in operations

Every instruction byte from 128 on names a built-in; the byte is its number.  The arity belongs
to the built-in and never to the bytecode, so each one changes the depth of the stack by
`1 - arity`.

* `Builtin.all`   the table, by rising number;
* `Builtin.ofByte?`, `Builtin.ofName?`   the two ways to look a built-in up.
-/

namespace TickMachine

inductive Builtin where
  | add | sub | mul | div | mod | shl | shr | mulFixed | sinFixed | cosFixed
  | lt | le | eq | ne | gt | ge | not | and | or
  | drawLine | fillRect | fillTriangle | pauseFrames
  | keyPressed | keyReleased | keyHeld
  | random | setRandomSeed
  deriving DecidableEq, Repr

namespace Builtin

/-- The first instruction byte that names a built-in. -/
def base : UInt8 := 128

/-- The built-ins by rising number, in groups of sixteen: arithmetic, comparison and logic,
graphics, keyboard, random numbers. -/
def all : List Builtin :=
  [add, sub, mul, div, mod, shl, shr, mulFixed, sinFixed, cosFixed,
    lt, le, eq, ne, gt, ge, not, and, or,
    drawLine, fillRect, fillTriangle, pauseFrames,
    keyPressed, keyReleased, keyHeld,
    random, setRandomSeed]

def byte : Builtin → UInt8
  | add => 128
  | sub => 129
  | mul => 130
  | div => 131
  | mod => 132
  | shl => 133
  | shr => 134
  | mulFixed => 135
  | sinFixed => 136
  | cosFixed => 137
  | lt => 144
  | le => 145
  | eq => 146
  | ne => 147
  | gt => 148
  | ge => 149
  | not => 150
  | and => 151
  | or => 152
  | drawLine => 176
  | fillRect => 177
  | fillTriangle => 178
  | pauseFrames => 179
  | keyPressed => 192
  | keyReleased => 193
  | keyHeld => 194
  | random => 208
  | setRandomSeed => 209

def name : Builtin → String
  | add => "+"
  | sub => "-"
  | mul => "*"
  | div => "/"
  | mod => "%"
  | shl => "<<"
  | shr => ">>"
  | mulFixed => "mul@"
  | sinFixed => "sin@"
  | cosFixed => "cos@"
  | lt => "<"
  | le => "<="
  | eq => "="
  | ne => "!="
  | gt => ">"
  | ge => ">="
  | not => "not"
  | and => "and"
  | or => "or"
  | drawLine => "draw-line"
  | fillRect => "fill-rect"
  | fillTriangle => "fill-triangle"
  | pauseFrames => "pause-frames"
  | keyPressed => "key-pressed?"
  | keyReleased => "key-released?"
  | keyHeld => "key-held?"
  | random => "random"
  | setRandomSeed => "set-random-seed!"

def arity : Builtin → Nat
  | random => 0
  | sinFixed | cosFixed | not | pauseFrames | keyPressed | keyReleased | keyHeld
  | setRandomSeed => 1
  | drawLine | fillRect => 5
  | fillTriangle => 7
  | _ => 2

def stackEffect (b : Builtin) : Int := 1 - b.arity

def ofByte? : UInt8 → Option Builtin
  | 128 => some add
  | 129 => some sub
  | 130 => some mul
  | 131 => some div
  | 132 => some mod
  | 133 => some shl
  | 134 => some shr
  | 135 => some mulFixed
  | 136 => some sinFixed
  | 137 => some cosFixed
  | 144 => some lt
  | 145 => some le
  | 146 => some eq
  | 147 => some ne
  | 148 => some gt
  | 149 => some ge
  | 150 => some not
  | 151 => some and
  | 152 => some or
  | 176 => some drawLine
  | 177 => some fillRect
  | 178 => some fillTriangle
  | 179 => some pauseFrames
  | 192 => some keyPressed
  | 193 => some keyReleased
  | 194 => some keyHeld
  | 208 => some random
  | 209 => some setRandomSeed
  | _ => none

def ofName? (s : String) : Option Builtin := all.find? fun b => b.name == s

@[simp] theorem ofByte?_byte (b : Builtin) : ofByte? b.byte = some b := by cases b <;> rfl

theorem byte_of_ofByte? {n : UInt8} {b : Builtin} (h : ofByte? n = some b) : b.byte = n := by
  unfold ofByte? at h
  split at h <;> cases h <;> rfl

theorem base_le_byte (b : Builtin) : base ≤ b.byte := by cases b <;> decide

end Builtin
end TickMachine
