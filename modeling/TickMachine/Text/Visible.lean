import TickMachine.Text.Hex

/-!
# Visible text

Text on its way to a terminal.  Some characters steer a terminal instead of showing on it; they
are spelled out.  Line ends, tabs and the other control characters stay as they are.

* `spell`   a character as it is shown;
* `text`   a text with every character spelled.
-/

namespace TickMachine.Visible

/-- The steering characters of seven bits: bell, backspace, form feed, escape and delete. -/
def steersShort (c : Char) : Bool :=
  c == '\x07' || c == '\x08' || c == '\x0c' || c == '\x1b' || c == '\x7f'

/-- The steering characters of eight bits: the control codes from 128 to 159. -/
def steersLong (c : Char) : Bool := 128 ≤ c.toNat && c.toNat ≤ 159

/-- A character as it is shown: one that steers is named by its code. -/
def spell (c : Char) : List Char :=
  if steersShort c then "\\x".toList ++ (Hex.padded 2 c.toNat).toList
  else if steersLong c then "\\u\x7b".toList ++ (Hex.padded 1 c.toNat).toList ++ ['\x7d']
  else [c]

def text (s : String) : String := String.ofList (s.toList.flatMap spell)

end TickMachine.Visible
