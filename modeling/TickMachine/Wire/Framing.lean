/-!
# Framing

Bytes travel in frames.  A delimiter ends a frame and begins the next; inside a frame an escape
mark says that the byte after it is to be flipped in one bit, so that a payload never shows a
delimiter or an escape mark of its own.

* `frame`   a payload between delimiters, stuffed;
* `Decoder.push`   one received byte, and the signal it gives;
* `stuff_no_delimiter`   a stuffed payload holds no delimiter.
-/

namespace TickMachine

def delimiter : UInt8 := 0x7E

def escapeMark : UInt8 := 0x7D

/-- A byte with the bit flipped that stuffing flips. -/
def flip (b : UInt8) : UInt8 := b ^^^ 0x20

/-- Whether a byte may not stand in a frame as it is. -/
def reserved (b : UInt8) : Bool := b == delimiter || b == escapeMark

def stuffByte (b : UInt8) : List UInt8 := if reserved b then [escapeMark, flip b] else [b]

def stuff (payload : List UInt8) : List UInt8 := payload.flatMap stuffByte

def frame (payload : List UInt8) : List UInt8 := delimiter :: (stuff payload ++ [delimiter])

inductive Signal where
  | none
  | byte (b : UInt8)
  | done
  /-- The frame was cut off by a delimiter after an escape mark. -/
  | abort
  deriving DecidableEq, Repr

/-- Where a receiver is in the stream of frames. -/
inductive Decoder where
  | searching
  | inFrame
  | escaped
  deriving DecidableEq, Repr

namespace Decoder

/-- Receive a byte.  Once a delimiter was seen, every frame begins where the last one ended. -/
def push (d : Decoder) (b : UInt8) : Decoder × Signal :=
  match d with
  | searching => if b = delimiter then (inFrame, .none) else (searching, .none)
  | inFrame =>
    if b = escapeMark then (escaped, .none)
    else if b = delimiter then (inFrame, .done)
    else (inFrame, .byte b)
  | escaped => if b = delimiter then (inFrame, .abort) else (inFrame, .byte (flip b))

/-- Receive bytes one after the other: the decoder after them and the signal of each. -/
def pushAll (d : Decoder) : List UInt8 → Decoder × List Signal
  | [] => (d, [])
  | b :: bs =>
    let (d', s) := d.push b
    let (d'', ss) := d'.pushAll bs
    (d'', s :: ss)

theorem pushAll_cons (d : Decoder) (b : UInt8) (bs : List UInt8) :
    d.pushAll (b :: bs) =
      (((d.push b).1.pushAll bs).1, (d.push b).2 :: ((d.push b).1.pushAll bs).2) := rfl

theorem pushAll_append (d : Decoder) (xs ys : List UInt8) :
    d.pushAll (xs ++ ys) =
      (((d.pushAll xs).1.pushAll ys).1, (d.pushAll xs).2 ++ ((d.pushAll xs).1.pushAll ys).2) := by
  induction xs generalizing d with
  | nil => rfl
  | cons x xs ih => rw [List.cons_append, pushAll_cons, pushAll_cons, ih, List.cons_append]

end Decoder

theorem flip_flip (b : UInt8) : flip (flip b) = b := by
  unfold flip
  rw [UInt8.xor_assoc, UInt8.xor_self, UInt8.xor_zero]

theorem stuff_nil : stuff [] = [] := rfl

theorem stuff_cons (b : UInt8) (bs : List UInt8) : stuff (b :: bs) = stuffByte b ++ stuff bs := rfl

theorem stuffByte_no_delimiter (b : UInt8) : delimiter ∉ stuffByte b := by
  unfold stuffByte reserved
  by_cases h : b = delimiter
  · subst h; decide
  · by_cases h' : b = escapeMark
    · subst h'; decide
    · have e : (b == delimiter || b == escapeMark) = false := by simp [h, h']
      rw [e]
      intro hm
      exact h (List.mem_singleton.mp hm).symm

theorem stuff_no_delimiter (payload : List UInt8) : delimiter ∉ stuff payload := by
  intro h
  obtain ⟨b, _, hb⟩ := List.mem_flatMap.mp h
  exact stuffByte_no_delimiter b hb

end TickMachine
