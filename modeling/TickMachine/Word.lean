/-!
# Little-endian words

A 16-bit word is stored as two bytes, the low one first.  `word` puts two bytes together,
`lowByte` and `highByte` take a word apart.

* `word_lowByte_highByte`   a word is put together again from its two bytes;
* `lowByte_word`, `highByte_word`   the bytes of a word are the ones it was made of.
-/

namespace TickMachine

/-- The word with the given low and high byte. -/
def word (lo hi : UInt8) : UInt16 := UInt16.ofNat (lo.toNat + 256 * hi.toNat)

def lowByte (w : UInt16) : UInt8 := UInt8.ofNat w.toNat
def highByte (w : UInt16) : UInt8 := UInt8.ofNat (w.toNat / 256)

theorem toNat_word (lo hi : UInt8) : (word lo hi).toNat = lo.toNat + 256 * hi.toNat := by
  have h₁ := lo.toNat_lt
  have h₂ := hi.toNat_lt
  simp only [word, UInt16.toNat_ofNat']
  omega

@[simp] theorem word_lowByte_highByte (w : UInt16) : word (lowByte w) (highByte w) = w := by
  apply UInt16.toNat_inj.mp
  have h := w.toNat_lt
  simp only [toNat_word, lowByte, highByte, UInt8.toNat_ofNat']
  omega

@[simp] theorem lowByte_word (lo hi : UInt8) : lowByte (word lo hi) = lo := by
  apply UInt8.toNat_inj.mp
  have h := lo.toNat_lt
  simp only [lowByte, toNat_word, UInt8.toNat_ofNat']
  omega

@[simp] theorem highByte_word (lo hi : UInt8) : highByte (word lo hi) = hi := by
  apply UInt8.toNat_inj.mp
  have h₁ := lo.toNat_lt
  have h₂ := hi.toNat_lt
  simp only [highByte, toNat_word, UInt8.toNat_ofNat']
  omega

end TickMachine
