import TickMachine.Fixed

/-!
# The sine wave

One quarter of the sine wave is stored, and the wave is read from it forwards, backwards, and then
both ways again with the opposite sign.  Backwards the table is read from entry 63 on, although it
has an entry 64, so that the wave comes down a step early.  It repeats after a turn and is odd about
half a turn, but its mirror stands between two angles, half a step before the quarter turn.

* `phase_add`   phases add up modulo a turn;
* `entry`   the entry of the table that is read, `sinPhase_add_half` and `sinPhase_mirror` what
                       becomes of it half a turn later and in the mirror;
* `sin_mirror`   two angles that add up to 127 have the same sine;
* `sine_symmetries`   all symmetries, and how far the mirror is from the quarter turn;
* `sine_not_mirrored`   it is not there.
-/

namespace TickMachine.Fixed

/-! ## phases -/

theorem phase_lt (a : Value) : phase a < 256 := Nat.mod_lt _ (by decide)

theorem phase_add (a b : Value) : phase (a + b) = (phase a + phase b) % 256 := by
  unfold phase
  rw [Int16.toUInt16_add, UInt16.toNat_add]
  omega

/-- The entry of the table that the wave has at a phase. -/
def entry (ph : Nat) : Nat := if ph / 64 % 2 = 0 then ph % 64 else 63 - ph % 64

def magnitude (ph : Nat) : Value := quarterWave[entry ph]?.getD 0

theorem sinPhase_eq (ph : Nat) :
    sinPhase ph = if ph / 128 = 0 then magnitude ph else -magnitude ph := rfl

theorem entry_add_half (ph : Nat) : entry ((ph + 128) % 256) = entry ph := by
  have hquarter : (ph + 128) % 256 / 64 % 2 = ph / 64 % 2 := by omega
  have hindex : (ph + 128) % 256 % 64 = ph % 64 := by omega
  unfold entry
  rw [hquarter, hindex]

theorem entry_mirror {ph ph' : Nat} (hm : (ph + ph') % 256 = 127) : entry ph' = entry ph := by
  unfold entry
  -- a rising quarter is the mirror of a falling one
  by_cases hrising : ph / 64 % 2 = 0
  · rw [if_pos hrising, if_neg (by omega)]
    omega
  · rw [if_neg hrising, if_pos (by omega)]
    omega

theorem sinPhase_add_half {ph : Nat} (h : ph < 256) :
    sinPhase ((ph + 128) % 256) = -sinPhase ph := by
  rw [sinPhase_eq, sinPhase_eq, magnitude, entry_add_half]
  by_cases hfirst : ph / 128 = 0
  · rw [if_pos hfirst, if_neg (by omega)]
    rfl
  · rw [if_neg hfirst, if_pos (by omega), Int16.neg_neg]
    rfl

theorem sinPhase_mirror {ph ph' : Nat} (h : ph < 256) (h' : ph' < 256)
    (hm : (ph + ph') % 256 = 127) : sinPhase ph' = sinPhase ph := by
  have hsign : ph' / 128 = ph / 128 := by omega
  rw [sinPhase_eq, sinPhase_eq, magnitude, entry_mirror hm, hsign]
  rfl

/-! ## angles -/

theorem sin_add_turn (a : Value) : sin (a + 256) = sin a := by
  have hphase : phase (a + 256) = phase a := by
    rw [phase_add, show phase 256 = 0 from rfl, Nat.add_zero, Nat.mod_eq_of_lt (phase_lt a)]
  unfold sin
  rw [hphase]

theorem sin_add_half (a : Value) : sin (a + 128) = -sin a := by
  unfold sin
  rw [phase_add]
  exact sinPhase_add_half (phase_lt a)

/-- The mirror of the wave is between 63 and 64. -/
theorem sin_mirror {a b : Value} (h : a + b = 127) : sin b = sin a := by
  have hm : (phase a + phase b) % 256 = 127 := by
    rw [← phase_add, h]
    rfl
  exact sinPhase_mirror (phase_lt a) (phase_lt b) hm

theorem sin_half_sub (a : Value) : sin (128 - a) = sin (a - 1) := sin_mirror (by grind)

theorem cos_neg (a : Value) : cos (-a) = cos (a - 1) := by
  unfold cos
  exact sin_mirror (by grind)

/-! ## neighbours -/

theorem phase_sub_one (a : Value) : phase (a - 1) = (phase a + 255) % 256 := by
  rw [Int16.sub_eq_add_neg, phase_add]
  rfl

/-- From one angle to the next the wave moves by two at most. -/
theorem sinPhase_neighbour : ∀ ph < 256,
    ((sinPhase ((ph + 255) % 256)).toInt - (sinPhase ph).toInt).natAbs ≤ 2 := by
  decide +kernel

theorem sin_neighbour (a : Value) : ((sin (a - 1)).toInt - (sin a).toInt).natAbs ≤ 2 := by
  unfold sin
  rw [phase_sub_one]
  exact sinPhase_neighbour (phase a) (phase_lt a)

theorem sin_sub_one_of_quarter {a : Value} (h : phase a % 64 = 0) : sin (a - 1) = sin a := by
  have hrest : ∀ q < 4, sinPhase ((64 * q + 255) % 256) = sinPhase (64 * q) := by decide +kernel
  have hq : phase a = 64 * (phase a / 64) := by omega
  have hlt := phase_lt a
  unfold sin
  rw [phase_sub_one, hq]
  exact hrest _ (by omega)

/-- **The symmetries of the sine.**  The wave repeats after a turn, and half a turn later it has the
opposite sign.  Its mirror is half a step before the quarter turn, so that in the mirror of the
quarter turn, where the sine of `128 - a` would be that of `a`, the wave shows the value before it.
At the quarters the two are the same, and nowhere are they more than two apart.  The same holds of
the cosine, which would be even. -/
theorem sine_symmetries (a : Value) :
    sin (a + 256) = sin a ∧ sin (a + 128) = -sin a ∧ sin (127 - a) = sin a ∧
    (sin (128 - a) = sin (a - 1) ∧ (phase a % 64 = 0 → sin (128 - a) = sin a) ∧
      ((sin (128 - a)).toInt - (sin a).toInt).natAbs ≤ 2) ∧
    (cos (-a) = cos (a - 1) ∧ (phase a % 64 = 0 → cos (-a) = cos a) ∧
      ((cos (-a)).toInt - (cos a).toInt).natAbs ≤ 2) := by
  have hcos : cos (a - 1) = sin (a + 64 - 1) := congrArg sin (by grind)
  refine ⟨sin_add_turn a, sin_add_half a, sin_mirror (by grind),
    ⟨sin_half_sub a, fun h => ?_, ?_⟩, ⟨cos_neg a, fun h => ?_, ?_⟩⟩
  · rw [sin_half_sub, sin_sub_one_of_quarter h]
  · rw [sin_half_sub]
    exact sin_neighbour a
  · have hquarter : phase (a + 64) % 64 = 0 := by
      rw [phase_add, show phase 64 = 64 from rfl]
      omega
    rw [cos_neg, hcos, sin_sub_one_of_quarter hquarter]
    rfl
  · rw [cos_neg, hcos]
    exact sin_neighbour (a + 64)

theorem sine_symmetries_least :
    sin (-32768 + 128) = -sin (-32768) ∧ phase (-32768) % 64 = 0 ∧
      sin (128 - -32768) = sin (-32768) ∧ cos (- -32768) = cos (-32768) := by
  have h := sine_symmetries (-32768)
  exact ⟨h.2.1, rfl, h.2.2.2.1.2.1 rfl, h.2.2.2.2.2.1 rfl⟩

/-- One step before half a turn the wave is at zero already, one step after its start it is not; and
the cosine is not even. -/
theorem sine_not_mirrored :
    sin (128 - 1) = 0 ∧ sin 1 = 2 ∧ sin (128 - 1) ≠ sin 1 ∧
      cos (-5) = 64 ∧ cos 5 = 63 ∧ cos (-5) ≠ cos 5 := by
  decide +kernel

end TickMachine.Fixed
