import TickMachine.Proofs.Overflows

/-!
# Files of assembled images

An assembler accepts as many routines and globals as can be told apart by one byte, and as much code
as there is.  The header of a file counts them with one byte each, and the code with two.  So the
limits differ by one for routines and globals, and for the code there is none: what was assembled
comes back from a file unless it is at one of these limits.

* `Assembler.Filled`   something is emitted after each declaration of a routine;
* `Assembler.Filled.rooted`   then every routine begins within the code;
* `Assembler.assembled_file_round_trip`   what was assembled comes back from a file if and only if
                       the header can hold its counts;
* `Assembler.globals_lost_in_file`   it may not.
-/

namespace TickMachine

/-! ## the parts of an image -/

namespace Image

section
variable (routines : List Routine) (globals : List Value) (code : List UInt8) (main : Nat)

theorem routineCount_ofParts :
    (ofParts routines globals code main).routineCount = routines.length := by
  show (routines.flatMap Routine.record).toArray.size / 4 = _
  rw [List.size_toArray, length_flatMap_record, Nat.mul_div_cancel_left _ (by decide)]

theorem globalCount_ofParts :
    (ofParts routines globals code main).globalCount = globals.length := by
  show (globals.flatMap Value.bytes).toArray.size / 2 = _
  rw [List.size_toArray, length_flatMap_bytes, Nat.mul_div_cancel_left _ (by decide)]

end

end Image

def Directive.isGlobal : Directive → Bool
  | .global _ => true
  | _ => false

namespace Assembler

/-- Something is emitted after each declaration of a routine. -/
def Filled : List Directive → Prop
  | [] => True
  | d :: ds => (d.isRoutine = true → ∃ e ∈ ds, e.emits = true) ∧ Filled ds

instance decidableFilled : (ds : List Directive) → Decidable (Filled ds)
  | [] => inferInstanceAs (Decidable True)
  | d :: ds =>
    have := decidableFilled ds
    inferInstanceAs (Decidable ((d.isRoutine = true → ∃ e ∈ ds, e.emits = true) ∧ Filled ds))

variable {a : Assembler} {d : Directive} {ds : List Directive}

/-! ## routines begin within the code -/

theorem here_le_applyAll (a : Assembler) (ds : List Directive) : a.here ≤ (a.applyAll ds).here := by
  induction ds generalizing a with
  | nil => exact Nat.le_refl _
  | cons d ds ih => exact Nat.le_trans (writes_apply a d).here_le (ih _)

theorem here_lt_applyAll (h : ∃ d ∈ ds, d.emits = true) : a.here < (a.applyAll ds).here := by
  induction ds generalizing a with
  | nil =>
    obtain ⟨d, hd, -⟩ := h
    cases hd
  | cons d ds ih =>
    obtain ⟨d', hd', hemits⟩ := h
    rcases List.mem_cons.mp hd' with rfl | hmem
    · rw [emits_eq d' a.here] at hemits
      obtain ⟨i, emission⟩ := Option.isSome_iff_exists.mp hemits
      have hhere := here_apply_of_emission emission
      have hpos := i.size_pos
      have hle := here_le_applyAll (a.apply d').1 ds
      show a.here < ((a.apply d').1.applyAll ds).here
      omega
    · exact Nat.lt_of_le_of_lt (writes_apply a d).here_le (ih ⟨d', hmem, hemits⟩)

theorem entry_le (here : Nat) {r : Routine} (h : d.routine? here = some r) :
    d.isRoutine = true ∧ r.entry.toNat ≤ here := by
  cases d with
  | routine argc locals =>
    cases h
    refine ⟨rfl, ?_⟩
    dsimp only
    split
    · next hlt => exact Nat.le_of_eq (UInt16.toNat_ofNat_of_lt' hlt)
    · exact Nat.zero_le _
  | _ => cases h

/-- A routine that is declared begins where the code ends, and the code goes on from there. -/
theorem Filled.rooted (filled : Filled ds)
    (old : ∀ (i : Nat) r, a.routines[i]? = some r → r.entry.toNat < (a.applyAll ds).here) :
    ∀ (i : Nat) r, (a.applyAll ds).routines[i]? = some r →
      r.entry.toNat < (a.applyAll ds).here := by
  induction ds generalizing a with
  | nil => exact old
  | cons d ds ih =>
    refine ih filled.2 fun i r hr => ?_
    rw [(obeys_apply a d).routines] at hr
    cases hnew : d.routine? a.here with
    | none =>
      rw [hnew] at hr
      exact old i r hr
    | some r' =>
      rw [hnew] at hr
      rcases getElem?_push_cases hr with hold | ⟨-, rfl⟩
      · exact old i r hold
      · obtain ⟨hroutine, hentry⟩ := entry_le a.here hnew
        calc r.entry.toNat ≤ a.here := hentry
          _ ≤ (a.apply d).1.here := (writes_apply a d).here_le
          _ < ((a.apply d).1.applyAll ds).here := here_lt_applyAll (filled.1 hroutine)

/-! ## what an assembler accepts -/

theorem isSome_global? (d : Directive) : d.global?.isSome = d.isGlobal := by
  cases d <;> rfl

theorem size_globals_applyAll (a : Assembler) (ds : List Directive) :
    (a.applyAll ds).globals.size = a.globals.size + ds.countP Directive.isGlobal := by
  induction ds generalizing a with
  | nil => rfl
  | cons d ds ih =>
    show ((a.apply d).1.applyAll ds).globals.size = _
    rw [ih, (obeys_apply a d).globals, size_declared, isSome_global?, List.countP_cons]
    omega

theorem size_globals (ds : List Directive) :
    (applyAll {} ds).globals.size = ds.countP Directive.isGlobal :=
  (size_globals_applyAll {} ds).trans (Nat.zero_add _)

theorem globals_le_applyAll (h : a.globals.size ≤ 256) (ok : (a.applyAll ds).error = none) :
    (a.applyAll ds).globals.size ≤ 256 := by
  induction ds generalizing a with
  | nil => exact h
  | cons d ds ih =>
    refine ih ?_ ok
    have hfits := fits_of_applyAll ok
    rw [(obeys_apply a d).globals]
    cases d with
    | global v =>
      have hlt : a.globals.size < 256 := by simpa [Directive.overflow?] using hfits
      show (a.globals.push v).size ≤ 256
      rw [Array.size_push]
      exact hlt
    | _ => exact h

theorem accepted_counts {main : Nat} {img : Image} (h : (applyAll {} ds).finish main = .ok img) :
    ds.countP Directive.isRoutine ≤ 256 ∧ ds.countP Directive.isGlobal ≤ 256 := by
  have hnone := (finish_eq_ok h).1
  rw [← size_routines, ← size_globals]
  refine ⟨Nat.le_of_not_lt fun hmany => ?_, globals_le_applyAll (Nat.zero_le _) hnone⟩
  have hfailed : (applyAll {} ds).finish main = .error _ :=
    finish_eq_error_iff.mpr (.inr ⟨hnone, hmany, rfl⟩)
  cases h.symm.trans hfailed

theorem finished_counts {main : Nat} {img : Image} (h : (applyAll {} ds).finish main = .ok img) :
    img.routineCount = ds.countP Directive.isRoutine ∧
      img.globalCount = ds.countP Directive.isGlobal ∧ img.length = (applyAll {} ds).here := by
  obtain ⟨-, rfl⟩ := finish_eq_ok h
  refine ⟨?_, ?_, rfl⟩
  · rw [Image.routineCount_ofParts, Array.length_toList, size_routines]
  · rw [Image.globalCount_ofParts, Array.length_toList, size_globals]

theorem Filled.finished {main : Nat} {img : Image} (filled : Filled ds)
    (h : (applyAll {} ds).finish main = .ok img) : img.Rooted := by
  have hroot := filled.rooted (a := {}) fun i r hr => by cases hr
  obtain ⟨-, rfl⟩ := finish_eq_ok h
  intro i r hr
  rw [Image.routine?_ofParts, Array.getElem?_toList] at hr
  exact hroot i r hr

/-- **Files of assembled images.**  Let something be emitted after each declaration of a routine,
and let the main routine exist.  Then what an assembler accepts comes back from being written and
read with the same routines, globals, code and main routine, unless there are 256 routines or 256
globals, or more than 65535 bytes of code: then it does not. -/
theorem assembled_file_round_trip {main : Nat} {img : Image} (filled : Filled ds)
    (hmain : main < ds.countP Directive.isRoutine)
    (h : (applyAll {} ds).finish main = .ok img) :
    (∃ img', Image.ofBytes img.toBytes = .ok img' ∧ img.Same img') ↔
      ds.countP Directive.isRoutine ≠ 256 ∧ ds.countP Directive.isGlobal ≠ 256 ∧
        (applyAll {} ds).here ≤ 65535 := by
  obtain ⟨hroutines, hglobals⟩ := accepted_counts h
  obtain ⟨hn, hg, hl⟩ := finished_counts h
  constructor
  · rintro ⟨img', hread, hsame⟩
    have hfits := (Image.fits_of_same hread hsame).1
    have := hfits.routines
    have := hfits.globals
    have := hfits.length
    omega
  · rintro ⟨hn', hg', hl'⟩
    have hfits : img.Fits := ⟨by omega, by omega, by omega⟩
    have hrooted := filled.finished h
    obtain ⟨-, rfl⟩ := finish_eq_ok h
    refine ⟨_, Image.ofBytes_toBytes ?_ hfits (hn ▸ hmain) hrooted, Image.same_trimmed _⟩
    exact (Image.Obtainable.ofParts ..).aligned

def crowd (n : Nat) : List Directive :=
  List.replicate n (.global 7) ++ [.routine 0 0, .zero, .ret 1]

theorem assembled_file_round_trip_crowd :
    Filled (crowd 255) ∧ 0 < (crowd 255).countP Directive.isRoutine ∧
    ∃ img, (applyAll {} (crowd 255)).finish 0 = .ok img ∧
      ∃ img', Image.ofBytes img.toBytes = .ok img' ∧ img.Same img' := by
  have hfilled : Filled (crowd 255) := by decide +kernel
  have hmain : 0 < (crowd 255).countP Directive.isRoutine := by decide +kernel
  have hsome : ((applyAll {} (crowd 255)).finish 0).toOption.isSome = true := by decide +kernel
  obtain ⟨img, himg⟩ := Option.isSome_iff_exists.mp hsome
  have hdone := ok_of_toOption himg
  refine ⟨hfilled, hmain, img, hdone, ?_⟩
  exact (assembled_file_round_trip hfilled hmain hdone).mpr (by decide +kernel)

/-- With one more global a file says that there are none, so their bytes are taken for the code. -/
theorem globals_lost_in_file : Filled (crowd 256) ∧ 0 < (crowd 256).countP Directive.isRoutine ∧
    ∃ img img', (applyAll {} (crowd 256)).finish 0 = .ok img ∧
      Image.ofBytes img.toBytes = .ok img' ∧ img.code = [0x01, 0x0D, 1] ∧ img'.code = [7, 0, 7] ∧
      ¬ ∃ img', Image.ofBytes img.toBytes = .ok img' ∧ img.Same img' := by
  have hcomputed : (((applyAll {} (crowd 256)).finish 0).toOption.bind fun img =>
      (Image.ofBytes img.toBytes).toOption.map fun img' => (img.code, img'.code)) =
        some ([0x01, 0x0D, 1], [7, 0, 7]) := by
    decide +kernel
  obtain ⟨img, hdone, hrest⟩ := Option.bind_eq_some_iff.mp hcomputed
  obtain ⟨img', hread, hcodes⟩ := Option.map_eq_some_iff.mp hrest
  obtain ⟨hcode, hcode'⟩ := Prod.mk.inj hcodes
  refine ⟨by decide +kernel, by decide +kernel, img, img', ok_of_toOption hdone,
    ok_of_toOption hread, hcode, hcode', ?_⟩
  rintro ⟨other, hother, hsame⟩
  cases (ok_of_toOption hread).symm.trans hother
  have hequal := hsame.code
  rw [hcode, hcode'] at hequal
  exact absurd hequal (by decide)

end Assembler
end TickMachine
