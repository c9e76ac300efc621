import TickMachine.Proofs.Sound

/-!
# Routines and globals in their bytes

The typed view of an image is read off its bytes.  So two images that agree on bytes agree on
the routines and globals stored in them, and writing a global changes no other.

* `Image.lt_globalCount`, `Image.exists_global?`   which globals there are;
* `Image.global?_setGlobal`   reading after writing;
* `Image.routineCount_of_routine?`, `Image.globalCount_of_global?`   images with the same routines
                       and globals have as many of them;
* `Image.routine?_of_agree`, `Image.global?_of_agree`   what is stored in the same bytes is the
                       same;
* `Image.routine?_ofParts`, `Image.global?_ofParts`   an image has the routines and globals that it
                       was made of.
-/

namespace TickMachine

namespace Image

variable {img host : Image}

theorem global?_eq_some_iff {i : Nat} {v : Value} :
    img.global? i = some v ↔ ∃ lo hi, img.globalBytes[2 * i]? = some lo ∧
      img.globalBytes[2 * i + 1]? = some hi ∧ Value.ofBytes lo hi = v := by
  simp [global?, Option.bind_eq_some_iff]

theorem lt_globalCount {i : Nat} {v : Value} (h : img.global? i = some v) :
    i < img.globalCount := by
  obtain ⟨lo, hi, -, h1, -⟩ := global?_eq_some_iff.mp h
  obtain ⟨hlt, -⟩ := Array.getElem?_eq_some_iff.mp h1
  unfold globalCount
  omega

theorem exists_global? {i : Nat} (h : i < img.globalCount) : ∃ v, img.global? i = some v := by
  unfold globalCount at h
  have h0 : 2 * i < img.globalBytes.size := by omega
  have h1 : 2 * i + 1 < img.globalBytes.size := by omega
  exact ⟨_, global?_eq_some_iff.mpr
    ⟨_, _, Array.getElem?_eq_getElem h0, Array.getElem?_eq_getElem h1, rfl⟩⟩

theorem global?_setGlobal_of_ne (img : Image) {i j : Nat} (v : Value) (h : i ≠ j) :
    (img.setGlobal i v).global? j = img.global? j := by
  have h00 : 2 * i ≠ 2 * j := by omega
  have h01 : 2 * i ≠ 2 * j + 1 := by omega
  have h10 : 2 * i + 1 ≠ 2 * j := by omega
  simp [global?, setGlobal, h00, h01, h10]

theorem global?_setGlobal (img : Image) {i : Nat} (v : Value) (h : i < img.globalCount) (j : Nat) :
    (img.setGlobal i v).global? j = if j = i then some v else img.global? j := by
  by_cases hj : j = i
  · subst hj
    rw [if_pos rfl, global?_setGlobal_self img j v h]
  · rw [if_neg hj, global?_setGlobal_of_ne img v (Ne.symm hj)]

/-! ## as many as there are -/

theorem routineCount_le_of_routine?
    (h : ∀ i r, img.routine? i = some r → ∃ r', host.routine? i = some r') :
    img.routineCount ≤ host.routineCount := by
  apply Nat.le_of_not_lt
  intro hlt
  obtain ⟨r, hr⟩ := exists_routine? hlt
  obtain ⟨r', hr'⟩ := h _ r hr
  exact absurd (lt_routineCount hr') (Nat.lt_irrefl _)

theorem globalCount_le_of_global?
    (h : ∀ i v, img.global? i = some v → ∃ v', host.global? i = some v') :
    img.globalCount ≤ host.globalCount := by
  apply Nat.le_of_not_lt
  intro hlt
  obtain ⟨v, hv⟩ := exists_global? hlt
  obtain ⟨v', hv'⟩ := h _ v hv
  exact absurd (lt_globalCount hv') (Nat.lt_irrefl _)

theorem routineCount_of_routine? (h : ∀ i, img.routine? i = host.routine? i) :
    img.routineCount = host.routineCount := by
  apply Nat.le_antisymm
  · exact routineCount_le_of_routine? fun i r hr => ⟨r, by rw [← h i, hr]⟩
  · exact routineCount_le_of_routine? fun i r hr => ⟨r, by rw [h i, hr]⟩

theorem globalCount_of_global? (h : ∀ i, img.global? i = host.global? i) :
    img.globalCount = host.globalCount := by
  apply Nat.le_antisymm
  · exact globalCount_le_of_global? fun i v hv => ⟨v, by rw [← h i, hv]⟩
  · exact globalCount_le_of_global? fun i v hv => ⟨v, by rw [h i, hv]⟩

/-! ## the same bytes -/

theorem routine?_of_agree
    (h : ∀ (k : Nat) (b : UInt8), img.routineBytes[k]? = some b → host.routineBytes[k]? = some b)
    {i : Nat} {r : Routine} (hr : img.routine? i = some r) : host.routine? i = some r := by
  obtain ⟨a, l, lo, hi, h0, h1, h2, h3, rfl⟩ := routine?_eq_some_iff.mp hr
  exact routine?_eq_some_iff.mpr ⟨a, l, lo, hi, h _ _ h0, h _ _ h1, h _ _ h2, h _ _ h3, rfl⟩

theorem global?_of_agree
    (h : ∀ (k : Nat) (b : UInt8), img.globalBytes[k]? = some b → host.globalBytes[k]? = some b)
    {i : Nat} {v : Value} (hv : img.global? i = some v) : host.global? i = some v := by
  obtain ⟨lo, hi, h0, h1, rfl⟩ := global?_eq_some_iff.mp hv
  exact global?_eq_some_iff.mpr ⟨lo, hi, h _ _ h0, h _ _ h1, rfl⟩

/-! ## the parts of an image -/

/-- Pieces of the same length, one after the other. -/
theorem getElem?_flatMap_of_length {α β : Type} {f : α → List β} {n : Nat}
    (hf : ∀ x, (f x).length = n) (xs : List α) (k : Nat) {m : Nat} (hm : m < n) :
    (xs.flatMap f)[n * k + m]? = xs[k]?.bind fun x => (f x)[m]? := by
  induction xs generalizing k with
  | nil => rfl
  | cons x xs ih =>
    rw [List.flatMap_cons]
    cases k with
    | zero =>
      rw [Nat.mul_zero, Nat.zero_add, List.getElem?_append_left (by rw [hf]; exact hm)]
      rfl
    | succ k =>
      have hnext : n * (k + 1) + m = n + (n * k + m) := by rw [Nat.mul_succ]; omega
      rw [hnext, List.getElem?_append_right (by rw [hf]; omega), hf, Nat.add_sub_cancel_left,
        List.getElem?_cons_succ, ih]

theorem routine?_ofParts (routines : List Routine) (globals : List Value) (code : List UInt8)
    (main k : Nat) : (ofParts routines globals code main).routine? k = routines[k]? := by
  have hbyte : ∀ m < 4, (routines.flatMap Routine.record).toArray[4 * k + m]? =
      routines[k]?.bind fun r => r.record[m]? := by
    intro m hm
    rw [List.getElem?_toArray]
    exact getElem?_flatMap_of_length Routine.length_record routines k hm
  show (do
    let argc ← (routines.flatMap Routine.record).toArray[4 * k + 0]?
    let locals ← (routines.flatMap Routine.record).toArray[4 * k + 1]?
    let lo ← (routines.flatMap Routine.record).toArray[4 * k + 2]?
    let hi ← (routines.flatMap Routine.record).toArray[4 * k + 3]?
    return Routine.ofRecord argc locals lo hi) = _
  rw [hbyte 0 (by decide), hbyte 1 (by decide), hbyte 2 (by decide), hbyte 3 (by decide)]
  cases routines[k]? with
  | none => rfl
  | some r => exact congrArg some r.ofRecord_record

theorem global?_ofParts (routines : List Routine) (globals : List Value) (code : List UInt8)
    (main k : Nat) : (ofParts routines globals code main).global? k = globals[k]? := by
  have hbyte : ∀ m < 2, (globals.flatMap Value.bytes).toArray[2 * k + m]? =
      globals[k]?.bind fun v => v.bytes[m]? := by
    intro m hm
    have hlength : ∀ v : Value, v.bytes.length = 2 := fun _ => rfl
    rw [List.getElem?_toArray]
    exact getElem?_flatMap_of_length hlength globals k hm
  show (do
    let lo ← (globals.flatMap Value.bytes).toArray[2 * k + 0]?
    let hi ← (globals.flatMap Value.bytes).toArray[2 * k + 1]?
    return Value.ofBytes lo hi) = _
  rw [hbyte 0 (by decide), hbyte 1 (by decide)]
  cases globals[k]? with
  | none => rfl
  | some v => exact congrArg some v.ofBytes_lo_hi

end Image
end TickMachine
