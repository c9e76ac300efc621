import TickMachine.Proofs.Confinement

/-!
# Indices of 64 bits

The tables of an image are bytes, and a routine or a global is found at a multiple of its index.  On
a machine the index and the multiple are words of 64 bits, and each of the accessors guards its
arithmetic in a way of its own: reading checks a product and a sum, writing a global checks the
product and leaves room for the sum, and claiming a window checks a sum and compares it with the
size.  For every index and every window, also where the byte offset would overflow, the guarded
accessors do what the plain ones do with numbers of any size.

* `checkedAdd`, `checkedMul`   arithmetic that tells of its overflow;
* `Indexed.record?`, `Indexed.record?_eq_some_iff`   the bytes of a record, and where they are;
* `Indexed.routine?_eq`, `Indexed.global?_eq`, `Indexed.setGlobal_eq`, `Indexed.claim_eq`   each
                       guarded accessor is the plain one;
* `Edit`, `Edit.grown_foldl`   writing globals and bytes, in any order;
* `Image.views_agree`   the typed and the byte view of every image, after any edits.
-/

namespace TickMachine

/-! ## words that may overflow -/

/-- The word `w`, if the number that it was computed for is one. -/
def checked (n : Nat) (w : UInt64) : Option UInt64 := if n < UInt64.size then some w else none

def checkedAdd (a b : UInt64) : Option UInt64 := checked (a.toNat + b.toNat) (a + b)

def checkedMul (a b : UInt64) : Option UInt64 := checked (a.toNat * b.toNat) (a * b)

theorem checked_eq_some_iff {n : Nat} {w c : UInt64} (hw : w.toNat = n % UInt64.size) :
    checked n w = some c ↔ c.toNat = n := by
  unfold checked
  split
  · next hlt =>
    rw [Option.some_inj, ← UInt64.toNat_inj, hw, Nat.mod_eq_of_lt hlt]
    exact eq_comm
  · next hlt => exact ⟨nofun, fun h => absurd (h ▸ c.toNat_lt) hlt⟩

theorem checkedAdd_eq_some_iff {a b c : UInt64} :
    checkedAdd a b = some c ↔ c.toNat = a.toNat + b.toNat :=
  checked_eq_some_iff (UInt64.toNat_add a b)

theorem checkedMul_eq_some_iff {a b c : UInt64} :
    checkedMul a b = some c ↔ c.toNat = a.toNat * b.toNat :=
  checked_eq_some_iff (UInt64.toNat_mul a b)

theorem exists_toNat {n : Nat} (h : n < UInt64.size) : ∃ a : UInt64, a.toNat = n :=
  ⟨UInt64.ofNat n, UInt64.toNat_ofNat_of_lt' h⟩

def lastIndex : UInt64 := 0xFFFFFFFFFFFFFFFF

/-! ## bytes in a row -/

/-- The bytes from `start` to `stop`, if these are in order and within `xs`. -/
def slice? (xs : Array UInt8) (start stop : UInt64) : Option (List UInt8) :=
  if start ≤ stop ∧ stop.toNat ≤ xs.size then
    some (xs.extract start.toNat stop.toNat).toList
  else
    none

theorem slice?_eq_some_iff {xs : Array UInt8} {start stop : UInt64} {bytes : List UInt8} {n : Nat}
    (h : stop.toNat = start.toNat + n) :
    slice? xs start stop = some bytes ↔
      start.toNat + n ≤ xs.size ∧ (xs.extract start.toNat (start.toNat + n)).toList = bytes := by
  have hle : start ≤ stop := UInt64.le_iff_toNat_le.mpr (by omega)
  unfold slice?
  rw [h]
  split
  · next hfit => simp only [Option.some_inj, hfit.2, true_and]
  · next hfit => exact ⟨nofun, fun hb => absurd ⟨hle, hb.1⟩ hfit⟩

namespace Image

variable {img : Image} {i : Nat}

theorem getElem?_window (img : Image) (s : Segment) (offset len k : Nat) :
    (img.window s offset len)[k]? = if k < len then (img.segment s)[offset + k]? else none := by
  unfold window
  rw [Array.getElem?_toList, Array.getElem?_extract]
  grind

theorem window_eq_iff {s : Segment} {offset len : Nat} {bytes : List UInt8}
    (h : bytes.length = len) :
    img.window s offset len = bytes ↔ ∀ k < len, (img.segment s)[offset + k]? = bytes[k]? := by
  rw [List.ext_getElem?_iff]
  constructor
  · intro heq k hk
    rw [← heq, getElem?_window, if_pos hk]
  · intro heq k
    rw [getElem?_window]
    split
    · next hk => exact heq k hk
    · next hk => exact (List.getElem?_eq_none (by omega)).symm

theorem global?_eq_some_iff_window {v : Value} :
    img.global? i = some v ↔
      ∃ lo hi, img.window .globals (2 * i) 2 = [lo, hi] ∧ Value.ofBytes lo hi = v := by
  have hbytes : ∀ lo hi, img.window .globals (2 * i) 2 = [lo, hi] ↔
      img.globalBytes[2 * i]? = some lo ∧ img.globalBytes[2 * i + 1]? = some hi := by
    intro lo hi
    rw [window_eq_iff (show [lo, hi].length = 2 from rfl)]
    refine ⟨fun h => ⟨h 0 (by decide), h 1 (by decide)⟩, fun h k hk => ?_⟩
    match k, hk with
    | 0, _ => exact h.1
    | 1, _ => exact h.2
  simp only [global?_eq_some_iff, hbytes, and_assoc]

theorem routine?_eq_some_iff_window {r : Routine} :
    img.routine? i = some r ↔
      ∃ argc locals lo hi, img.window .routines (4 * i) 4 = [argc, locals, lo, hi] ∧
        Routine.ofRecord argc locals lo hi = r := by
  have hbytes : ∀ argc locals lo hi, img.window .routines (4 * i) 4 = [argc, locals, lo, hi] ↔
      img.routineBytes[4 * i]? = some argc ∧ img.routineBytes[4 * i + 1]? = some locals ∧
        img.routineBytes[4 * i + 2]? = some lo ∧ img.routineBytes[4 * i + 3]? = some hi := by
    intro argc locals lo hi
    rw [window_eq_iff (show [argc, locals, lo, hi].length = 4 from rfl)]
    refine ⟨fun h => ⟨h 0 (by decide), h 1 (by decide), h 2 (by decide), h 3 (by decide)⟩,
      fun h k hk => ?_⟩
    match k, hk with
    | 0, _ => exact h.1
    | 1, _ => exact h.2.1
    | 2, _ => exact h.2.2.1
    | 3, _ => exact h.2.2.2
  simp only [routine?_eq_some_iff, hbytes, and_assoc]

theorem isSome_global? : (img.global? i).isSome ↔ i < img.globalCount := by
  rw [Option.isSome_iff_exists]
  exact ⟨fun ⟨_, hv⟩ => lt_globalCount hv, exists_global?⟩

theorem isSome_routine? : (img.routine? i).isSome ↔ i < img.routineCount := by
  rw [Option.isSome_iff_exists]
  exact ⟨fun ⟨_, hr⟩ => lt_routineCount hr, exists_routine?⟩

theorem isSome_setGlobal? {v : Value} : (img.setGlobal? i v).isSome ↔ i < img.globalCount := by
  rw [Option.isSome_iff_exists]
  exact ⟨fun ⟨_, hs⟩ => (setGlobal?_eq_some_iff.mp hs).1,
    fun hi => ⟨_, setGlobal?_eq_some_iff.mpr ⟨hi, rfl⟩⟩⟩

end Image

/-! ## guarded accessors -/

namespace Indexed

/-- The bytes of record `i` in a table whose records have `size` bytes. -/
def record? (xs : Array UInt8) (size i : UInt64) : Option (List UInt8) := do
  let start ← checkedMul i size
  slice? xs start (← checkedAdd start size)

def routine? (img : Image) (i : UInt64) : Option Routine := do
  match ← record? (img.segment .routines) 4 i with
  | [argc, locals, lo, hi] => some (.ofRecord argc locals lo hi)
  | _ => none

def global? (img : Image) (i : UInt64) : Option Value := do
  match ← record? (img.segment .globals) 2 i with
  | [lo, hi] => some (.ofBytes lo hi)
  | _ => none

/-- Where global `i` begins.  There is room for two more. -/
def globalStart? (i : UInt64) : Option UInt64 :=
  (checkedMul i 2).filter (· < lastIndex - 1)

/-- Write global `i`, and tell whether there is one. -/
def setGlobal (img : Image) (i : UInt64) (v : Value) : Bool × Image :=
  match globalStart? i with
  | none => (false, img)
  | some start =>
    match slice? (img.segment .globals) start (start + 2) with
    | some _ => (true, img.pokeAll .globals start.toNat v.bytes)
    | none => (false, img)

/-- Where `len` bytes from `offset` on end, if that is not beyond `size`. -/
def stop? (offset len : UInt64) (size : Nat) : Option UInt64 :=
  (checkedAdd offset len).filter (·.toNat ≤ size)

/-- Claim `len` bytes of a segment from `offset` on, and tell where they end. -/
def claim (img : Image) (s : Segment) (offset len : UInt64) : Except Refusal UInt64 × Image :=
  match stop? offset len (img.segment s).size with
  | none => (.error (.outOfBounds offset.toNat len.toNat (img.segment s).size), img)
  | some stop => (.ok stop, if s = .bytecode then img.extend stop.toNat else img)

/-- Records lie side by side, and none that is within the table is missed. -/
theorem record?_eq_some_iff {xs : Array UInt8} (hsize : xs.size < UInt64.size) {size i : UInt64}
    {bytes : List UInt8} :
    record? xs size i = some bytes ↔ bytes.length = size.toNat ∧
      (xs.extract (size.toNat * i.toNat) (size.toNat * i.toNat + size.toNat)).toList = bytes := by
  have hrecord : record? xs size i = some bytes ↔ ∃ start, start.toNat = size.toNat * i.toNat ∧
      ∃ stop, stop.toNat = start.toNat + size.toNat ∧ slice? xs start stop = some bytes := by
    simp only [record?, Option.bind_eq_bind, Option.bind_eq_some_iff, checkedMul_eq_some_iff,
      checkedAdd_eq_some_iff, Nat.mul_comm i.toNat]
  rw [hrecord]
  constructor
  · rintro ⟨start, hstart, stop, hstop, hslice⟩
    obtain ⟨hfit, hbytes⟩ := (slice?_eq_some_iff hstop).mp hslice
    rw [hstart] at hfit hbytes
    refine ⟨?_, hbytes⟩
    rw [← hbytes, Array.length_toList, Array.size_extract]
    omega
  · rintro ⟨hlen, hbytes⟩
    have hfit : size.toNat * i.toNat + size.toNat ≤ xs.size := by
      rw [← hbytes, Array.length_toList, Array.size_extract] at hlen
      by_cases hzero : size.toNat = 0
      · rw [hzero, Nat.zero_mul]
        exact Nat.zero_le _
      · omega
    obtain ⟨start, hstart⟩ := exists_toNat (n := size.toNat * i.toNat) (by omega)
    obtain ⟨stop, hstop⟩ := exists_toNat (n := start.toNat + size.toNat) (by omega)
    rw [← hstart] at hfit hbytes
    exact ⟨start, hstart, stop, hstop, (slice?_eq_some_iff hstop).mpr ⟨hfit, hbytes⟩⟩

variable {img : Image}

theorem routine?_eq (h : (img.segment .routines).size < UInt64.size) (i : UInt64) :
    routine? img i = img.routine? i.toNat := by
  ext r
  rw [Image.routine?_eq_some_iff_window]
  unfold routine?
  simp only [Option.bind_eq_bind, Option.bind_eq_some_iff, record?_eq_some_iff h]
  constructor
  · rintro ⟨bytes, ⟨-, hwindow⟩, hr⟩
    split at hr
    · exact ⟨_, _, _, _, hwindow, Option.some_inj.mp hr⟩
    · cases hr
  · rintro ⟨argc, locals, lo, hi, hwindow, rfl⟩
    exact ⟨_, ⟨rfl, hwindow⟩, rfl⟩

theorem global?_eq (h : (img.segment .globals).size < UInt64.size) (i : UInt64) :
    global? img i = img.global? i.toNat := by
  ext v
  rw [Image.global?_eq_some_iff_window]
  unfold global?
  simp only [Option.bind_eq_bind, Option.bind_eq_some_iff, record?_eq_some_iff h]
  constructor
  · rintro ⟨bytes, ⟨-, hwindow⟩, hv⟩
    split at hv
    · exact ⟨_, _, hwindow, Option.some_inj.mp hv⟩
    · cases hv
  · rintro ⟨lo, hi, hwindow, rfl⟩
    exact ⟨_, ⟨rfl, hwindow⟩, rfl⟩

theorem globalStart?_eq_some_iff {i start : UInt64} :
    globalStart? i = some start ↔ start.toNat = 2 * i.toNat ∧ start.toNat + 2 < UInt64.size := by
  have hroom : start < lastIndex - 1 ↔ start.toNat + 2 < UInt64.size := by
    rw [UInt64.lt_iff_toNat_lt]
    show start.toNat < 18446744073709551614 ↔ start.toNat + 2 < 18446744073709551616
    omega
  unfold globalStart?
  rw [Option.filter_eq_some_iff, checkedMul_eq_some_iff, decide_eq_true_iff, hroom, Nat.mul_comm]
  rfl

/-- The sum that is not checked does not overflow. -/
theorem toNat_add_two {start : UInt64} (h : start.toNat + 2 < UInt64.size) :
    (start + 2).toNat = start.toNat + 2 := by
  rw [UInt64.toNat_add]
  exact Nat.mod_eq_of_lt h

theorem setGlobal_eq (h : (img.segment .globals).size < UInt64.size) (i : UInt64) (v : Value) :
    setGlobal img i v =
      match img.setGlobal? i.toNat v with
      | some img' => (true, img')
      | none => (false, img) := by
  have hcount : i.toNat < img.globalCount ↔ 2 * i.toNat + 2 ≤ (img.segment .globals).size := by
    show i.toNat < img.globalBytes.size / 2 ↔ 2 * i.toNat + 2 ≤ img.globalBytes.size
    omega
  unfold setGlobal Image.setGlobal?
  cases hs : globalStart? i with
  | none =>
    have hi : ¬ i.toNat < img.globalCount := by
      intro hi
      have hfit := hcount.mp hi
      obtain ⟨start, hstart⟩ := exists_toNat (n := 2 * i.toNat) (by omega)
      rw [globalStart?_eq_some_iff.mpr ⟨hstart, by omega⟩] at hs
      cases hs
    rw [if_neg hi]
  | some start =>
    obtain ⟨hstart, hroom⟩ := globalStart?_eq_some_iff.mp hs
    dsimp only
    cases hslice : slice? (img.segment .globals) start (start + 2) with
    | none =>
      have hi : ¬ i.toNat < img.globalCount := by
        intro hi
        have hfit := hcount.mp hi
        rw [← hstart] at hfit
        rw [(slice?_eq_some_iff (toNat_add_two hroom)).mpr ⟨hfit, rfl⟩] at hslice
        cases hslice
      rw [if_neg hi]
    | some bytes =>
      obtain ⟨hfit, -⟩ := (slice?_eq_some_iff (toNat_add_two hroom)).mp hslice
      rw [hstart] at hfit ⊢
      rw [if_pos (hcount.mpr hfit)]
      rfl

theorem stop?_eq_some_iff {offset len stop : UInt64} {size : Nat} :
    stop? offset len size = some stop ↔
      stop.toNat = offset.toNat + len.toNat ∧ stop.toNat ≤ size := by
  unfold stop?
  rw [Option.filter_eq_some_iff, checkedAdd_eq_some_iff, decide_eq_true_iff]

theorem claim_eq {s : Segment} (h : (img.segment s).size < UInt64.size) (offset len : UInt64) :
    claim img s offset len =
      match img.reserve s offset.toNat len.toNat with
      | .ok img' => (.ok (offset + len), img')
      | .error why => (.error why, img) := by
  unfold claim Image.reserve
  cases hs : stop? offset len (img.segment s).size with
  | none =>
    have hout : ¬ offset.toNat + len.toNat ≤ (img.segment s).size := by
      intro hfit
      obtain ⟨stop, hstop⟩ := exists_toNat (Nat.lt_of_le_of_lt hfit h)
      rw [stop?_eq_some_iff.mpr ⟨hstop, hstop ▸ hfit⟩] at hs
      cases hs
    rw [if_neg hout]
  | some stop =>
    obtain ⟨hstop, hfit⟩ := stop?_eq_some_iff.mp hs
    have hword : stop = offset + len := by
      rw [← UInt64.toNat_inj, UInt64.toNat_add, ← hstop]
      exact (Nat.mod_eq_of_lt stop.toNat_lt).symm
    rw [← hstop, if_pos hfit, hword]

end Indexed

/-! ## edits -/

theorem Image.grown_pokeAll (img : Image) (s : Segment) (i : Nat) (data : List UInt8) :
    img.Grown (img.pokeAll s i data) := by
  induction data generalizing img i with
  | nil => exact .refl _
  | cons b bs ih => exact (grown_poke img s i b).trans (ih (img.poke s i b) (i + 1))

/-- A write through the typed or through the byte view. -/
inductive Edit where
  | setGlobal (i : UInt64) (v : Value)
  /-- Claim a window, and fill it from the left. -/
  | write (s : Segment) (offset len : UInt64) (data : List UInt8)

namespace Edit

/-- The image after an edit, which changes nothing if it is refused. -/
def apply (img : Image) : Edit → Image
  | setGlobal i v => (img.setGlobal? i.toNat v).getD img
  | write s offset len data =>
    match img.reserve s offset.toNat len.toNat with
    | .ok img' => img'.pokeAll s offset.toNat (data.take len.toNat)
    | .error _ => img

def applyIndexed (img : Image) : Edit → Image
  | setGlobal i v => (Indexed.setGlobal img i v).2
  | write s offset len data =>
    match Indexed.claim img s offset len with
    | (.ok _, img') => img'.pokeAll s offset.toNat (data.take len.toNat)
    | (.error _, img') => img'

theorem grown_apply (img : Image) (e : Edit) : img.Grown (e.apply img) := by
  cases e with
  | setGlobal i v =>
    show img.Grown ((img.setGlobal? i.toNat v).getD img)
    cases hs : img.setGlobal? i.toNat v with
    | none => exact .refl _
    | some img' =>
      obtain ⟨-, rfl⟩ := Image.setGlobal?_eq_some_iff.mp hs
      exact Image.grown_setGlobal _ _ _
  | write s offset len data =>
    unfold apply
    dsimp only
    cases hr : img.reserve s offset.toNat len.toNat with
    | error why => exact .refl _
    | ok img' => exact (Image.grown_reserve hr).trans (Image.grown_pokeAll _ _ _ _)

theorem grown_foldl (img : Image) (edits : List Edit) : img.Grown (edits.foldl apply img) := by
  induction edits generalizing img with
  | nil => exact .refl _
  | cons e edits ih => exact (grown_apply img e).trans (ih _)

theorem applyIndexed_eq {img : Image} (h : ∀ s, (img.segment s).size < UInt64.size) (e : Edit) :
    e.applyIndexed img = e.apply img := by
  cases e with
  | setGlobal i v =>
    show (Indexed.setGlobal img i v).2 = (img.setGlobal? i.toNat v).getD img
    rw [Indexed.setGlobal_eq (h .globals)]
    cases img.setGlobal? i.toNat v <;> rfl
  | write s offset len data =>
    unfold applyIndexed apply
    dsimp only
    rw [Indexed.claim_eq (h s)]
    cases img.reserve s offset.toNat len.toNat <;> rfl

theorem foldl_applyIndexed {img : Image} (h : ∀ s, (img.segment s).size < UInt64.size)
    (edits : List Edit) : edits.foldl applyIndexed img = edits.foldl apply img := by
  induction edits generalizing img with
  | nil => rfl
  | cons e edits ih =>
    rw [List.foldl_cons, List.foldl_cons, applyIndexed_eq h]
    exact ih fun s => (grown_apply img e).size s ▸ h s

end Edit

namespace Image

/-- **The two views of an image agree.**  Take any image after any edits, and any index.  There is a
global if the index is less than their number, and then, and only then, it can be written; and it
is the value of its two bytes in the segment.  Of routines the same holds for reading.  What was
written is read, and the other globals are as before.  The guarded accessors, on segments that words
can index, do all of this as the plain ones do: they make the same image of the edits, and find,
write and claim the same.  Where they refuse, for what reason ever, the image is the same. -/
theorem views_agree (img₀ : Image) (edits : List Edit) (i : UInt64) :
    let img := edits.foldl Edit.apply img₀
    img₀.Grown img ∧
    ((img.global? i.toNat).isSome ↔ i.toNat < img.globalCount) ∧
    (∀ v, (img.setGlobal? i.toNat v).isSome ↔ i.toNat < img.globalCount) ∧
    (∀ v, img.global? i.toNat = some v ↔
      ∃ lo hi, img.window .globals (2 * i.toNat) 2 = [lo, hi] ∧ Value.ofBytes lo hi = v) ∧
    ((img.routine? i.toNat).isSome ↔ i.toNat < img.routineCount) ∧
    (∀ r, img.routine? i.toNat = some r ↔
      ∃ argc locals lo hi, img.window .routines (4 * i.toNat) 4 = [argc, locals, lo, hi] ∧
        Routine.ofRecord argc locals lo hi = r) ∧
    (∀ v img', img.setGlobal? i.toNat v = some img' →
      ∀ j, img'.global? j = if j = i.toNat then some v else img.global? j) ∧
    ((∀ s, (img₀.segment s).size < UInt64.size) →
      edits.foldl Edit.applyIndexed img₀ = img ∧
      Indexed.global? img i = img.global? i.toNat ∧
      Indexed.routine? img i = img.routine? i.toNat ∧
      (∀ v, Indexed.setGlobal img i v =
        match img.setGlobal? i.toNat v with
        | some img' => (true, img')
        | none => (false, img)) ∧
      ∀ s offset len, Indexed.claim img s offset len =
        match img.reserve s offset.toNat len.toNat with
        | .ok img' => (.ok (offset + len), img')
        | .error why => (.error why, img)) := by
  intro img
  have hgrown : img₀.Grown img := Edit.grown_foldl img₀ edits
  refine ⟨hgrown, isSome_global?, fun _ => isSome_setGlobal?, fun _ => global?_eq_some_iff_window,
    isSome_routine?, fun _ => routine?_eq_some_iff_window, fun v img' hs j => ?_, fun hsize => ?_⟩
  · obtain ⟨hi, rfl⟩ := setGlobal?_eq_some_iff.mp hs
    exact global?_setGlobal img v hi j
  · have hsize' : ∀ s, (img.segment s).size < UInt64.size := fun s => hgrown.size s ▸ hsize s
    exact ⟨Edit.foldl_applyIndexed hsize edits, Indexed.global?_eq (hsize' .globals) i,
      Indexed.routine?_eq (hsize' .routines) i, Indexed.setGlobal_eq (hsize' .globals) i,
      fun s => Indexed.claim_eq (hsize' s)⟩

/-- Twice this index is where the first global is, and two bytes from the last index on end at
byte 1, if words wrap.  The guards refuse both. -/
theorem views_agree_wrapping :
    let img₀ := ofParts [⟨0, 0, 0⟩] [7] [0x0D, 0x00] 0
    let edits := [Edit.setGlobal 0 9, .write .globals 1 1 [2], .write .bytecode lastIndex 2 [1]]
    let img := edits.foldl Edit.apply img₀
    let i : UInt64 := 0x8000000000000000
    i * 2 = 0 ∧ img.window .globals 0 2 = [9, 2] ∧ lastIndex + 2 = 1 ∧
      Indexed.global? img i = none ∧ Indexed.setGlobal img i 5 = (false, img) ∧
      Indexed.claim img .bytecode lastIndex 2 =
        (.error (.outOfBounds 18446744073709551615 2 2), img) := by
  intro img₀ edits img i
  have hsize : ∀ s, (img₀.segment s).size < UInt64.size := by
    intro s
    cases s <;> decide
  obtain ⟨-, -, -, -, -, -, -, hguarded⟩ := views_agree img₀ edits i
  obtain ⟨-, hglobal, -, hset, hclaim⟩ := hguarded hsize
  have hnone : img.setGlobal? i.toNat 5 = none := if_neg (by decide +kernel)
  have hcapacity : (img.segment .bytecode).size = 2 := by decide +kernel
  have hbeyond : (img.segment .bytecode).size < lastIndex.toNat + (2 : UInt64).toNat := by
    decide +kernel
  refine ⟨by decide, by decide +kernel, by decide, hglobal.trans (by decide +kernel),
    (hset 5).trans ?_, (hclaim .bytecode lastIndex 2).trans ?_⟩
  · rw [hnone]
  · rw [reserve_refuses img hbeyond, hcapacity]
    rfl

end Image
end TickMachine
