import TickMachine.Image

/-!
# Patched images

A debugger writes to a segment byte by byte, after it has claimed the bytes it is going to write.
Here the same is said at once: `splice` puts a list of bytes in the place of as many others, and
`Image.patch` is the image after a write of which some data have come in.

* `getElem?_splice`   which bytes a splice changes;
* `Image.patch`   the image after a write;
* `Image.reserve_eq`   claiming bytes is the patch without data;
* `Image.reserve_patch`, `Image.poke_patch`   the next byte of a write leads to the next patch.
-/

namespace TickMachine

/-! ## bytes in the place of others -/

/-- The bytes `xs` with `data` in the place of those from `offset` on. -/
def splice (xs : Array UInt8) (offset : Nat) (data : List UInt8) : Array UInt8 :=
  xs.mapIdx fun i b => if offset ≤ i then data[i - offset]?.getD b else b

@[simp] theorem size_splice (xs : Array UInt8) (offset : Nat) (data : List UInt8) :
    (splice xs offset data).size = xs.size := by
  simp [splice]

/-- A splice changes the bytes from `offset` to `offset + data.length`, and no others. -/
theorem getElem?_splice (xs : Array UInt8) (offset : Nat) (data : List UInt8) (i : Nat) :
    (splice xs offset data)[i]? =
      if offset ≤ i ∧ i < offset + data.length ∧ i < xs.size then data[i - offset]?
      else xs[i]? := by
  by_cases hs : i < xs.size
  · rw [splice, Array.getElem?_mapIdx, Array.getElem?_eq_getElem hs]
    by_cases ho : offset ≤ i
    · by_cases hd : i < offset + data.length
      · have hlt : i - offset < data.length := by omega
        simp [ho, hd, hs, List.getElem?_eq_getElem hlt]
      · have hle : data.length ≤ i - offset := by omega
        simp [ho, hd, List.getElem?_eq_none hle]
    · simp [ho]
  · simp [hs]

@[simp] theorem splice_nil (xs : Array UInt8) (offset : Nat) : splice xs offset [] = xs := by
  apply Array.ext_getElem?
  intro i
  rw [getElem?_splice, if_neg]
  rw [List.length_nil]
  omega

theorem setIfInBounds_splice (xs : Array UInt8) (offset : Nat) (data : List UInt8) (b : UInt8) :
    (splice xs offset data).setIfInBounds (offset + data.length) b =
      splice xs offset (data ++ [b]) := by
  apply Array.ext_getElem?
  intro i
  rw [Array.getElem?_setIfInBounds, getElem?_splice, getElem?_splice, List.length_append,
    List.length_singleton, size_splice]
  by_cases hi : offset + data.length = i
  · subst hi
    by_cases hs : offset + data.length < xs.size
    · simp [hs]
    · simp [hs]
  · rw [if_neg hi]
    by_cases hd : offset ≤ i ∧ i < offset + data.length ∧ i < xs.size
    · rw [if_pos hd, if_pos ⟨hd.1, by omega, hd.2.2⟩, List.getElem?_append_left (by omega)]
    · rw [if_neg hd, if_neg (by omega)]

namespace Image

/-! ## the image after a write -/

/-- The image whose code reaches at least up to `stop`, as far as there is bytecode. -/
def lengthen (img : Image) (stop : Nat) : Image :=
  { img with
    length := max img.length (min stop img.bytecode.size)
    length_le := by
      have h := img.length_le
      omega }

/-- The image with `data` in the place of the bytes of a segment from `offset` on. -/
def overwrite (img : Image) (s : Segment) (offset : Nat) (data : List UInt8) : Image :=
  match s with
  | .bytecode =>
    { img with
      bytecode := splice img.bytecode offset data
      length_le := by simpa using img.length_le }
  | .routines => { img with routineBytes := splice img.routineBytes offset data }
  | .globals => { img with globalBytes := splice img.globalBytes offset data }

/-- The image after a write of `count` bytes at `offset`, of which `data` have come in: no more of
them are stored than were announced, and announced bytecode counts as code. -/
def patch (img : Image) (s : Segment) (offset count : Nat) (data : List UInt8) : Image :=
  (if s = .bytecode then img.lengthen (offset + count) else img).overwrite s offset
    (data.take count)

theorem segment_overwrite (img : Image) (s : Segment) (offset : Nat) (data : List UInt8) :
    (img.overwrite s offset data).segment s = splice (img.segment s) offset data := by
  cases s <;> rfl

theorem segment_overwrite_of_ne (img : Image) {s s' : Segment} (offset : Nat) (data : List UInt8)
    (h : s ≠ s') : (img.overwrite s offset data).segment s' = img.segment s' := by
  cases s <;> cases s' <;> first | rfl | exact absurd rfl h

@[simp] theorem length_overwrite (img : Image) (s : Segment) (offset : Nat) (data : List UInt8) :
    (img.overwrite s offset data).length = img.length := by
  cases s <;> rfl

@[simp] theorem segment_lengthen (img : Image) (stop : Nat) (s : Segment) :
    (img.lengthen stop).segment s = img.segment s := by
  cases s <;> rfl

@[simp] theorem overwrite_nil (img : Image) (s : Segment) (offset : Nat) :
    img.overwrite s offset [] = img := by
  cases s <;> simp [overwrite]

theorem poke_overwrite (img : Image) (s : Segment) (offset : Nat) (data : List UInt8)
    (b : UInt8) :
    (img.overwrite s offset data).poke s (offset + data.length) b =
      img.overwrite s offset (data ++ [b]) := by
  cases s <;> simp only [overwrite, poke, setIfInBounds_splice]

theorem segment_patch (img : Image) (s : Segment) (offset count : Nat) (data : List UInt8) :
    (img.patch s offset count data).segment s =
      splice (img.segment s) offset (data.take count) := by
  rw [patch, segment_overwrite]
  split <;> simp

theorem segment_patch_of_ne (img : Image) {s s' : Segment} (offset count : Nat)
    (data : List UInt8) (h : s ≠ s') :
    (img.patch s offset count data).segment s' = img.segment s' := by
  rw [patch, segment_overwrite_of_ne _ _ _ h]
  split <;> simp

@[simp] theorem size_segment_patch (img : Image) (s s' : Segment) (offset count : Nat)
    (data : List UInt8) :
    ((img.patch s offset count data).segment s').size = (img.segment s').size := by
  by_cases h : s = s'
  · subst h
    rw [segment_patch, size_splice]
  · rw [segment_patch_of_ne _ _ _ _ h]

theorem length_patch (img : Image) (s : Segment) (offset count : Nat) (data : List UInt8)
    (h : offset + count ≤ (img.segment s).size) :
    (img.patch s offset count data).length =
      if s = .bytecode then max img.length (offset + count) else img.length := by
  rw [patch, length_overwrite]
  by_cases hs : s = .bytecode
  · subst hs
    rw [if_pos rfl, if_pos rfl]
    exact congrArg (max img.length) (Nat.min_eq_left h)
  · rw [if_neg hs, if_neg hs]

/-! ## claiming and storing -/

theorem extend_eq_lengthen (img : Image) {stop : Nat} (h : stop ≤ img.bytecode.size) :
    img.extend stop = img.lengthen stop := by
  unfold extend lengthen
  split
  · next hs =>
    congr 1
    omega
  · next hs =>
    have hl : max img.length (min stop img.bytecode.size) = img.length := by omega
    simp only [hl]

theorem reserve_eq (img : Image) {s : Segment} {offset count : Nat}
    (h : offset + count ≤ (img.segment s).size) :
    img.reserve s offset count = .ok (img.patch s offset count []) := by
  rw [reserve, if_pos h, patch, List.take_nil, overwrite_nil]
  by_cases hs : s = .bytecode
  · subst hs
    rw [if_pos rfl, if_pos rfl, extend_eq_lengthen img h]
  · rw [if_neg hs, if_neg hs]

theorem reserve_refuses (img : Image) {s : Segment} {offset count : Nat}
    (h : (img.segment s).size < offset + count) :
    img.reserve s offset count = .error (.outOfBounds offset count (img.segment s).size) := by
  rw [reserve, if_neg (by omega)]

/-- The bytes a write has announced need not be claimed again one by one. -/
theorem reserve_patch (img : Image) {s : Segment} {offset count : Nat} {data : List UInt8}
    (h : offset + count ≤ (img.segment s).size) (hd : data.length < count) :
    (img.patch s offset count data).reserve s (offset + data.length) 1 =
      .ok (img.patch s offset count data) := by
  have hlen := length_patch img s offset count data h
  rw [reserve, if_pos (by rw [size_segment_patch]; omega)]
  by_cases hs : s = .bytecode
  · subst hs
    rw [if_pos rfl] at hlen
    rw [if_pos rfl, extend, dif_neg]
    rw [hlen]
    omega
  · rw [if_neg hs]

theorem poke_patch (img : Image) (s : Segment) (offset : Nat) {count : Nat} {data : List UInt8}
    (hd : data.length < count) (b : UInt8) :
    (img.patch s offset count data).poke s (offset + data.length) b =
      img.patch s offset count (data ++ [b]) := by
  rw [patch, patch, List.take_of_length_le (Nat.le_of_lt hd), poke_overwrite,
    List.take_of_length_le (by rw [List.length_append]; exact hd)]

/-- What comes beyond the announced bytes is not stored. -/
theorem patch_append_of_le (img : Image) (s : Segment) (offset : Nat) {count : Nat}
    {data : List UInt8} (hd : count ≤ data.length) (more : List UInt8) :
    img.patch s offset count (data ++ more) = img.patch s offset count data := by
  rw [patch, patch, List.take_append_of_le_length hd]

end Image
end TickMachine
