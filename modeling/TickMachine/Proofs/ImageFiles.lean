import TickMachine.Image.File
import TickMachine.Proofs.Views

/-!
# Reading and writing image files

The header of an image file has one byte for each count and two for the length of the code, and
writing keeps of every number what fits its field.  So an image survives being written and read
exactly if all its numbers fit, and if reading would accept it.

* `Image.ofBytes_eq_ok_iff`   which files are read, and what they hold;
* `Image.Obtainable`   the images there are, whatever was written into them;
* `Image.Obtainable.aligned`   their tables hold whole records;
* `Image.file_round_trip`   writing what was read gives the file without its padding, and reading
                       what was written gives the image if and only if everything fits.
-/

namespace TickMachine

/-! ## what may fail -/

section
variable {ε α β : Type}

theorem ok_bind (a : α) (f : α → Except ε β) : (Except.ok a >>= f) = f a := rfl

theorem error_bind (e : ε) (f : α → Except ε β) : (Except.error e >>= f) = Except.error e := rfl

theorem bind_eq_ok_iff {x : Except ε α} {f : α → Except ε β} {b : β} :
    x >>= f = .ok b ↔ ∃ a, x = .ok a ∧ f a = .ok b := by
  cases x with
  | ok a =>
    rw [ok_bind]
    simp
  | error e =>
    rw [error_bind]
    simp

theorem ok_of_toOption {x : Except ε α} {a : α} (h : x.toOption = some a) : x = .ok a := by
  cases x with
  | error e => cases h
  | ok a' => exact congrArg _ (Option.some.inj h)

end

namespace Image

/-! ## reading -/

/-- Every routine begins within the code. -/
def Rooted (img : Image) : Prop := ∀ i r, img.routine? i = some r → r.entry.toNat < img.length

theorem firstStray?_eq_none_iff {img : Image} : img.firstStray? = none ↔ img.Rooted := by
  unfold firstStray? Rooted
  rw [List.findSome?_eq_none_iff]
  constructor
  · intro h i r hr
    have hi := h i (List.mem_range.mpr (lt_routineCount hr))
    rw [hr] at hi
    dsimp only at hi
    split at hi
    · cases hi
    · omega
  · intro h i _
    cases hr : img.routine? i with
    | none => rfl
    | some r =>
      dsimp only
      rw [if_neg (Nat.not_le.mpr (h i r hr))]

theorem cut_eq_ok_iff {bytes xs : List UInt8} {offset len : Nat} {part : Part} :
    cut bytes offset len part = .ok xs ↔
      offset + len ≤ bytes.length ∧ xs = (bytes.drop offset).take len := by
  unfold cut
  split
  · next h => simp [h, eq_comm]
  · next h => simp [h]

/-- The image in a file whose header announces `n` routines, `g` globals and `length` bytes of
code, `rest` being what follows the header. -/
def content (n g main : UInt8) (length : UInt16) (rest : List UInt8) : Image :=
  ofSegments (rest.take (4 * n.toNat)) ((rest.drop (4 * n.toNat)).take (2 * g.toNat))
    ((rest.drop (4 * n.toNat + 2 * g.toNat)).take length.toNat) main.toNat

theorem checked_eq_ok_iff {made img : Image} {n main : Nat} {e : LoadError}
    {stray : Nat → Nat → LoadError} :
    ((if n ≤ main then do
        throw e
        match made.firstStray? with
        | some (i, entry) => throw (stray i entry)
        | none => pure made
      else
        match made.firstStray? with
        | some (i, entry) => throw (stray i entry)
        | none => pure made) : Except LoadError Image) = .ok img ↔
      main < n ∧ img = made ∧ made.Rooted := by
  rw [← firstStray?_eq_none_iff]
  by_cases hm : n ≤ main
  · rw [if_pos hm]
    show Except.error e = .ok img ↔ _
    constructor
    · intro h
      cases h
    · intro h
      omega
  · rw [if_neg hm]
    cases hs : made.firstStray? with
    | some x =>
      show Except.error (stray x.1 x.2) = .ok img ↔ _
      simp
    | none =>
      show Except.ok made = .ok img ↔ _
      simp [Nat.lt_of_not_le hm, eq_comm]

theorem ofBytes_header_eq_ok_iff {l₀ l₁ n g main p₀ p₁ p₂ : UInt8} {rest : List UInt8}
    {img : Image} :
    ofBytes (l₀ :: l₁ :: n :: g :: main :: p₀ :: p₁ :: p₂ :: rest) = .ok img ↔
      4 * n.toNat + 2 * g.toNat + (word l₀ l₁).toNat ≤ rest.length ∧
      main.toNat < n.toNat ∧ img = content n g main (word l₀ l₁) rest ∧ img.Rooted := by
  have hdrop : ∀ k, (l₀ :: l₁ :: n :: g :: main :: p₀ :: p₁ :: p₂ :: rest).drop (8 + k) =
      rest.drop k := by
    intro k
    rw [Nat.add_comm]
    rfl
  have hlen : (l₀ :: l₁ :: n :: g :: main :: p₀ :: p₁ :: p₂ :: rest).length =
      8 + rest.length := Nat.add_comm rest.length 8
  have hcut : cut (l₀ :: l₁ :: n :: g :: main :: p₀ :: p₁ :: p₂ :: rest) 0 8 .header =
      .ok [l₀, l₁, n, g, main, p₀, p₁, p₂] := by
    rw [cut_eq_ok_iff, hlen]
    exact ⟨by omega, rfl⟩
  unfold ofBytes content
  simp only [bind_eq_ok_iff, headerSize, Routine.recordSize, hcut, Except.ok.injEq,
    exists_eq_left', List.getD_cons_zero, List.getD_cons_succ, cut_eq_ok_iff, hlen,
    Nat.add_assoc 8, hdrop]
  rw [Nat.mul_comm 4, Nat.mul_comm 2]
  constructor
  · rintro ⟨_, ⟨-, rfl⟩, _, ⟨-, rfl⟩, _, ⟨hfit, rfl⟩, h⟩
    obtain ⟨hmain, rfl, hrooted⟩ := checked_eq_ok_iff.mp h
    exact ⟨by omega, hmain, rfl, hrooted⟩
  · rintro ⟨hfit, hmain, rfl, hrooted⟩
    exact ⟨_, ⟨by omega, rfl⟩, _, ⟨by omega, rfl⟩, _, ⟨by omega, rfl⟩,
      checked_eq_ok_iff.mpr ⟨hmain, rfl, hrooted⟩⟩

theorem ofBytes_eq_ok_iff {bytes : List UInt8} {img : Image} :
    ofBytes bytes = .ok img ↔ ∃ l₀ l₁ n g main p₀ p₁ p₂ rest,
      bytes = l₀ :: l₁ :: n :: g :: main :: p₀ :: p₁ :: p₂ :: rest ∧
      4 * n.toNat + 2 * g.toNat + (word l₀ l₁).toNat ≤ rest.length ∧
      main.toNat < n.toNat ∧ img = content n g main (word l₀ l₁) rest ∧ img.Rooted := by
  constructor
  · intro h
    have h8 : 0 + 8 ≤ bytes.length := by
      unfold ofBytes at h
      obtain ⟨_, hcut, -⟩ := bind_eq_ok_iff.mp h
      exact (cut_eq_ok_iff.mp hcut).1
    match bytes, h8 with
    | l₀ :: l₁ :: n :: g :: main :: p₀ :: p₁ :: p₂ :: rest, _ =>
      exact ⟨l₀, l₁, n, g, main, p₀, p₁, p₂, rest, rfl, ofBytes_header_eq_ok_iff.mp h⟩
  · rintro ⟨l₀, l₁, n, g, main, p₀, p₁, p₂, rest, rfl, h⟩
    exact ofBytes_header_eq_ok_iff.mpr h

section
variable {n g main : UInt8} {length : UInt16} {rest : List UInt8}

theorem routineCount_content
    (h : 4 * n.toNat + 2 * g.toNat + length.toNat ≤ rest.length) :
    (content n g main length rest).routineCount = n.toNat := by
  show (rest.take (4 * n.toNat)).toArray.size / 4 = _
  rw [List.size_toArray, List.length_take]
  omega

theorem globalCount_content
    (h : 4 * n.toNat + 2 * g.toNat + length.toNat ≤ rest.length) :
    (content n g main length rest).globalCount = g.toNat := by
  show ((rest.drop (4 * n.toNat)).take (2 * g.toNat)).toArray.size / 2 = _
  rw [List.size_toArray, List.length_take, List.length_drop]
  omega

theorem length_content
    (h : 4 * n.toNat + 2 * g.toNat + length.toNat ≤ rest.length) :
    (content n g main length rest).length = length.toNat := by
  show ((rest.drop (4 * n.toNat + 2 * g.toNat)).take length.toNat).length = _
  rw [List.length_take, List.length_drop]
  omega

theorem code_ofSegments (rs gs code : List UInt8) (main : Nat) :
    (ofSegments rs gs code main).code = code := by
  show code.toArray.toList.take code.length = code
  rw [List.toList_toArray, List.take_length]

theorem segments_content :
    (content n g main length rest).routineBytes.toList ++
        (content n g main length rest).globalBytes.toList ++ (content n g main length rest).code =
      rest.take (4 * n.toNat + 2 * g.toNat + length.toNat) := by
  show rest.take (4 * n.toNat) ++ (rest.drop (4 * n.toNat)).take (2 * g.toNat) ++
    (ofSegments _ _ _ _).code = _
  rw [code_ofSegments, List.take_add, List.take_add]

end

/-! ## the images there are -/

/-- The images that can be made: of parts, from a file, or blank for a debugger, and then changed
by writing globals and by writing into claimed bytes of a segment. -/
inductive Obtainable : Image → Prop where
  | ofParts (routines : List Routine) (globals : List Value) (code : List UInt8) (main : Nat) :
    Obtainable (ofParts routines globals code main)
  | ofBytes {bytes : List UInt8} {img : Image} (read : ofBytes bytes = .ok img) : Obtainable img
  | blank : Obtainable blank
  | setGlobal {img img' : Image} {i : Nat} {v : Value} (before : Obtainable img)
    (done : img.setGlobal? i v = some img') : Obtainable img'
  | write {img img' : Image} {s : Segment} {offset len : Nat} {data : List UInt8}
    (before : Obtainable img) (claimed : img.reserve s offset len = .ok img')
    (within : data.length ≤ len) : Obtainable (img'.pokeAll s offset data)

/-- The tables of an image hold whole records and whole values. -/
structure Aligned (img : Image) : Prop where
  routines : 4 ∣ (img.segment .routines).size
  globals : 2 ∣ (img.segment .globals).size

theorem Aligned.congr {img img' : Image}
    (h : ∀ s, (img'.segment s).size = (img.segment s).size) (ha : img.Aligned) : img'.Aligned where
  routines := by rw [h]; exact ha.routines
  globals := by rw [h]; exact ha.globals

theorem size_segment_pokeAll (img : Image) (s s' : Segment) (i : Nat) (data : List UInt8) :
    ((img.pokeAll s i data).segment s').size = (img.segment s').size := by
  induction data generalizing img i with
  | nil => rfl
  | cons b bs ih =>
    show (((img.poke s i b).pokeAll s (i + 1) bs).segment s').size = _
    rw [ih]
    by_cases h : s = s'
    · subst h
      rw [segment_poke, Array.size_setIfInBounds]
    · rw [segment_poke_of_ne _ _ _ h]

theorem length_flatMap_record (routines : List Routine) :
    (routines.flatMap Routine.record).length = 4 * routines.length := by
  induction routines with
  | nil => rfl
  | cons r rs ih =>
    rw [List.flatMap_cons, List.length_append, ih, List.length_cons]
    show 4 + _ = _
    omega

theorem length_flatMap_bytes (values : List Value) :
    (values.flatMap Value.bytes).length = 2 * values.length := by
  induction values with
  | nil => rfl
  | cons v vs ih =>
    rw [List.flatMap_cons, List.length_append, ih, List.length_cons]
    show 2 + _ = _
    omega

theorem size_segment_setGlobal (img : Image) (i : Nat) (v : Value) (s : Segment) :
    ((img.setGlobal i v).segment s).size = (img.segment s).size := by
  cases s with
  | bytecode => rfl
  | routines => rfl
  | globals =>
    show ((img.globalBytes.setIfInBounds _ _).setIfInBounds _ _).size = img.globalBytes.size
    rw [Array.size_setIfInBounds, Array.size_setIfInBounds]

theorem Obtainable.aligned {img : Image} (h : img.Obtainable) : img.Aligned := by
  induction h with
  | ofParts routines globals code main =>
    refine ⟨?_, ?_⟩
    · show 4 ∣ (routines.flatMap Routine.record).toArray.size
      rw [List.size_toArray, length_flatMap_record]
      exact Nat.dvd_mul_right ..
    · show 2 ∣ (globals.flatMap Value.bytes).toArray.size
      rw [List.size_toArray, length_flatMap_bytes]
      exact Nat.dvd_mul_right ..
  | ofBytes read =>
    obtain ⟨l₀, l₁, n, g, main, p₀, p₁, p₂, rest, -, hfit, -, rfl, -⟩ := ofBytes_eq_ok_iff.mp read
    refine ⟨?_, ?_⟩
    · show 4 ∣ (rest.take (4 * n.toNat)).toArray.size
      rw [List.size_toArray, List.length_take]
      omega
    · show 2 ∣ ((rest.drop (4 * n.toNat)).take (2 * g.toNat)).toArray.size
      rw [List.size_toArray, List.length_take, List.length_drop]
      omega
  | blank =>
    refine ⟨?_, ?_⟩
    · show 4 ∣ (Array.replicate 1024 (0 : UInt8)).size
      rw [Array.size_replicate]
      decide
    · show 2 ∣ (Array.replicate 1024 (0 : UInt8)).size
      rw [Array.size_replicate]
      decide
  | @setGlobal img img' i v before done ih =>
    obtain ⟨-, rfl⟩ := setGlobal?_eq_some_iff.mp done
    exact ih.congr (size_segment_setGlobal img i v)
  | write before claimed within ih =>
    refine ih.congr fun s => ?_
    rw [size_segment_pokeAll, segment_reserve claimed]

/-! ## there and back -/

theorem toBytes_eq (img : Image) :
    img.toBytes = lowByte (UInt16.ofNat img.length) :: highByte (UInt16.ofNat img.length) ::
      UInt8.ofNat img.routineCount :: UInt8.ofNat img.globalCount :: UInt8.ofNat img.main ::
      0 :: 0 :: 0 :: (img.routineBytes.toList ++ img.globalBytes.toList ++ img.code) := by
  simp [toBytes, header]

/-- A file that was read is written as it was, up to its end and with empty padding. -/
theorem toBytes_of_ofBytes {bytes : List UInt8} {img : Image} (h : ofBytes bytes = .ok img) :
    img.toBytes = (((bytes.take (8 + 4 * img.routineCount + 2 * img.globalCount +
      img.length)).set 5 0).set 6 0).set 7 0 := by
  obtain ⟨l₀, l₁, n, g, main, p₀, p₁, p₂, rest, rfl, hfit, -, rfl, -⟩ := ofBytes_eq_ok_iff.mp h
  rw [toBytes_eq, segments_content, routineCount_content hfit, globalCount_content hfit,
    length_content hfit]
  have hmain : (content n g main (word l₀ l₁) rest).main = main.toNat := rfl
  have hsum : 8 + 4 * n.toNat + 2 * g.toNat + (word l₀ l₁).toNat =
      4 * n.toNat + 2 * g.toNat + (word l₀ l₁).toNat + 8 := by omega
  rw [hmain, hsum, UInt16.ofNat_toNat, UInt8.ofNat_toNat, UInt8.ofNat_toNat, UInt8.ofNat_toNat,
    lowByte_word, highByte_word]
  rfl

/-- All numbers of an image fit the fields of a header. -/
structure Fits (img : Image) : Prop where
  routines : img.routineCount ≤ 255
  globals : img.globalCount ≤ 255
  length : img.length ≤ 65535

/-- The same program: the same routines, globals and code, and the same main routine. -/
structure Same (img img' : Image) : Prop where
  routine : ∀ i, img'.routine? i = img.routine? i
  global : ∀ i, img'.global? i = img.global? i
  code : img'.code = img.code
  main : img'.main = img.main

theorem Same.length {img img' : Image} (h : img.Same img') : img'.length = img.length := by
  rw [← length_code, ← length_code, h.code]

/-- The image with the segments of `img` and no bytecode beyond the code. -/
def trimmed (img : Image) : Image :=
  ofSegments img.routineBytes.toList img.globalBytes.toList img.code img.main

theorem same_trimmed (img : Image) : img.Same img.trimmed where
  routine i := by simp [routine?, trimmed, ofSegments]
  global i := by simp [global?, trimmed, ofSegments]
  code := code_ofSegments _ _ _ _
  main := rfl

theorem ofBytes_toBytes {img : Image} (ha : img.Aligned) (hf : img.Fits)
    (hm : img.main < img.routineCount) (hr : img.Rooted) :
    ofBytes img.toBytes = .ok img.trimmed := by
  have hR : 4 * img.routineCount = img.routineBytes.size := by
    unfold routineCount Routine.recordSize
    exact Nat.mul_div_cancel' ha.routines
  have hG : 2 * img.globalCount = img.globalBytes.size := by
    unfold globalCount
    exact Nat.mul_div_cancel' ha.globals
  have hn : (UInt8.ofNat img.routineCount).toNat = img.routineCount := by
    have := hf.routines
    rw [UInt8.toNat_ofNat']
    omega
  have hg : (UInt8.ofNat img.globalCount).toNat = img.globalCount := by
    have := hf.globals
    rw [UInt8.toNat_ofNat']
    omega
  have hmain : (UInt8.ofNat img.main).toNat = img.main := by
    have := hf.routines
    rw [UInt8.toNat_ofNat']
    omega
  have hl : (UInt16.ofNat img.length).toNat = img.length := by
    have := hf.length
    rw [UInt16.toNat_ofNat']
    omega
  rw [toBytes_eq, ofBytes_header_eq_ok_iff, word_lowByte_highByte, hn, hg, hmain, hl, hR, hG]
  refine ⟨?_, hm, ?_, ?_⟩
  · simp only [List.length_append, Array.length_toList, length_code, Nat.le_refl]
  · unfold content trimmed
    rw [hn, hg, hmain, hl, hR, hG]
    congr 1
    · simp
    · simp
    · rw [List.drop_left' (by simp), List.take_of_length_le (by simp)]
  · intro i r hi
    rw [(same_trimmed img).length]
    rw [(same_trimmed img).routine] at hi
    exact hr i r hi

theorem fits_of_same {img img' : Image} (h : ofBytes img.toBytes = .ok img') (hs : img.Same img') :
    img.Fits ∧ img.main < img.routineCount ∧ img.Rooted := by
  obtain ⟨l₀, l₁, n, g, main, p₀, p₁, p₂, rest, -, hfit, hmain, rfl, hrooted⟩ :=
    ofBytes_eq_ok_iff.mp h
  have hn := routineCount_of_routine? hs.routine
  have hg := globalCount_of_global? hs.global
  have hl := hs.length
  rw [routineCount_content hfit] at hn
  rw [globalCount_content hfit] at hg
  rw [length_content hfit] at hl
  refine ⟨⟨?_, ?_, ?_⟩, ?_, ?_⟩
  · have := n.toNat_lt
    omega
  · have := g.toNat_lt
    omega
  · have := (word l₀ l₁).toNat_lt
    omega
  · rw [← hn, ← hs.main]
    exact hmain
  · intro i r hi
    rw [← hs.routine] at hi
    have := hrooted i r hi
    rwa [hs.length] at this

/-- **Image files, there and back.**  An image that was read from a file is written as that file
was, up to where the code ends and with empty padding.  And of the images there are, exactly those
come back from being written and read with the same routines, globals, code and main routine that
have at most 255 routines and globals and 65535 bytes of code, whose main routine exists, and whose
routines all begin within the code. -/
theorem file_round_trip :
    (∀ (bytes : List UInt8) (img : Image), ofBytes bytes = .ok img →
      img.toBytes = (((bytes.take (8 + 4 * img.routineCount + 2 * img.globalCount +
        img.length)).set 5 0).set 6 0).set 7 0) ∧
    (∀ img : Image, img.Obtainable →
      ((∃ img', ofBytes img.toBytes = .ok img' ∧ (∀ i, img'.routine? i = img.routine? i) ∧
          (∀ i, img'.global? i = img.global? i) ∧ img'.code = img.code ∧ img'.main = img.main) ↔
        img.routineCount ≤ 255 ∧ img.globalCount ≤ 255 ∧ img.length ≤ 65535 ∧
          img.main < img.routineCount ∧
          ∀ i r, img.routine? i = some r → r.entry.toNat < img.length)) := by
  refine ⟨fun bytes img => toBytes_of_ofBytes, fun img hobt => ⟨?_, ?_⟩⟩
  · rintro ⟨img', hread, hr, hg, hc, hm⟩
    obtain ⟨hf, hmain, hrooted⟩ := fits_of_same hread ⟨hr, hg, hc, hm⟩
    exact ⟨hf.routines, hf.globals, hf.length, hmain, hrooted⟩
  · rintro ⟨hn, hg, hl, hm, hrooted⟩
    have hsame := same_trimmed img
    exact ⟨img.trimmed, ofBytes_toBytes hobt.aligned ⟨hn, hg, hl⟩ hm hrooted, hsame.routine,
      hsame.global, hsame.code, hsame.main⟩

/-- A file with something in its padding, and a byte after its end. -/
def padded : List UInt8 :=
  [3, 0, 2, 1, 1, 9, 9, 9, 0, 1, 0, 0, 2, 0, 2, 0, 0xFE, 0xFF, 0x01, 0x0D, 0x01, 7]

theorem file_round_trip_padded :
    ∃ img, ofBytes padded = .ok img ∧
      img.toBytes =
        [3, 0, 2, 1, 1, 0, 0, 0, 0, 1, 0, 0, 2, 0, 2, 0, 0xFE, 0xFF, 0x01, 0x0D, 0x01] ∧
      ∃ img', ofBytes img.toBytes = .ok img' ∧ (∀ i, img'.routine? i = img.routine? i) ∧
        (∀ i, img'.global? i = img.global? i) ∧ img'.code = img.code ∧ img'.main = img.main := by
  have hrooted : (content 2 1 1 3 (padded.drop 8)).Rooted :=
    firstStray?_eq_none_iff.mp (by decide)
  have h : ofBytes padded = .ok (content 2 1 1 3 (padded.drop 8)) :=
    ofBytes_header_eq_ok_iff.mpr ⟨by decide, by decide, rfl, hrooted⟩
  refine ⟨_, h, file_round_trip.1 _ _ h, (file_round_trip.2 _ (.ofBytes h)).mpr ?_⟩
  exact ⟨by decide, by decide, by decide, by decide, hrooted⟩

end Image
end TickMachine
