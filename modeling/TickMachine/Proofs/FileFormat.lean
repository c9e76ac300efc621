import Mathlib.Data.List.GetD
import Mathlib.Data.Nat.Find
import TickMachine.Proofs.ImageFiles

/-!
# The format of image files

A file is read exactly if it has the format of an image file, and what is read from it are the
records, values and bytes at the places where the format puts them.  A file that is not read is
refused for the first thing that is wrong with it.

* `Heading`   the numbers that the header of a file announces, and where they put its parts;
* `Image.recordAt`, `Image.valueAt`   the records and values at their places in a file;
* `Image.FirstFlaw`   the first check that a file fails, with the error it is refused with;
* `Image.ofBytes_of_whole`   reading a file that has all its parts;
* `Image.error_of_firstFlaw`, `Image.firstFlaw_or_wellFormed`   a flaw is reported, and a file
                       without one is well-formed;
* `Image.ofBytes_decides_format`   which files are read, what they hold, and why others are not.
-/

namespace TickMachine

structure Heading where
  length : Nat
  routines : Nat
  globals : Nat
  main : Nat

namespace Heading

/-- The length of the code stands in the first two bytes, low byte first; then come the numbers of
routines and globals and the main routine, in one byte each. -/
def ofFile (file : List UInt8) : Heading where
  length := (file.getD 0 0).toNat + 256 * (file.getD 1 0).toNat
  routines := (file.getD 2 0).toNat
  globals := (file.getD 3 0).toNat
  main := (file.getD 4 0).toNat

def globalsAt (h : Heading) : Nat := 8 + 4 * h.routines

def codeAt (h : Heading) : Nat := h.globalsAt + 2 * h.globals

/-- Where the file ends; what comes after that is ignored. -/
def stop (h : Heading) : Nat := h.codeAt + h.length

end Heading

namespace Image

variable {file : List UInt8}

/-! ## the parts of a file -/

def recordAt (file : List UInt8) (i : Nat) : Routine :=
  .ofRecord (file.getD (8 + 4 * i) 0) (file.getD (8 + 4 * i + 1) 0)
    (file.getD (8 + 4 * i + 2) 0) (file.getD (8 + 4 * i + 3) 0)

def valueAt (file : List UInt8) (i : Nat) : Value :=
  .ofBytes (file.getD ((Heading.ofFile file).globalsAt + 2 * i) 0)
    (file.getD ((Heading.ofFile file).globalsAt + 2 * i + 1) 0)

/-- The image of the parts of a file, whether or not it would be read. -/
def stored (file : List UInt8) : Image :=
  let h := Heading.ofFile file
  ofSegments ((file.drop 8).take (4 * h.routines)) ((file.drop h.globalsAt).take (2 * h.globals))
    ((file.drop h.codeAt).take h.length) h.main

theorem getElem?_part {offset len k : Nat} (hk : k < len) (h : offset + len ≤ file.length) :
    ((file.drop offset).take len).toArray[k]? = some (file.getD (offset + k) 0) := by
  have hlt : offset + k < file.length := by omega
  rw [List.getElem?_toArray, List.getElem?_take, if_pos hk, List.getElem?_drop,
    List.getElem?_eq_getElem hlt, List.getD_eq_getElem _ _ hlt]

theorem routineCount_stored (h : (Heading.ofFile file).stop ≤ file.length) :
    (stored file).routineCount = (Heading.ofFile file).routines := by
  unfold Heading.stop Heading.codeAt Heading.globalsAt at h
  show ((file.drop 8).take (4 * (Heading.ofFile file).routines)).toArray.size / 4 = _
  rw [List.size_toArray, List.length_take, List.length_drop]
  omega

theorem globalCount_stored (h : (Heading.ofFile file).stop ≤ file.length) :
    (stored file).globalCount = (Heading.ofFile file).globals := by
  unfold Heading.stop Heading.codeAt at h
  show ((file.drop _).take (2 * (Heading.ofFile file).globals)).toArray.size / 2 = _
  rw [List.size_toArray, List.length_take, List.length_drop]
  omega

theorem length_stored (h : (Heading.ofFile file).stop ≤ file.length) :
    (stored file).length = (Heading.ofFile file).length := by
  unfold Heading.stop at h
  show ((file.drop _).take (Heading.ofFile file).length).length = _
  rw [List.length_take, List.length_drop]
  omega

theorem routine?_stored (h : (Heading.ofFile file).stop ≤ file.length) (i : Nat) :
    (stored file).routine? i =
      if i < (Heading.ofFile file).routines then some (recordAt file i) else none := by
  by_cases hi : i < (Heading.ofFile file).routines
  · have hpart : 8 + 4 * (Heading.ofFile file).routines ≤ file.length := by
      unfold Heading.stop Heading.codeAt Heading.globalsAt at h
      omega
    rw [if_pos hi, routine?_eq_some_iff]
    exact ⟨_, _, _, _, getElem?_part (by omega) hpart, getElem?_part (by omega) hpart,
      getElem?_part (by omega) hpart, getElem?_part (by omega) hpart, rfl⟩
  · rw [if_neg hi, Option.eq_none_iff_forall_ne_some]
    intro r hr
    have hlt := lt_routineCount hr
    rw [routineCount_stored h] at hlt
    exact hi hlt

theorem global?_stored (h : (Heading.ofFile file).stop ≤ file.length) (i : Nat) :
    (stored file).global? i =
      if i < (Heading.ofFile file).globals then some (valueAt file i) else none := by
  by_cases hi : i < (Heading.ofFile file).globals
  · have hpart : (Heading.ofFile file).globalsAt + 2 * (Heading.ofFile file).globals ≤
        file.length := by
      unfold Heading.stop Heading.codeAt at h
      omega
    rw [if_pos hi, global?_eq_some_iff]
    exact ⟨_, _, getElem?_part (by omega) hpart, getElem?_part (by omega) hpart, rfl⟩
  · rw [if_neg hi, Option.eq_none_iff_forall_ne_some]
    intro v hv
    have hlt := lt_globalCount hv
    rw [globalCount_stored h] at hlt
    exact hi hlt

/-! ## reading a file -/

theorem cut_of_le {offset len : Nat} {part : Part} (h : offset + len ≤ file.length) :
    cut file offset len part = .ok ((file.drop offset).take len) := if_pos h

theorem cut_of_lt {offset len : Nat} {part : Part} (h : file.length < offset + len) :
    cut file offset len part = .error (.truncated part len (file.length - offset)) :=
  if_neg (Nat.not_le.mpr h)

/-- Reading goes by the numbers of the heading, once the header is there. -/
theorem ofBytes_of_header (h : 8 ≤ file.length) :
    let hd := Heading.ofFile file
    ofBytes file = do
      let routines ← cut file 8 (hd.routines * 4) .routines
      let globals ← cut file (8 + hd.routines * 4) (hd.globals * 2) .globals
      let code ← cut file (8 + hd.routines * 4 + hd.globals * 2) hd.length .code
      if hd.routines ≤ hd.main then
        throw (.mainOutOfRange hd.main hd.routines)
      match (ofSegments routines globals code hd.main).firstStray? with
      | some (i, entry) => throw (.routineOutOfBounds i entry hd.length)
      | none => return ofSegments routines globals code hd.main := by
  have hget : ∀ k < 8, (List.take 8 (List.drop 0 file)).getD k 0 = file.getD k 0 := by
    intro k hk
    rw [List.drop_zero, List.getD_eq_getElem?_getD, List.getElem?_take, if_pos hk,
      List.getD_eq_getElem?_getD]
  have hlength : (word ((List.take 8 (List.drop 0 file)).getD 0 0)
      ((List.take 8 (List.drop 0 file)).getD 1 0)).toNat = (Heading.ofFile file).length := by
    rw [toNat_word, hget 0 (by omega), hget 1 (by omega)]
    rfl
  dsimp only
  unfold ofBytes headerSize
  rewrite [cut_of_le (by omega), ok_bind]
  dsimp only
  rewrite [hlength, hget 2 (by omega), hget 3 (by omega), hget 4 (by omega)]
  rfl

theorem ofBytes_of_whole (h : (Heading.ofFile file).stop ≤ file.length) :
    ofBytes file =
      if (Heading.ofFile file).routines ≤ (Heading.ofFile file).main then
        .error (.mainOutOfRange (Heading.ofFile file).main (Heading.ofFile file).routines)
      else
        match (stored file).firstStray? with
        | some (i, entry) => .error (.routineOutOfBounds i entry (Heading.ofFile file).length)
        | none => .ok (stored file) := by
  have hstop : 8 + 4 * (Heading.ofFile file).routines + 2 * (Heading.ofFile file).globals +
    (Heading.ofFile file).length ≤ file.length := h
  rw [ofBytes_of_header (by omega)]
  dsimp only
  rw [cut_of_le (by omega), ok_bind, cut_of_le (by omega), ok_bind, cut_of_le (by omega), ok_bind,
    Nat.mul_comm _ 4, Nat.mul_comm _ 2]
  split
  · rfl
  · rfl

/-! ## flaws -/

/-- The first thing that is wrong with a file, in the order header, function table, globals, code,
main routine, entries, and the error that tells of it. -/
inductive FirstFlaw (file : List UInt8) : LoadError → Prop where
  | header (short : file.length < 8) : FirstFlaw file (.truncated .header 8 file.length)
  | routines (header : 8 ≤ file.length) (short : file.length < (Heading.ofFile file).globalsAt) :
    FirstFlaw file
      (.truncated .routines (4 * (Heading.ofFile file).routines) (file.length - 8))
  | globals (routines : (Heading.ofFile file).globalsAt ≤ file.length)
    (short : file.length < (Heading.ofFile file).codeAt) :
    FirstFlaw file (.truncated .globals (2 * (Heading.ofFile file).globals)
      (file.length - (Heading.ofFile file).globalsAt))
  | code (globals : (Heading.ofFile file).codeAt ≤ file.length)
    (short : file.length < (Heading.ofFile file).stop) :
    FirstFlaw file (.truncated .code (Heading.ofFile file).length
      (file.length - (Heading.ofFile file).codeAt))
  | main (whole : (Heading.ofFile file).stop ≤ file.length)
    (absent : (Heading.ofFile file).routines ≤ (Heading.ofFile file).main) :
    FirstFlaw file
      (.mainOutOfRange (Heading.ofFile file).main (Heading.ofFile file).routines)
  | entry {i : Nat} (whole : (Heading.ofFile file).stop ≤ file.length)
    (main : (Heading.ofFile file).main < (Heading.ofFile file).routines)
    (present : i < (Heading.ofFile file).routines)
    (stray : (Heading.ofFile file).length ≤ (recordAt file i).entry.toNat)
    (others : ∀ j < i, (recordAt file j).entry.toNat < (Heading.ofFile file).length) :
    FirstFlaw file
      (.routineOutOfBounds i (recordAt file i).entry.toNat (Heading.ofFile file).length)

/-- The file is long enough for all its parts, its main routine exists, and every routine begins
within the code. -/
structure WellFormed (file : List UInt8) : Prop where
  whole : (Heading.ofFile file).stop ≤ file.length
  main : (Heading.ofFile file).main < (Heading.ofFile file).routines
  entries : ∀ i < (Heading.ofFile file).routines,
    (recordAt file i).entry.toNat < (Heading.ofFile file).length

theorem firstStray?_stored (whole : (Heading.ofFile file).stop ≤ file.length) {i : Nat}
    (present : i < (Heading.ofFile file).routines)
    (stray : (Heading.ofFile file).length ≤ (recordAt file i).entry.toNat)
    (others : ∀ j < i, (recordAt file j).entry.toNat < (Heading.ofFile file).length) :
    (stored file).firstStray? = some (i, (recordAt file i).entry.toNat) := by
  obtain ⟨k, hk⟩ : ∃ k, (Heading.ofFile file).routines = i + (k + 1) :=
    ⟨(Heading.ofFile file).routines - i - 1, by omega⟩
  unfold firstStray?
  rw [routineCount_stored whole, hk, List.range_add, List.findSome?_append,
    List.range_succ_eq_map, List.map_cons, List.findSome?_cons]
  simp only [routine?_stored whole, length_stored whole, Nat.add_zero, if_pos present,
    if_pos stray]
  rw [Option.or_eq_some_iff]
  refine .inr ⟨?_, rfl⟩
  rw [List.findSome?_eq_none_iff]
  intro j hj
  have hji := List.mem_range.mp hj
  simp only [if_pos (Nat.lt_trans hji present), if_neg (Nat.not_le.mpr (others j hji))]

theorem error_of_firstFlaw {e : LoadError} (h : FirstFlaw file e) : ofBytes file = .error e := by
  cases h with
  | header short =>
    unfold ofBytes
    rw [cut_of_lt (by unfold headerSize; omega), error_bind]
    rfl
  | routines header short =>
    unfold Heading.globalsAt at short
    rw [ofBytes_of_header header]
    dsimp only
    rw [cut_of_lt (by omega), error_bind, Nat.mul_comm]
  | globals routines short =>
    unfold Heading.codeAt at short
    unfold Heading.globalsAt at routines short ⊢
    rw [ofBytes_of_header (by omega)]
    dsimp only
    rw [cut_of_le (by omega), ok_bind, cut_of_lt (by omega), error_bind, Nat.mul_comm _ 4,
      Nat.mul_comm _ 2]
  | code globals short =>
    unfold Heading.stop at short
    unfold Heading.codeAt Heading.globalsAt at globals short ⊢
    rw [ofBytes_of_header (by omega)]
    dsimp only
    rw [cut_of_le (by omega), ok_bind, cut_of_le (by omega), ok_bind, cut_of_lt (by omega),
      error_bind, Nat.mul_comm _ 4, Nat.mul_comm _ 2]
  | main whole absent => rw [ofBytes_of_whole whole, if_pos absent]
  | entry whole main present stray others =>
    rw [ofBytes_of_whole whole, if_neg (Nat.not_le.mpr main),
      firstStray?_stored whole present stray others]

theorem firstFlaw_or_wellFormed (file : List UInt8) :
    (∃ e, FirstFlaw file e) ∨ WellFormed file := by
  by_cases hheader : file.length < 8
  · exact .inl ⟨_, .header hheader⟩
  by_cases hroutines : file.length < (Heading.ofFile file).globalsAt
  · exact .inl ⟨_, .routines (by omega) hroutines⟩
  by_cases hglobals : file.length < (Heading.ofFile file).codeAt
  · exact .inl ⟨_, .globals (by omega) hglobals⟩
  by_cases hcode : file.length < (Heading.ofFile file).stop
  · exact .inl ⟨_, .code (by omega) hcode⟩
  have whole : (Heading.ofFile file).stop ≤ file.length := by omega
  by_cases hmain : (Heading.ofFile file).routines ≤ (Heading.ofFile file).main
  · exact .inl ⟨_, .main whole hmain⟩
  by_cases hentries : ∃ i, i < (Heading.ofFile file).routines ∧
      (Heading.ofFile file).length ≤ (recordAt file i).entry.toNat
  · -- of the routines that do not begin within the code, the one with the lowest number counts
    classical
    obtain ⟨present, stray⟩ := Nat.find_spec hentries
    refine .inl ⟨_, .entry whole (by omega) present stray fun j hj => ?_⟩
    have hmin := Nat.find_min hentries hj
    have hpresent : j < (Heading.ofFile file).routines := by omega
    exact Nat.lt_of_not_le fun hle => hmin ⟨hpresent, hle⟩
  · refine .inr ⟨whole, by omega, fun i hi => ?_⟩
    exact Nat.lt_of_not_le fun hle => hentries ⟨i, hi, hle⟩

theorem WellFormed.ofBytes (h : WellFormed file) : ofBytes file = .ok (stored file) := by
  have hrooted : (stored file).firstStray? = none := by
    rw [firstStray?_eq_none_iff]
    intro i r hr
    rw [routine?_stored h.whole] at hr
    split at hr
    · next hi =>
      cases hr
      rw [length_stored h.whole]
      exact h.entries i hi
    · cases hr
  rw [ofBytes_of_whole h.whole, if_neg (Nat.not_le.mpr h.main), hrooted]

theorem ofBytes_eq_error_iff {e : LoadError} : ofBytes file = .error e ↔ FirstFlaw file e := by
  refine ⟨fun h => ?_, error_of_firstFlaw⟩
  rcases firstFlaw_or_wellFormed file with ⟨e', he⟩ | hw
  · rw [error_of_firstFlaw he] at h
    cases h
    exact he
  · rw [hw.ofBytes] at h
    cases h

theorem ofBytes_eq_ok_iff_wellFormed {img : Image} :
    ofBytes file = .ok img ↔ WellFormed file ∧ img = stored file := by
  constructor
  · intro h
    rcases firstFlaw_or_wellFormed file with ⟨e, he⟩ | hw
    · rw [error_of_firstFlaw he] at h
      cases h
    · rw [hw.ofBytes] at h
      cases h
      exact ⟨hw, rfl⟩
  · rintro ⟨hw, rfl⟩
    exact hw.ofBytes

/-! ## what comes after the end -/

theorem getD_take_append {n k : Nat} (hk : k < n) (h : n ≤ file.length) (more : List UInt8) :
    (file.take n ++ more).getD k 0 = file.getD k 0 := by
  rw [List.getD_append _ _ _ _ (by rw [List.length_take]; omega), List.getD_eq_getElem?_getD,
    List.getElem?_take, if_pos hk, List.getD_eq_getElem?_getD]

theorem part_take_append {n offset len : Nat} (hpart : offset + len ≤ n) (h : n ≤ file.length)
    (more : List UInt8) :
    ((file.take n ++ more).drop offset).take len = (file.drop offset).take len := by
  rw [List.drop_append_of_le_length (by rw [List.length_take]; omega),
    List.take_append_of_le_length (by rw [List.length_drop, List.length_take]; omega),
    List.drop_take, List.take_take, Nat.min_eq_left (by omega)]

/-- Other bytes after its end do not make another file. -/
theorem WellFormed.trailing (h : WellFormed file) (more : List UInt8) :
    WellFormed (file.take (Heading.ofFile file).stop ++ more) ∧
      stored (file.take (Heading.ofFile file).stop ++ more) = stored file := by
  have whole := h.whole
  have hstop : 8 + 4 * (Heading.ofFile file).routines + 2 * (Heading.ofFile file).globals +
    (Heading.ofFile file).length = (Heading.ofFile file).stop := rfl
  have hget : ∀ k < (Heading.ofFile file).stop,
      (file.take (Heading.ofFile file).stop ++ more).getD k 0 = file.getD k 0 :=
    fun k hk => getD_take_append hk whole more
  have hheading : Heading.ofFile (file.take (Heading.ofFile file).stop ++ more) =
      Heading.ofFile file := by
    unfold Heading.ofFile at *
    rw [hget 0 (by omega), hget 1 (by omega), hget 2 (by omega), hget 3 (by omega),
      hget 4 (by omega)]
  refine ⟨⟨?_, ?_, ?_⟩, ?_⟩
  · rw [hheading, List.length_append, List.length_take]
    omega
  · rw [hheading]
    exact h.main
  · rw [hheading]
    intro i hi
    have hrecord : recordAt (file.take (Heading.ofFile file).stop ++ more) i = recordAt file i := by
      unfold recordAt
      rw [hget _ (by omega), hget _ (by omega), hget _ (by omega), hget _ (by omega)]
    rw [hrecord]
    exact h.entries i hi
  · unfold stored
    rw [hheading]
    dsimp only
    unfold Heading.codeAt Heading.globalsAt
    rw [part_take_append (by omega) whole, part_take_append (by omega) whole,
      part_take_append (by omega) whole]

/-- **Reading decides the format.**  A file is read if and only if it is well-formed.  Then the
routines, globals and code are those at their places in the file, and whatever comes after its end
is ignored.  Otherwise the error is that of the first check that fails. -/
theorem ofBytes_decides_format (file : List UInt8) :
    ((∃ img, ofBytes file = .ok img) ↔ WellFormed file) ∧
    (∀ img, ofBytes file = .ok img →
      (∀ i, img.routine? i =
        if i < (Heading.ofFile file).routines then some (recordAt file i) else none) ∧
      (∀ i, img.global? i =
        if i < (Heading.ofFile file).globals then some (valueAt file i) else none) ∧
      img.code = (file.drop (Heading.ofFile file).codeAt).take (Heading.ofFile file).length ∧
      img.main = (Heading.ofFile file).main ∧
      ∀ more, ofBytes (file.take (Heading.ofFile file).stop ++ more) = .ok img) ∧
    (∀ e, ofBytes file = .error e ↔ FirstFlaw file e) := by
  refine ⟨?_, ?_, fun e => ofBytes_eq_error_iff⟩
  · constructor
    · rintro ⟨img, h⟩
      exact (ofBytes_eq_ok_iff_wellFormed.mp h).1
    · intro hw
      exact ⟨_, hw.ofBytes⟩
  · intro img h
    obtain ⟨hw, rfl⟩ := ofBytes_eq_ok_iff_wellFormed.mp h
    refine ⟨routine?_stored hw.whole, global?_stored hw.whole, code_ofSegments _ _ _ _, rfl, ?_⟩
    intro more
    obtain ⟨hw', hsame⟩ := hw.trailing more
    rw [← hsame]
    exact hw'.ofBytes

/-- A file whose second and third routine begin behind its two bytes of code. -/
def straying : List UInt8 := [2, 0, 3, 0, 1, 0, 0, 0, 0, 0, 1, 0, 1, 0, 2, 0, 0, 0, 3, 0, 0x0D, 0]

theorem ofBytes_decides_format_padded :
    (∃ img, ofBytes padded = .ok img ∧ img.routine? 1 = some ⟨2, 0, 2⟩ ∧ img.routine? 2 = none ∧
      img.global? 0 = some (-2) ∧ img.global? 1 = none ∧ img.code = [0x01, 0x0D, 0x01] ∧
      ofBytes (padded.take 21) = .ok img) ∧
    ofBytes (padded.take 20) = .error (.truncated .code 3 2) ∧
    ofBytes straying = .error (.routineOutOfBounds 1 2 2) := by
  obtain ⟨img, himg⟩ : ∃ img, ofBytes padded = .ok img :=
    (ofBytes_decides_format padded).1.mpr ⟨by decide, by decide, by decide⟩
  obtain ⟨hr, hg, hc, -, hmore⟩ := (ofBytes_decides_format padded).2.1 img himg
  refine ⟨⟨img, himg, hr 1, hr 2, hg 0, hg 1, hc, hmore []⟩, ?_, ?_⟩
  · exact ((ofBytes_decides_format (padded.take 20)).2.2 _).mpr (.code (by decide) (by decide))
  · refine ((ofBytes_decides_format straying).2.2 _).mpr (.entry (i := 1) ?_ ?_ ?_ ?_ ?_)
    all_goals decide

end Image
end TickMachine
