import TickMachine.Wire.Framing

/-!
# Chunks of a stream

Seen as a whole, a stream is cut into chunks by its delimiters, and a chunk is made a payload by
undoing the stuffing.  A receiver does the same byte by byte.

* `unstuff`   the payload of a chunk, and whether the chunk breaks off after an escape mark;
* `unstuff_concat`   how the payload grows with the chunk;
* `unstuff_stuff`   the payload of a stuffed payload;
* `chunks`   what follows the first delimiter, cut at every further one;
* `Decoder.collect_pushAll_stuff`   of a stuffed payload a receiver collects the payload;
* `Decoder.collect_pushAll_frame`   and of a frame its payload.
-/

namespace TickMachine

/-! ## undoing the stuffing -/

/-- The bytes of a chunk before they were stuffed, and whether the chunk breaks off after an escape
mark. -/
def unstuff : List UInt8 → List UInt8 × Bool
  | [] => ([], false)
  | [b] => if b = escapeMark then ([], true) else ([b], false)
  | b :: c :: cs =>
    if b = escapeMark then
      (flip c :: (unstuff cs).1, (unstuff cs).2)
    else
      (b :: (unstuff (c :: cs)).1, (unstuff (c :: cs)).2)

theorem unstuff_escape (c : UInt8) (cs : List UInt8) :
    unstuff (escapeMark :: c :: cs) = (flip c :: (unstuff cs).1, (unstuff cs).2) := by
  rw [unstuff, if_pos rfl]

theorem unstuff_cons_of_ne {b : UInt8} (h : b ≠ escapeMark) (bs : List UInt8) :
    unstuff (b :: bs) = (b :: (unstuff bs).1, (unstuff bs).2) := by
  cases bs with
  | nil => simp [unstuff, h]
  | cons c cs => rw [unstuff, if_neg h]

/-- The byte after a chunk is flipped if an escape mark stands before it. -/
theorem unstuff_concat (raw : List UInt8) (b : UInt8) :
    unstuff (raw ++ [b]) =
      if (unstuff raw).2 then ((unstuff raw).1 ++ [flip b], false)
      else if b = escapeMark then ((unstuff raw).1, true)
      else ((unstuff raw).1 ++ [b], false) := by
  fun_induction unstuff raw with
  | case1 => simp [unstuff]
  | case2 => simp [unstuff]
  | case3 a h => simp [unstuff_cons_of_ne h, unstuff]; split <;> rfl
  | case4 c cs ih =>
    rw [List.cons_append, List.cons_append, unstuff_escape, ih]
    split
    · rfl
    · split <;> rfl
  | case5 a c cs h ih =>
    rw [List.cons_append, unstuff_cons_of_ne h, ih]
    split
    · rfl
    · split <;> rfl

theorem unstuff_stuffByte (b : UInt8) (rest : List UInt8) :
    unstuff (stuffByte b ++ rest) = (b :: (unstuff rest).1, (unstuff rest).2) := by
  unfold stuffByte
  by_cases h : reserved b = true
  · rw [if_pos h]
    show unstuff (escapeMark :: flip b :: rest) = _
    rw [unstuff_escape, flip_flip]
  · rw [if_neg h]
    have hb : b ≠ escapeMark := by
      intro hb
      apply h
      simp [reserved, hb]
    exact unstuff_cons_of_ne hb rest

theorem unstuff_stuff (payload : List UInt8) : unstuff (stuff payload) = (payload, false) := by
  induction payload with
  | nil => rfl
  | cons b bs ih => rw [stuff_cons, unstuff_stuffByte, ih]

/-! ## cutting a stream -/

/-- The chunks of a stream: what follows the first delimiter, cut at every further one.  The last
chunk is the one whose end has not come yet. -/
def chunks (stream : List UInt8) : List (List UInt8) :=
  match stream.dropWhile (· ≠ delimiter) with
  | [] => []
  | _ :: rest => rest.splitOn delimiter

theorem chunks_cons_of_ne {b : UInt8} (h : b ≠ delimiter) (stream : List UInt8) :
    chunks (b :: stream) = chunks stream := by
  simp [chunks, h]

theorem chunks_delimiter (rest : List UInt8) :
    chunks (delimiter :: rest) = rest.splitOn delimiter := by
  simp [chunks]

theorem splitOn_of_notMem {raw : List UInt8} (h : delimiter ∉ raw) :
    raw.splitOn delimiter = [raw] := by
  apply List.splitOnP_eq_singleton
  intro b hb
  rw [beq_eq_false_iff_ne]
  rintro rfl
  exact h hb

theorem splitOn_append_delimiter {raw : List UInt8} (h : delimiter ∉ raw) (rest : List UInt8) :
    (raw ++ delimiter :: rest).splitOn delimiter = raw :: rest.splitOn delimiter := by
  apply List.splitOnP_append_cons_of_forall_mem
  · intro b hb
    rw [beq_eq_false_iff_ne]
    rintro rfl
    exact h hb
  · exact beq_self_eq_true delimiter

/-! ## what a receiver makes of it -/

def Decoder.within (dangling : Bool) : Decoder := if dangling then .escaped else .inFrame

/-- The payloads of the frames that signals tell of, the empty ones left out, with what came in of
a frame that has not ended; `begun` is what came in of the first one before. -/
def collect (begun : List UInt8) : List Signal → List (List UInt8) × List UInt8
  | [] => ([], begun)
  | .none :: more => collect begun more
  | .byte b :: more => collect (begun ++ [b]) more
  | .done :: more =>
    if begun = [] then collect [] more else (begun :: (collect [] more).1, (collect [] more).2)
  | .abort :: more => collect [] more

namespace Decoder

theorem pushAll_stuffByte (b : UInt8) :
    inFrame.pushAll (stuffByte b) =
      (inFrame, if reserved b then [.none, .byte b] else [.byte b]) := by
  unfold stuffByte
  by_cases h : reserved b = true
  · have hf : flip b ≠ delimiter := by
      rcases Bool.or_eq_true_iff.mp h with hb | hb <;> rw [eq_of_beq hb] <;> decide
    rw [if_pos h, if_pos h]
    simp [pushAll, push, hf, flip_flip]
  · obtain ⟨hd, he⟩ : b ≠ delimiter ∧ b ≠ escapeMark := by simpa [reserved] using h
    rw [if_neg h, if_neg h]
    simp [pushAll, push, hd, he]

theorem collect_pushAll_stuff (payload rest begun : List UInt8) :
    collect begun (inFrame.pushAll (stuff payload ++ rest)).2 =
      collect (begun ++ payload) (inFrame.pushAll rest).2 := by
  induction payload generalizing begun with
  | nil => rw [stuff_nil, List.nil_append, List.append_nil]
  | cons b bs ih =>
    rw [stuff_cons, List.append_assoc, pushAll_append, pushAll_stuffByte]
    have hb : ∀ more, collect begun ((if reserved b then [Signal.none, .byte b] else [.byte b]) ++
        more) = collect (begun ++ [b]) more := by
      intro more
      split <;> rfl
    rw [hb, ih, List.append_assoc, List.singleton_append]

theorem abort_mem_pushAll_stuff (payload rest : List UInt8) :
    Signal.abort ∈ (inFrame.pushAll (stuff payload ++ rest)).2 ↔
      Signal.abort ∈ (inFrame.pushAll rest).2 := by
  induction payload with
  | nil => rw [stuff_nil, List.nil_append]
  | cons b bs ih =>
    rw [stuff_cons, List.append_assoc, pushAll_append, pushAll_stuffByte, List.mem_append, ih]
    split <;> simp

/-- A frame in what is received: its first delimiter ends a frame with nothing in it, and after its
last one the receiver goes on as if there had been none. -/
theorem collect_pushAll_frame (a : UInt8) (payload rest : List UInt8) :
    collect [] (inFrame.pushAll (frame (a :: payload) ++ rest)).2 =
      ((a :: payload) :: (collect [] (inFrame.pushAll rest).2).1,
        (collect [] (inFrame.pushAll rest).2).2) := by
  unfold frame
  rw [List.cons_append, List.append_assoc, pushAll_cons]
  show collect [] (inFrame.pushAll _).2 = _
  rw [collect_pushAll_stuff]
  rfl

theorem abort_mem_pushAll_frame (payload rest : List UInt8) :
    Signal.abort ∈ (inFrame.pushAll (frame payload ++ rest)).2 ↔
      Signal.abort ∈ (inFrame.pushAll rest).2 := by
  unfold frame
  rw [List.cons_append, List.append_assoc, pushAll_cons]
  show Signal.abort ∈ Signal.done :: (inFrame.pushAll _).2 ↔ _
  rw [List.mem_cons, abort_mem_pushAll_stuff]
  show _ ∨ Signal.abort ∈ Signal.done :: (inFrame.pushAll _).2 ↔ _
  simp

end Decoder
end TickMachine
