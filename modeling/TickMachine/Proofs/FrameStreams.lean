import Mathlib.Logic.Function.Basic
import TickMachine.Proofs.Chunks

/-!
# Streams of frames

Frames that follow one another in a stream are found again one by one, whatever came in before
the first of them: noise, half a frame, or an escape mark with nothing after it.  Two delimiters
meet between two frames, and the frame between these two is empty.

* `Decoder.heard`   the signals of a stream that say something;
* `Decoder.heard_stuff`   of a stuffed payload its bytes are heard;
* `Decoder.heard_frames`   of frames their payloads, each between two ends;
* `frame_injective`   a frame tells its payload;
* `Decoder.frames_resynchronise`   all frames are found, from every state of the receiver.
-/

namespace TickMachine

/-! ## frames and their payloads -/

theorem stuff_injective : Function.Injective stuff := by
  intro p q h
  have hp := unstuff_stuff p
  rw [h, unstuff_stuff q] at hp
  exact (congrArg Prod.fst hp).symm

theorem frame_injective : Function.Injective frame := by
  intro p q h
  have hs : stuff p ++ [delimiter] = stuff q ++ [delimiter] := (List.cons.inj h).2
  exact stuff_injective (List.append_cancel_right hs)

theorem interior_frame (payload : List UInt8) : (frame payload).tail.dropLast = stuff payload := by
  show (stuff payload ++ [delimiter]).dropLast = stuff payload
  rw [List.dropLast_concat]

/-- What is heard of a frame by a receiver inside another one: that one ends, and then comes the
payload with its own end. -/
def frameSignals (payload : List UInt8) : List Signal :=
  .done :: (payload.map .byte ++ [.done])

theorem abort_notMem_frameSignals (payload : List UInt8) : .abort ∉ frameSignals payload := by
  simp [frameSignals]

namespace Decoder

/-! ## what is heard -/

/-- The signals that say something, of all that received bytes give. -/
def heard (d : Decoder) (bytes : List UInt8) : List Signal :=
  (d.pushAll bytes).2.filter (· ≠ .none)

theorem heard_append (d : Decoder) (xs ys : List UInt8) :
    d.heard (xs ++ ys) = d.heard xs ++ (d.pushAll xs).1.heard ys := by
  unfold heard
  rw [pushAll_append, List.filter_append]

theorem push_delimiter (d : Decoder) : (d.push delimiter).1 = inFrame := by
  cases d <;> rfl

theorem pushAll_stuff (payload : List UInt8) : (inFrame.pushAll (stuff payload)).1 = inFrame := by
  induction payload with
  | nil => rfl
  | cons b bs ih =>
    rw [stuff_cons, pushAll_append, pushAll_stuffByte]
    exact ih

theorem heard_stuffByte (b : UInt8) : inFrame.heard (stuffByte b) = [.byte b] := by
  unfold heard
  rw [pushAll_stuffByte]
  by_cases h : reserved b = true
  · rw [if_pos h]; rfl
  · rw [if_neg h]; rfl

theorem heard_stuff (payload : List UInt8) :
    inFrame.heard (stuff payload) = payload.map .byte := by
  induction payload with
  | nil => rfl
  | cons b bs ih =>
    have hstay : (inFrame.pushAll (stuffByte b)).1 = inFrame := by rw [pushAll_stuffByte]
    rw [stuff_cons, heard_append, heard_stuffByte, hstay, ih, List.map_cons, List.singleton_append]

/-- The part of a frame after its first delimiter: the payload is heard, then its end, and the
receiver is ready for the next frame. -/
theorem heard_body (payload : List UInt8) :
    (inFrame.pushAll (stuff payload ++ [delimiter])).1 = inFrame ∧
      inFrame.heard (stuff payload ++ [delimiter]) = payload.map .byte ++ [.done] := by
  rw [heard_append, pushAll_append, pushAll_stuff, heard_stuff]
  exact ⟨rfl, rfl⟩

theorem heard_frame (payload : List UInt8) :
    (inFrame.pushAll (frame payload)).1 = inFrame ∧
      inFrame.heard (frame payload) = frameSignals payload := by
  obtain ⟨hstate, hheard⟩ := heard_body payload
  have hframe : frame payload = [delimiter] ++ (stuff payload ++ [delimiter]) := rfl
  have hopen : inFrame.pushAll [delimiter] = (inFrame, [.done]) := rfl
  constructor
  · rw [hframe, pushAll_append, hopen, hstate]
  · rw [hframe, heard_append, hopen, hheard]
    rfl

theorem heard_frames (payloads : List (List UInt8)) :
    (inFrame.pushAll (payloads.flatMap frame)).1 = inFrame ∧
      inFrame.heard (payloads.flatMap frame) = payloads.flatMap frameSignals := by
  induction payloads with
  | nil => exact ⟨rfl, rfl⟩
  | cons p ps ih =>
    obtain ⟨hstate, hheard⟩ := heard_frame p
    rw [List.flatMap_cons, List.flatMap_cons, pushAll_append, heard_append, hstate, hheard, ih.2]
    exact ⟨ih.1, rfl⟩

/-- **Frames are found again.**  Whatever a receiver has received before, of frames that follow it
hears, after the signal of their very first delimiter, the bytes of every payload in order and then
its end, with one empty frame before every payload but the first; nothing is aborted, and the
receiver stays in frame.  Inside its delimiters a frame holds no delimiter, and no two payloads
have the same frame. -/
theorem frames_resynchronise (start : Decoder) (history p : List UInt8) (ps : List (List UInt8)) :
    (∃ signals, (start.pushAll history).1.pushAll ((p :: ps).flatMap frame) =
        (inFrame, ((start.pushAll history).1.push delimiter).2 :: signals) ∧
      signals.filter (· ≠ .none) = p.map .byte ++ [.done] ++
        ps.flatMap (fun q => .done :: (q.map .byte ++ [.done])) ∧
      .abort ∉ signals) ∧
    (∀ payload, delimiter ∉ (frame payload).tail.dropLast) ∧ Function.Injective frame := by
  refine ⟨?_, fun payload => ?_, frame_injective⟩
  · -- after its first byte a receiver no longer knows in which state the frames found it
    have hsplit : (p :: ps).flatMap frame =
        delimiter :: (stuff p ++ [delimiter] ++ ps.flatMap frame) := rfl
    obtain ⟨hbody, hheard⟩ := heard_body p
    obtain ⟨hframes, hrest⟩ := heard_frames ps
    have hall : inFrame.heard (stuff p ++ [delimiter] ++ ps.flatMap frame) =
        p.map .byte ++ [.done] ++ ps.flatMap frameSignals := by
      rw [heard_append, hheard, hbody, hrest]
    refine ⟨(inFrame.pushAll (stuff p ++ [delimiter] ++ ps.flatMap frame)).2, ?_, hall, ?_⟩
    · rw [hsplit, pushAll_cons, push_delimiter]
      rw [pushAll_append inFrame (stuff p ++ [delimiter]), hbody, hframes]
    · intro habort
      have hmem : Signal.abort ∈ inFrame.heard (stuff p ++ [delimiter] ++ ps.flatMap frame) :=
        List.mem_filter.mpr ⟨habort, rfl⟩
      rw [hall] at hmem
      simp [abort_notMem_frameSignals] at hmem
  · rw [interior_frame]
    exact stuff_no_delimiter payload

end Decoder
end TickMachine
