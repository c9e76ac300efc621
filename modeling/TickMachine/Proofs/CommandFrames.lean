import TickMachine.Proofs.FrameByFrame
import TickMachine.Proofs.FrameStreams

/-!
# Commands in frames

A command is sent as one frame.  A receiver that has received nothing yet finds this frame, and
what it finds in it is the command and no other: every payload that is a command is the payload of
that command, so that a payload with a byte more or less is none.

* `Decoder.heard_first`   what a new receiver hears of a frame;
* `Command.parse?_eq_some_iff`   a payload is a command exactly if it spells it;
* `Command.body_eq_cons`   it begins with the letter of the command;
* `Command.command_codec`   commands come through, and no two of them look the same.
-/

namespace TickMachine

/-- A new receiver hears the payload of the first frame and its end.  The first delimiter only ends
its search. -/
theorem Decoder.heard_first (payload : List UInt8) :
    searching.heard (frame payload) = payload.map .byte ++ [.done] := by
  have hframe : frame payload = [delimiter] ++ (stuff payload ++ [delimiter]) := rfl
  have hopen : searching.pushAll [delimiter] = (inFrame, [.none]) := rfl
  have hnothing : searching.heard [delimiter] = [] := rfl
  rw [hframe, heard_append, hnothing, hopen, (heard_body payload).2, List.nil_append]

namespace Command

theorem parse?_eq_some_iff {b : List UInt8} {c : Command} : parse? b = some c ↔ b = c.body := by
  constructor
  · intro h
    exact (body_of_parse? h).symm
  · rintro rfl
    exact parse?_body c

theorem isKnown_op (c : Command) : isKnown c.op = true := by
  cases c <;> rfl

theorem body_eq_cons (c : Command) : ∃ operands, c.body = c.op :: operands := by
  cases c <;> exact ⟨_, rfl⟩

theorem encode_injective : Function.Injective encode := by
  intro c c' h
  have hbody : c.body = c'.body := frame_injective h
  have hparse := parse?_body c
  rw [hbody, parse?_body c', Option.some.injEq] at hparse
  exact hparse.symm

/-- **Commands come through.**  Of an encoded command a new receiver hears one frame, and its
payload is that command.  A payload is a command exactly if the command is encoded as the frame of
that payload; then it begins with the letter of the command, which is a known one.  And no two
commands have the same encoding. -/
theorem command_codec :
    (∀ c : Command, ∃ b, Decoder.searching.heard c.encode = b.map .byte ++ [.done] ∧
      parse? b = some c) ∧
    (∀ (b : List UInt8) (c : Command), parse? b = some c ↔ c.encode = frame b) ∧
    (∀ (b : List UInt8) (c : Command), parse? b = some c →
      ∃ letter, b.head? = some letter ∧ isKnown letter = true ∧ c.op = letter) ∧
    Function.Injective encode := by
  refine ⟨fun c => ?_, fun b c => ?_, fun b c h => ?_, encode_injective⟩
  · exact ⟨c.body, Decoder.heard_first c.body, parse?_body c⟩
  · rw [parse?_eq_some_iff]
    constructor
    · rintro rfl
      rfl
    · intro h
      exact (frame_injective h).symm
  · obtain ⟨operands, hc⟩ := c.body_eq_cons
    rw [parse?_eq_some_iff.mp h, hc]
    exact ⟨c.op, rfl, c.isKnown_op, rfl⟩

/-- A memory write all of whose fields are made of delimiters and escape marks. -/
def reservedWrite : Command := .writeMem 0x7E 0x7D7E 0x7E7D

theorem command_codec_reserved :
    (∃ b, Decoder.searching.heard reservedWrite.encode = b.map .byte ++ [.done] ∧
      parse? b = some reservedWrite) ∧
    parse? [0x77, 0x7E, 0x7E, 0x7D, 0x7D, 0x7E] = some reservedWrite ∧
    reservedWrite.encode =
      [0x7E, 0x77, 0x7D, 0x5E, 0x7D, 0x5E, 0x7D, 0x5D, 0x7D, 0x5D, 0x7D, 0x5E, 0x7E] ∧
    parse? [0x77, 0x7E, 0x7E, 0x7D, 0x7D, 0x7E, 0] = none ∧ isKnown 0x77 = true := by
  obtain ⟨hheard, hencode, hletter, -⟩ := command_codec
  have hparse : parse? [0x77, 0x7E, 0x7E, 0x7D, 0x7D, 0x7E] = some reservedWrite := by decide
  obtain ⟨letter, hhead, hknown, -⟩ := hletter _ _ hparse
  cases hhead
  exact ⟨hheard reservedWrite, hparse, (hencode _ _).mp hparse, rfl, hknown⟩

end Command
end TickMachine
