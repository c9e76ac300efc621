import Mathlib.Data.List.Chain
import TickMachine.Proofs.Atomic
import TickMachine.Proofs.ControlFlow
import TickMachine.Proofs.LineTexts

/-!
# Listings and steps

A listing shows the instructions that an engine would execute: each line begins where the one
before ends, and what a line says is what a step at its address does.  The two find instructions in
their own ways.  An engine reads the operand of each opcode byte by byte as that opcode needs it; a
listing cuts off as many bytes as the opcode has and looks at their number.  They agree at every
address, also where the code ends within an operand.

* `span`   how many bytes belong to what begins with a byte;
* `Opcode.complete?_line`, `decode_line`   a listing finds what an engine decodes;
* `decode_fits`   what is decoded lies within the code;
* `Line.Precedes`, `precedes_listFrom`   how a line of a listing goes on to the next;
* `Foretells`   a printed line says what a step at its address does;
* `listing_foretells_steps`   so do all lines of a printed listing.
-/

namespace TickMachine

/-! ## the place of an instruction -/

/-- How many bytes belong to what begins with this byte: itself and the operand of its opcode. -/
def span (byte : UInt8) : Nat :=
  match Opcode.ofByte? byte with
  | some op => 1 + op.operandSize
  | none => 1

theorem Instruction.size_eq_span (i : Instruction) : i.size = span i.byte := by
  cases i with
  | builtin b => cases b <;> rfl
  | _ => rfl

theorem span_pos (byte : UInt8) : 0 < span byte := by
  unfold span
  split <;> omega

/-! ## two decoders -/

def Instruction.line : Instruction → Line
  | .pushConst v => .operation .pushConst v.bytes
  | .zero => .operation .zero []
  | .drop => .operation .drop []
  | .getGlobal n => .operation .getGlobal [n]
  | .setGlobal n => .operation .setGlobal [n]
  | .getLocal n => .operation .getLocal [n]
  | .setLocal n => .operation .setLocal [n]
  | .call n => .operation .call [n]
  | .ret n => .operation .ret [n]
  | .jmp d => .operation .jmp d.bytes
  | .jz d => .operation .jz d.bytes
  | .builtin b => .builtin b

theorem Instruction.length?_line (i : Instruction) : i.line.length? = some i.size := by
  cases i <;> rfl

def Decoded.line? : Decoded → Option Line
  | .outside => none
  | .unknown byte => some (.unknown byte)
  | .truncated op => some (.truncated op)
  | .instruction i => some i.line

section
variable {code : List UInt8} {pc : Nat}

theorem operand?_eq (h : pc < code.length) (op : Opcode) :
    Line.operand? code.toArray pc op =
      if op.operandSize ≤ (code.drop (pc + 1)).length then
        some ((code.drop (pc + 1)).take op.operandSize)
      else
        none := by
  have hfits : pc + 1 + op.operandSize ≤ code.toArray.size ↔
      op.operandSize ≤ (code.drop (pc + 1)).length := by
    rw [List.size_toArray, List.length_drop]
    omega
  unfold Line.operand?
  simp only [hfits, List.extract_toArray, List.extract_eq_take_drop, Nat.add_sub_cancel_left]

/-- Of every opcode, the bytes that an engine reads one by one are those that a listing cuts out;
and the one lacks a byte where the other finds too few. -/
theorem Opcode.complete?_line (op : Opcode) (h : pc < code.length) :
    (op.complete? (reading code) (pc + 1)).map Instruction.line =
      (Line.operand? code.toArray pc op).map (.operation op) := by
  have hfirst : reading code (pc + 1) = (code.drop (pc + 1))[0]? := by
    rw [List.getElem?_drop]
    rfl
  have hsecond : reading code (pc + 1 + 1) = (code.drop (pc + 1))[1]? := by
    rw [List.getElem?_drop]
    rfl
  rw [operand?_eq h]
  -- both depend only on what follows the opcode, and then on how much of it there is
  generalize code.drop (pc + 1) = rest at hfirst hsecond ⊢
  cases op with
  | zero | drop => rfl
  | getGlobal | setGlobal | getLocal | setLocal | call | ret =>
    unfold Opcode.complete? readByte?
    dsimp only
    rw [hfirst]
    cases rest with
    | nil => rfl
    | cons n rest => rfl
  | pushConst | jmp | jz =>
    unfold Opcode.complete? readValue?
    dsimp only
    rw [hfirst, hsecond]
    match rest with
    | [] => rfl
    | [_] => rfl
    | lo :: hi :: rest => simp [Opcode.operandSize, Instruction.line, Value.bytes]

/-- **A listing finds what an engine decodes,** at every address. -/
theorem decode_line (code : List UInt8) (pc : Nat) :
    (decode (reading code) pc).line? = Line.at? code.toArray pc := by
  have hread : reading code pc = code.toArray[pc]? := List.getElem?_toArray.symm
  unfold decode Line.at?
  rw [hread]
  cases hbyte : code.toArray[pc]? with
  | none => rfl
  | some byte =>
    obtain ⟨hpc, -⟩ := Array.getElem?_eq_some_iff.mp hbyte
    show (Decoded.ofByte byte (reading code) (pc + 1)).line? = some (Line.ofByte _ pc byte)
    unfold Decoded.ofByte Line.ofByte
    split
    · cases Builtin.ofByte? byte <;> rfl
    · cases Opcode.ofByte? byte with
      | none => rfl
      | some op =>
        have hop := op.complete?_line hpc
        dsimp only
        cases hc : op.complete? (reading code) (pc + 1) with
        | none =>
          rw [hc] at hop
          rw [Option.map_eq_none_iff.mp hop.symm]
          rfl
        | some i =>
          rw [hc] at hop
          obtain ⟨operand, ho, hline⟩ := Option.map_eq_some_iff.mp hop.symm
          rw [ho]
          exact congrArg some hline.symm

theorem fits_at? {l : Line} {n : Nat} (h : Line.at? code.toArray pc = some l)
    (hn : l.length? = some n) : pc + n ≤ code.length := by
  have hpc : pc < code.length := Line.lt_of_at? h
  obtain ⟨byte, -, rfl⟩ := Option.map_eq_some_iff.mp h
  unfold Line.ofByte at hn
  split at hn
  · split at hn <;> cases hn
    exact hpc
  · split at hn
    · cases hn
    · split at hn
      · next op _ _ ho =>
        cases hn
        rw [operand?_eq hpc, List.length_drop] at ho
        split at ho
        · omega
        · cases ho
      · cases hn

theorem decode_fits {i : Instruction} (h : decode (reading code) pc = .instruction i) :
    pc + i.size ≤ code.length := by
  have hline := decode_line code pc
  rw [h] at hline
  exact fits_at? hline.symm i.length?_line

end

/-! ## the lines of a listing -/

namespace Line

/-- A line at `pc` goes on to `next`, the line after it: after an instruction to where it ends, and
after anything else there is no line. -/
def Precedes (stop pc : Nat) (l : Line) (next : Option (Nat × Line)) : Prop :=
  match l.length? with
  | some n => (next.map Prod.fst).getD stop = pc + n
  | none => next = none

end Line

section
variable {code : List UInt8} {pc : Nat}

/-- A listing begins where it is asked to, or at the end of the code with no line. -/
theorem head_listFrom (h : pc ≤ code.length) :
    ((listFrom code.toArray pc).head?.map Prod.fst).getD code.length = pc := by
  fun_cases listFrom code.toArray pc with
  | case1 hnone =>
    have hlen := Option.map_eq_none_iff.mp hnone
    rw [List.getElem?_toArray, List.getElem?_eq_none_iff] at hlen
    exact Nat.le_antisymm hlen h
  | case2 => rfl
  | case3 => rfl

theorem decode_of_mem_listFrom {o : Nat} {l : Line} (h : (o, l) ∈ listFrom code.toArray pc) :
    (decode (reading code) o).line? = some l := by
  rw [decode_line]
  fun_induction listFrom code.toArray pc with
  | case1 => cases h
  | case2 pc line hline n hn ih =>
    rcases List.mem_cons.mp h with heq | hmem
    · cases heq
      exact hline
    · exact ih hmem
  | case3 pc line hline hn =>
    cases List.mem_singleton.mp h
    exact hline

theorem precedes_listFrom {k o : Nat} {l : Line}
    (h : (listFrom code.toArray pc)[k]? = some (o, l)) :
    l.Precedes code.length o (listFrom code.toArray pc)[k + 1]? := by
  fun_induction listFrom code.toArray pc generalizing k with
  | case1 => cases h
  | case2 pc line hline n hn ih =>
    cases k with
    | zero =>
      -- the next line is the first of the listing that begins where the instruction ends
      cases h
      have hhead := head_listFrom (fits_at? hline hn)
      rw [List.head?_eq_getElem?] at hhead
      unfold Line.Precedes
      rw [hn]
      exact hhead
    | succ k => exact ih h
  | case3 pc line hline hn =>
    cases k with
    | zero =>
      cases h
      unfold Line.Precedes
      rw [hn]
      rfl
    | succ k => cases h

end

/-! ## printed listings -/

/-- The listing of a code as it is printed, each line with its address. -/
def printed (code : List UInt8) : List (Nat × String) :=
  (listing code.toArray).map fun line => (line.1, line.2.text line.1)

/-- What a printed line says is what a step at its address does, `byte` being the byte there and
`next` the address of the line after it, or the end of the code.  The line shows a byte exactly if
the step finds no instruction, and breaks off exactly if the step finds half of one.  A step that
neither calls, returns nor jumps leads to `next`; and a jump that is taken leads to the target that
the line shows, if that does not lie before the code.  Lines show targets in 64 bits, which is enough
for every code in memory. -/
structure Foretells {σ : Type} (code : List UInt8) (text : String) (byte : UInt8) (next : Nat)
    (p : Peripherals σ) (e : Engine σ) : Prop where
  unknown : Line.showsByte text = true ↔
    ∃ f, (e.step p).1 = .error f ∧ f.cause = .unknownOpcode byte
  truncated : Line.showsTruncated text = true ↔
    ∃ f, (e.step p).1 = .error f ∧ f.cause = .pcOverflow ∧ f.opcode = some byte
  falls : ¬ Transfers byte e.thread → ∀ o e', e.step p = (.ok o, e') → e'.thread.pc = next
  jumps : byte = Opcode.byte .jmp ∨
      (byte = Opcode.byte .jz ∧ e.thread.fp + 1 ≤ e.thread.sp ∧ e.thread.top = 0) →
    Line.showsTruncated text = false →
    ∃ d, readValue? (reading code) (e.thread.pc + 1) = some d ∧
      (0 ≤ e.thread.pc + 3 + d.toInt → ∃ e', e.step p = (.ok .running, e') ∧
        (e'.thread.pc : Int) = e.thread.pc + 3 + d.toInt ∧
        (code.length < 2 ^ 63 → Hex.trailing text = e'.thread.pc)) ∧
      (e.thread.pc + 3 + d.toInt < 0 →
        ∃ f, (e.step p).1 = .error f ∧ f.cause = .jumpOutOfRange (e.thread.pc + 3 + d.toInt))

section
variable {code : List UInt8} {k o : Nat} {text : String}

theorem line_of_printed (h : (printed code)[k]? = some (o, text)) :
    ∃ l, (listing code.toArray)[k]? = some (o, l) ∧ text = l.text o := by
  unfold printed at h
  rw [List.getElem?_map] at h
  obtain ⟨⟨o', l⟩, hl, heq⟩ := Option.map_eq_some_iff.mp h
  cases heq
  exact ⟨l, hl, rfl⟩

theorem fst_printed (code : List UInt8) (k : Nat) :
    (printed code)[k]?.map Prod.fst = (listing code.toArray)[k]?.map Prod.fst := by
  unfold printed
  rw [List.getElem?_map, Option.map_map]
  rfl

theorem decode_of_listing {l : Line} (h : (listing code.toArray)[k]? = some (o, l)) :
    (decode (reading code) o).line? = some l :=
  decode_of_mem_listFrom (List.mem_of_getElem? h)

theorem precedes_listing {l : Line} (h : (listing code.toArray)[k]? = some (o, l)) :
    l.Precedes code.length o (listing code.toArray)[k + 1]? :=
  precedes_listFrom h

theorem byte_of_line {l : Line} (h : (decode (reading code) o).line? = some l) :
    ∃ byte, code[o]? = some byte := by
  rw [decode_line] at h
  obtain ⟨byte, hbyte, -⟩ := Option.map_eq_some_iff.mp h
  exact ⟨byte, List.getElem?_toArray.symm.trans hbyte⟩

end

theorem decode_jump {fetch : Fetch} {pc : Nat} {op : Opcode} {jump : Value → Instruction}
    (h : (op = .jmp ∧ jump = .jmp) ∨ (op = .jz ∧ jump = .jz)) (hb : fetch pc = some op.byte) :
    decode fetch pc = match readValue? fetch (pc + 1) with
      | some d => .instruction (jump d)
      | none => .truncated op := by
  have hcore : ¬ Builtin.base ≤ op.byte := by cases op <;> decide
  unfold decode
  rw [hb]
  show Decoded.ofByte op.byte fetch (pc + 1) = _
  unfold Decoded.ofByte
  rw [if_neg hcore, Opcode.ofByte?_byte]
  rcases h with ⟨rfl, rfl⟩ | ⟨rfl, rfl⟩ <;> cases hv : readValue? fetch (pc + 1) <;>
    simp [Opcode.complete?, hv]

/-! ## lines and steps -/

namespace Decoded

variable {d : Decoded} {l : Line} {byte : UInt8}

theorem eq_unknown_iff (hl : d.line? = some l) (hb : d.byte? = some byte) :
    d = .unknown byte ↔ ∃ b, l = .unknown b := by
  cases d with
  | outside => cases hl
  | unknown b =>
    cases hl
    cases hb
    exact ⟨fun _ => ⟨_, rfl⟩, fun _ => rfl⟩
  | truncated op =>
    cases hl
    exact ⟨nofun, nofun⟩
  | instruction i =>
    cases hl
    exact ⟨nofun, fun ⟨b, h⟩ => by cases i <;> cases h⟩

theorem eq_truncated_iff (hl : d.line? = some l) (hb : d.byte? = some byte) :
    (∃ op, d = .truncated op ∧ op.byte = byte) ↔ ∃ op, l = .truncated op := by
  cases d with
  | outside => cases hl
  | unknown b =>
    cases hl
    exact ⟨nofun, nofun⟩
  | truncated op =>
    cases hl
    cases hb
    exact ⟨fun _ => ⟨op, rfl⟩, fun _ => ⟨op, rfl, rfl⟩⟩
  | instruction i =>
    cases hl
    exact ⟨nofun, fun ⟨op, h⟩ => by cases i <;> cases h⟩

/-- A line after which there can be others shows an instruction, with all of its bytes. -/
theorem length_line {n : Nat} (hl : d.line? = some l) (hb : d.byte? = some byte)
    (hn : l.length? = some n) : n = span byte := by
  cases d with
  | outside => cases hl
  | unknown b => cases hl; cases hn
  | truncated op => cases hl; cases hn
  | instruction i =>
    cases hl
    cases hb
    rw [i.length?_line] at hn
    rw [← Option.some.inj hn, Instruction.size_eq_span]

end Decoded

section
variable {σ : Type} {p : Peripherals σ} {e : Engine σ} {code : List UInt8} {l : Line}
  {byte : UInt8} {next : Option (Nat × Line)}

theorem falls_of_line (hx : e.thread.state = .executing) (hl : e.decoded.line? = some l)
    (hb : e.decoded.byte? = some byte) (hnext : l.Precedes code.length e.thread.pc next)
    (stays : ¬ Transfers byte e.thread) {o : Outcome} {e' : Engine σ}
    (h : e.step p = (.ok o, e')) : e'.thread.pc = (next.map Prod.fst).getD code.length := by
  rcases Engine.step_ok_iff.mp h with ⟨hn, -, -⟩ | ⟨-, i, hi, -⟩
  · exact absurd hx hn
  · -- only an instruction can be executed, so the line shows one
    rw [hi] at hl hb
    cases hl
    cases hb
    have hpc := Engine.step_falls_through hx hi stays h
    unfold Line.Precedes at hnext
    rw [i.length?_line] at hnext
    exact hpc.trans hnext.symm

theorem jump_of_byte (t : Thread) (h : byte = Opcode.byte .jmp ∨
      (byte = Opcode.byte .jz ∧ t.fp + 1 ≤ t.sp ∧ t.top = 0)) :
    ∃ (op : Opcode) (jump : Value → Instruction), byte = op.byte ∧
      ((op = .jmp ∧ jump = .jmp) ∨ (op = .jz ∧ jump = .jz)) ∧ (∀ d, Jumps t (jump d) d) ∧
      ∀ d pc, (jump d).line.text pc = Line.jumpText op.mnemonic d (pc + 3) := by
  rcases h with h | ⟨h, one, zero⟩
  · exact ⟨.jmp, .jmp, h, .inl ⟨rfl, rfl⟩, .jmp,
      Line.operationText_bytes .jmp⟩
  · exact ⟨.jz, .jz, h, .inr ⟨rfl, rfl⟩, fun d => .jz d one zero,
      Line.operationText_bytes .jz⟩

theorem jumps_of_line (hx : e.thread.state = .executing) (hcode : e.image.code = code)
    (hl : e.decoded.line? = some l) (hb : code[e.thread.pc]? = some byte)
    (taken : byte = Opcode.byte .jmp ∨
      (byte = Opcode.byte .jz ∧ e.thread.fp + 1 ≤ e.thread.sp ∧ e.thread.top = 0))
    (whole : ¬ ∃ op, l = .truncated op) :
    ∃ d, readValue? (reading code) (e.thread.pc + 1) = some d ∧
      (0 ≤ e.thread.pc + 3 + d.toInt → ∃ e', e.step p = (.ok .running, e') ∧
        (e'.thread.pc : Int) = e.thread.pc + 3 + d.toInt ∧
        (code.length < 2 ^ 63 → Hex.trailing (l.text e.thread.pc) = e'.thread.pc)) ∧
      (e.thread.pc + 3 + d.toInt < 0 →
        ∃ f, (e.step p).1 = .error f ∧
          f.cause = .jumpOutOfRange (e.thread.pc + 3 + d.toInt)) := by
  obtain ⟨op, jump, rfl, hop, hjumps, htext⟩ := jump_of_byte e.thread taken
  have hdec := decode_jump hop (show reading code e.thread.pc = some op.byte from hb)
  have hd : e.decoded = decode (reading code) e.thread.pc := by rw [Engine.decoded_eq, hcode]
  cases hv : readValue? (reading code) (e.thread.pc + 1) with
  | none =>
    rw [hv] at hdec
    rw [hd, hdec] at hl
    exact absurd ⟨op, (Option.some.inj hl).symm⟩ whole
  | some d =>
    rw [hv] at hdec
    rw [hdec] at hd
    rw [hd] at hl
    cases hl
    refine ⟨d, rfl, fun hin => ?_, fun hout => ?_⟩
    · have reach : ((e.thread.pc + 3 + d.toInt).toNat : Int) = e.thread.pc + 3 + d.toInt :=
        Int.toNat_of_nonneg hin
      obtain ⟨e', hstep, hpc⟩ := Engine.step_jumps (p := p) hx hd (hjumps d) reach
      refine ⟨e', hstep, by rw [hpc, reach], fun hlen => ?_⟩
      -- a jump lies within the code, and cannot lead far behind it
      have hfits := decode_fits hdec
      rw [(hjumps d).size] at hfits
      have hd := d.toInt_lt
      rw [htext, hpc]
      apply Line.trailing_jump
      · rw [reach]
        omega
      · omega
    · exact ⟨_, Engine.step_jumps_out hx hd (hjumps d) hout, rfl⟩

theorem foretells_of_line (hx : e.thread.state = .executing) (hcode : e.image.code = code)
    (hl : (decode (reading code) e.thread.pc).line? = some l)
    (hb : code[e.thread.pc]? = some byte)
    (hnext : l.Precedes code.length e.thread.pc next) :
    Foretells code (l.text e.thread.pc) byte ((next.map Prod.fst).getD code.length) p e := by
  have hd : e.decoded = decode (reading code) e.thread.pc := by rw [Engine.decoded_eq, hcode]
  have hbyte : e.decoded.byte? = some byte := by
    rw [hd, byte?_decode]
    exact hb
  rw [← hd] at hl
  refine ⟨?_, ?_, fun stays _ _ h => falls_of_line hx hl hbyte hnext stays h,
    fun taken whole => jumps_of_line hx hcode hl hb taken fun broken => ?_⟩
  · rw [Line.showsByte_text, Engine.step_unknown_iff hx]
    exact (Decoded.eq_unknown_iff hl hbyte).symm
  · rw [Line.showsTruncated_text, Engine.step_truncated_iff hx]
    exact (Decoded.eq_truncated_iff hl hbyte).symm
  · rw [(Line.showsTruncated_text l _).mpr broken] at whole
    cases whole

end

/-! ## whole listings -/

section
variable {code : List UInt8} {k o : Nat} {text : String}

theorem start_printed (h : code ≠ []) : (printed code).head?.map Prod.fst = some 0 := by
  have hhead : ((listing code.toArray).head?.map Prod.fst).getD code.length = 0 :=
    head_listFrom (Nat.zero_le _)
  have hlen : code.length ≠ 0 := fun hz => h (List.length_eq_zero_iff.mp hz)
  unfold printed
  rw [List.head?_map, Option.map_map]
  cases hl : (listing code.toArray).head? with
  | none =>
    rw [hl] at hhead
    exact absurd hhead hlen
  | some line =>
    rw [hl] at hhead
    exact congrArg some hhead

theorem next_printed (h : (printed code)[k]? = some (o, text)) :
    ∃ byte, code[o]? = some byte ∧
      (∀ o' text', (printed code)[k + 1]? = some (o', text') → o' = o + span byte) ∧
      ((printed code)[k + 1]? = none →
        Line.showsByte text = true ∨ Line.showsTruncated text = true ∨
          o + span byte = code.length) := by
  obtain ⟨l, hl, rfl⟩ := line_of_printed h
  have hdec := decode_of_listing hl
  obtain ⟨byte, hb⟩ := byte_of_line hdec
  have hbyte : (decode (reading code) o).byte? = some byte := (byte?_decode _ _).trans hb
  have hnext := precedes_listing hl
  unfold Line.Precedes at hnext
  refine ⟨byte, hb, fun o' text' h' => ?_, fun hnone => ?_⟩
  · obtain ⟨l', hl', -⟩ := line_of_printed h'
    rw [hl'] at hnext
    split at hnext
    · next n hn => exact hnext.trans (by rw [Decoded.length_line hdec hbyte hn])
    · cases hnext
  · have hlast : (listing code.toArray)[k + 1]? = none := by
      unfold printed at hnone
      rw [List.getElem?_map] at hnone
      exact Option.map_eq_none_iff.mp hnone
    rw [hlast] at hnext
    rw [Line.showsByte_text, Line.showsTruncated_text]
    cases l with
    | unknown b => exact .inl ⟨b, rfl⟩
    | truncated op => exact .inr (.inl ⟨op, rfl⟩)
    | builtin _ | operation _ _ =>
      rw [← Decoded.length_line hdec hbyte rfl]
      exact .inr (.inr hnext.symm)

theorem pairwise_printed (code : List UInt8) :
    ((printed code).map Prod.fst).Pairwise (· < ·) := by
  rw [← List.isChain_iff_pairwise, List.isChain_map, List.isChain_iff_getElem]
  intro k hk
  obtain ⟨byte, -, hnext, -⟩ := next_printed (List.getElem?_eq_getElem (Nat.lt_of_succ_lt hk))
  have heq : (printed code)[k + 1].1 = (printed code)[k].1 + span byte :=
    hnext _ _ (List.getElem?_eq_getElem hk)
  have hpos := span_pos byte
  omega

end

/-- A printed listing agrees with execution.  Its lines begin at 0, each where the one before ends,
and they reach the end of the code unless the last is no complete instruction; and every line
foretells what a step of an engine there does. -/
theorem listing_foretells_steps (code : List UInt8) :
    (code ≠ [] → (printed code).head?.map Prod.fst = some 0) ∧
    ((printed code).map Prod.fst).Pairwise (· < ·) ∧
    ∀ k o text, (printed code)[k]? = some (o, text) →
      ∃ byte, code[o]? = some byte ∧
        (∀ o' text', (printed code)[k + 1]? = some (o', text') → o' = o + span byte) ∧
        ((printed code)[k + 1]? = none →
          Line.showsByte text = true ∨ Line.showsTruncated text = true ∨
            o + span byte = code.length) ∧
        ∀ (σ : Type) (p : Peripherals σ) (e : Engine σ), e.thread.state = .executing →
          e.thread.pc = o → e.image.code = code →
          Foretells code text byte (((printed code)[k + 1]?.map Prod.fst).getD code.length) p e := by
  refine ⟨start_printed, pairwise_printed code, fun k o text h => ?_⟩
  obtain ⟨byte, hb, hnext, hlast⟩ := next_printed h
  refine ⟨byte, hb, hnext, hlast, fun σ p e hx hpc hcode => ?_⟩
  subst hpc
  obtain ⟨l, hl, rfl⟩ := line_of_printed h
  rw [fst_printed]
  exact foretells_of_line hx hcode (decode_of_listing hl) hb (precedes_listing hl)

/-- A loop whose jump back leads into the operand of the jump before it, and a byte that is no
instruction. -/
def roundabout : List UInt8 := [0x01, 0x15, 0, 0, 0x14, 0xFC, 0xFF, 0x7F]

def turning : Engine Unit where
  image := .ofParts [⟨0, 0, 0⟩] [] roundabout 0
  thread := { Thread.idle with state := .executing, routine := some 0, pc := 4 }
  devices := ()

theorem listing_foretells_steps_turning :
    printed roundabout =
      [(0, "zero"), (1, "jz +0 ; -> 0004"), (4, "jmp -4 ; -> 0003"), (7, ".byte 0x7f")] ∧
    ∃ e', turning.step Engine.silent = (.ok .running, e') ∧ (e'.thread.pc : Int) = 3 ∧
      Hex.trailing "jmp -4 ; -> 0003" = e'.thread.pc := by
  have hprinted : printed roundabout =
      [(0, "zero"), (1, "jz +0 ; -> 0004"), (4, "jmp -4 ; -> 0003"), (7, ".byte 0x7f")] := by
    decide +kernel
  obtain ⟨byte, hb, -, -, hsteps⟩ :=
    (listing_foretells_steps roundabout).2.2 2 4 "jmp -4 ; -> 0003" (by rw [hprinted]; rfl)
  cases hb
  obtain ⟨d, hd, inside, -⟩ := (hsteps Unit Engine.silent turning rfl rfl rfl).jumps (.inl rfl)
    (by decide +kernel)
  cases hd
  obtain ⟨e', hstep, hpc, hshown⟩ := inside (by decide +kernel)
  exact ⟨hprinted, e', hstep, hpc, hshown (by decide +kernel)⟩

end TickMachine
