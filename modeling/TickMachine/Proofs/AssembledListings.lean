import TickMachine.Proofs.AssembledCode
import TickMachine.Proofs.Listings

/-!
# Listings of assembled code

A listing finds the instructions of a code one after the other, by their sizes; an assembler has
emitted them one after the other.  So the listing of assembled code shows what was emitted, and
nothing else: operands of jumps may be written many times and may look like any instruction, but
an operand is never taken for the beginning of one.

* `Directive.line?`   the line that shows what a directive emits;
* `Assembler.lastDisplacement`, `Stands.lastDisplacement`   what an open jump holds in the end, and
                       that it stands there with it;
* `Assembler.emissions`, `Assembler.lines`   the instructions that are emitted, and their lines;
* `Assembler.listFrom_emissions`   these are the instructions that a listing finds;
* `Assembler.listing_shows_emissions`   and these are its lines.
-/

namespace TickMachine

/-! ## what is shown -/

namespace Directive

def jumpLine (mnemonic : String) (here : Nat) (x : Value) : String :=
  let target : Int := here + 3 + x.toInt
  mnemonic ++ " " ++ Line.signed x.toInt ++ " ; -> " ++ Hex.address (Hex.complement target)

/-- The line that shows what a directive emits at the address `here`, where `x` is the displacement
that an open jump has in the end.  An operand that does not fit is shown as zero. -/
def line? (here : Nat) (x : Value) : Directive → Option String
  | .pushConst v => some s!"pushconst {v.toInt}"
  | .zero => some "zero"
  | .drop => some "drop"
  | .getGlobal index => some s!"getglobal {index.toNat}"
  | .setGlobal index => some s!"setglobal {index.toNat}"
  | .getLocal index => some s!"getlocal {index.toNat}"
  | .setLocal index => some s!"setlocal {index.toNat}"
  | .call id =>
    let id := if id < 256 then id else 0
    some s!"call {id}"
  | .ret count => some s!"ret {count.toNat}"
  | .builtin name => (Builtin.ofName? name).map fun b => s!"{name} ({b.arity})"
  | .jmpTo t => some (jumpLine "jmp" here (Assembler.displacement (here + 1) t))
  | .jzTo t => some (jumpLine "jz" here (Assembler.displacement (here + 1) t))
  | .jmp => some (jumpLine "jmp" here x)
  | .jz => some (jumpLine "jz" here x)
  | .routine .. | .global _ | .patch .. | .patchHere _ => none

/-- The displacement that a directive writes for the open jump `j`, which stands at `o`. -/
def aims? (here j o : Nat) (d : Directive) : Option Value :=
  (d.aim? here).bind fun aimed =>
    if aimed.1 = j then some (Assembler.displacement (o + 1) aimed.2) else none

def final? (here : Nat) (x : Value) : Directive → Option Instruction
  | .jmp => some (.jmp x)
  | .jz => some (.jz x)
  | d => d.emission? here

end Directive

namespace Assembler

/-- What the open jump `j`, which stands at `o`, holds after the directives, if it holds `x` before
them: what was written for it last. -/
def lastDisplacement (a : Assembler) (j o : Nat) (x : Value) : List Directive → Value
  | [] => x
  | d :: ds => lastDisplacement (a.apply d).1 j o ((d.aims? a.here j o).getD x) ds

def opened (a : Assembler) (d : Directive) (after : List Directive) : Value :=
  (a.apply d).1.lastDisplacement a.jumps.size a.here 0 after

def emissions (a : Assembler) : List Directive → List (Nat × Instruction)
  | [] => []
  | d :: ds =>
    match d.final? a.here (a.opened d ds) with
    | some i => (a.here, i) :: emissions (a.apply d).1 ds
    | none => emissions (a.apply d).1 ds

/-- A line for each instruction that is emitted, in the order of emission. -/
def lines (a : Assembler) : List Directive → List (Nat × String)
  | [] => []
  | d :: ds =>
    match d.line? a.here (a.opened d ds) with
    | some text => (a.here, text) :: lines (a.apply d).1 ds
    | none => lines (a.apply d).1 ds

variable {a : Assembler} {d : Directive} {ds : List Directive}

/-! ## the text of a line -/

theorem toNat_callOperand (id : Nat) :
    (if id < 256 then UInt8.ofNat id else 0).toNat = if id < 256 then id else 0 := by
  split
  · next h => exact UInt8.toNat_ofNat_of_lt' h
  · rfl

theorem line?_eq (d : Directive) (here : Nat) (x : Value) :
    d.line? here x = (d.final? here x).map fun i => i.line.text here := by
  cases d with
  | pushConst v => exact congrArg some (Line.operationText_bytes .pushConst v here).symm
  | jmp => exact congrArg some (Line.operationText_bytes .jmp x here).symm
  | jz => exact congrArg some (Line.operationText_bytes .jz x here).symm
  | jmpTo t => exact congrArg some (Line.operationText_bytes .jmp _ here).symm
  | jzTo t => exact congrArg some (Line.operationText_bytes .jz _ here).symm
  | call id =>
    show some _ = some (Line.operandText .call _)
    rw [toNat_callOperand]
    rfl
  | builtin name =>
    show Option.map _ (Builtin.ofName? name) = Option.map _ (Option.map _ (Builtin.ofName? name))
    cases hb : Builtin.ofName? name with
    | none => rfl
    | some b =>
      rw [← Builtin.name_of_ofName? hb]
      rfl
  | _ => rfl

theorem lines_eq (a : Assembler) (ds : List Directive) :
    a.lines ds = (a.emissions ds).map fun e => (e.1, e.2.line.text e.1) := by
  induction ds generalizing a with
  | nil => rfl
  | cons d ds ih =>
    unfold lines emissions
    rw [line?_eq]
    cases d.final? a.here (a.opened d ds) with
    | some i =>
      show (a.here, _) :: _ = (a.here, _) :: _
      rw [ih]
    | none => exact ih _

/-! ## what stands there in the end -/

theorem aims?_of_aim {here j o : Nat} {t : UInt64} (aim : d.aim? here = some (j, t)) :
    d.aims? here j o = some (displacement (o + 1) t) := by
  unfold Directive.aims?
  rw [aim]
  exact if_pos rfl

theorem aims?_eq_none {here j o : Nat} (other : ∀ t, d.aim? here ≠ some (j, t)) :
    d.aims? here j o = none := by
  unfold Directive.aims?
  cases haim : d.aim? here with
  | none => rfl
  | some aimed =>
    refine if_neg fun hj => other aimed.2 ?_
    rw [haim, ← hj]

theorem Stands.lastDisplacement {o j : Nat} {jump : Value → Instruction} {x : Value}
    (hjump : jump = .jmp ∨ jump = .jz) (h : Stands a o (jump x) (some j))
    (ds : List Directive) :
    Stands (a.applyAll ds) o (jump (a.lastDisplacement j o x ds)) (some j) := by
  induction ds generalizing a x with
  | nil => exact h
  | cons d ds ih =>
    unfold Assembler.lastDisplacement
    by_cases own : ∃ t, d.aim? a.here = some (j, t)
    · obtain ⟨t, aim⟩ := own
      rw [aims?_of_aim aim]
      exact ih (h.apply_own hjump aim)
    · have other : ∀ t, d.aim? a.here ≠ some (j, t) := fun t aim => own ⟨t, aim⟩
      rw [aims?_eq_none other]
      refine ih (h.apply fun j' t aim hj => ?_)
      cases hj
      exact other t aim

theorem final?_eq_emission? (closed : d.opens = false) (here : Nat) (x : Value) :
    d.final? here x = d.emission? here := by
  cases d <;> first | rfl | cases closed

theorem final_stands (sited : Sited a) {i : Instruction}
    (h : d.final? a.here (a.opened d ds) = some i) :
    (∃ number, Stands (a.applyAll (d :: ds)) a.here i number) ∧
      (a.apply d).1.here = a.here + i.size := by
  by_cases hopens : d.opens = true
  · rcases opens_iff.mp hopens with rfl | rfl
    · cases h
      have hstands := stands_emission sited (d := .jmp) rfl
      have hhere := here_apply_of_emission (a := a) (d := .jmp) rfl
      exact ⟨⟨_, hstands.lastDisplacement (.inl rfl) ds⟩, hhere⟩
    · cases h
      have hstands := stands_emission sited (d := .jz) rfl
      have hhere := here_apply_of_emission (a := a) (d := .jz) rfl
      exact ⟨⟨_, hstands.lastDisplacement (.inr rfl) ds⟩, hhere⟩
  · rw [final?_eq_emission? (Bool.eq_false_iff.mpr hopens)] at h
    have hstands := stands_emission sited h
    rw [if_neg hopens] at hstands
    exact ⟨⟨_, hstands.applyAll ds⟩, here_apply_of_emission h⟩

theorem isSome_final? (d : Directive) (here : Nat) (x : Value) :
    (d.final? here x).isSome = d.emits := by
  cases d with
  | builtin name => exact Option.isSome_map
  | _ => rfl

/-! ## what a listing finds -/

theorem Stands.decode_reading {o : Nat} {i : Instruction} {number : Option Nat}
    (h : Stands a o i number) :
    TickMachine.decode (reading a.code.toList) o = .instruction i := by
  apply decode_of_encode
  intro k hk
  rw [← h.bytes k hk]
  exact Array.getElem?_toList

theorem Stands.at? {o : Nat} {i : Instruction} {number : Option Nat} (h : Stands a o i number) :
    Line.at? a.code o = some i.line := by
  have hline := decode_line a.code.toList o
  rw [h.decode_reading, Array.toArray_toList] at hline
  exact hline.symm

/-- From where the code ends now, a listing of the whole will find what is emitted from now on. -/
theorem listFrom_emissions (sited : Sited a) (ds : List Directive) :
    listFrom (a.applyAll ds).code a.here = (a.emissions ds).map fun e => (e.1, e.2.line) := by
  induction ds generalizing a with
  | nil =>
    exact listFrom_of_none (Option.map_eq_none_iff.mpr (Array.getElem?_eq_none (Nat.le_refl _)))
  | cons d ds ih =>
    have hrest := ih (sited.apply d)
    unfold emissions
    cases hfinal : d.final? a.here (a.opened d ds) with
    | none =>
      -- nothing is emitted, so the code ends where it did
      have hemits := isSome_final? d a.here (a.opened d ds)
      rw [hfinal] at hemits
      rw [here_apply_of_not_emits hemits.symm] at hrest
      exact hrest
    | some i =>
      obtain ⟨⟨number, hstands⟩, hhere⟩ := final_stands sited hfinal
      rw [hhere] at hrest
      rw [listFrom_of_length hstands.at? i.length?_line]
      exact congrArg _ hrest

theorem printed_applyAll (ds : List Directive) :
    printed (applyAll {} ds).code.toList = lines {} ds := by
  have hlist := listFrom_emissions sited_empty ds
  unfold printed listing
  rw [Array.toArray_toList]
  show List.map _ (listFrom _ (here {})) = _
  rw [hlist, lines_eq, List.map_map]
  rfl

theorem length_lines (a : Assembler) (ds : List Directive) :
    (a.lines ds).length = ds.countP Directive.emits := by
  rw [lines_eq, List.length_map]
  induction ds generalizing a with
  | nil => rfl
  | cons d ds ih =>
    have hemits := isSome_final? d a.here (a.opened d ds)
    unfold emissions
    cases hfinal : d.final? a.here (a.opened d ds) with
    | none =>
      rw [hfinal] at hemits
      rw [List.countP_cons_of_neg (by rw [← hemits]; exact nofun)]
      exact ih _
    | some i =>
      rw [hfinal] at hemits
      rw [List.countP_cons_of_pos (by rw [← hemits]; rfl)]
      exact congrArg (· + 1) (ih _)

theorem lines_whole {line : Nat × String} (h : line ∈ a.lines ds) :
    Line.showsByte line.2 = false ∧ Line.showsTruncated line.2 = false := by
  rw [lines_eq] at h
  obtain ⟨⟨o, i⟩, -, rfl⟩ := List.mem_map.mp h
  refine ⟨Bool.eq_false_iff.mpr fun hbyte => ?_, Bool.eq_false_iff.mpr fun hcut => ?_⟩
  · obtain ⟨byte, hline⟩ := (Line.showsByte_text i.line o).mp hbyte
    cases i <;> cases hline
  · obtain ⟨op, hline⟩ := (Line.showsTruncated_text i.line o).mp hcut
    cases i <;> cases hline

/-- **A listing of assembled code shows what was emitted.**  Its lines are those of the instructions
that were emitted, in their order, each at the address where it was emitted and with the operand
that it holds in the end.  There are as many lines as directives that emit an instruction, and no
line shows a byte or breaks off. -/
theorem listing_shows_emissions (ds : List Directive) :
    printed (applyAll {} ds).code.toList = lines {} ds ∧
    (printed (applyAll {} ds).code.toList).length = ds.countP Directive.emits ∧
    ∀ line ∈ printed (applyAll {} ds).code.toList,
      Line.showsByte line.2 = false ∧ Line.showsTruncated line.2 = false := by
  rw [printed_applyAll]
  exact ⟨rfl, length_lines {} ds, fun line => lines_whole⟩

/-- An open jump that is aimed too far and then over a call and a jump, whose operands do not fit;
after them a constant that looks like two instructions, and a jump back. -/
def winding : List Directive :=
  [.global 3, .routine 0 0, .pushConst (-5), .jz, .call 300, .builtin "fill-rect", .jmpTo 40000,
    .patch 0 100000, .patchHere 0, .pushConst 0x0D01, .builtin "frobnicate", .jmpTo 0]

theorem listing_shows_emissions_winding :
    lines {} winding = [(0, "pushconst -5"), (3, "jz +6 ; -> 000c"), (6, "call 0"),
      (8, "fill-rect (5)"), (9, "jmp +0 ; -> 000c"), (12, "pushconst 3329"),
      (15, "jmp -18 ; -> 0000")] ∧
    printed (applyAll {} winding).code.toList = lines {} winding ∧
    (printed (applyAll {} winding).code.toList).length = 7 ∧
    Line.showsByte "call 0" = false := by
  have hlines : lines {} winding = [(0, "pushconst -5"), (3, "jz +6 ; -> 000c"), (6, "call 0"),
      (8, "fill-rect (5)"), (9, "jmp +0 ; -> 000c"), (12, "pushconst 3329"),
      (15, "jmp -18 ; -> 0000")] := by
    decide +kernel
  obtain ⟨hprinted, hlength, hwhole⟩ := listing_shows_emissions winding
  refine ⟨hlines, hprinted, hlength, (hwhole (6, "call 0") ?_).1⟩
  rw [hprinted, hlines]
  decide

end Assembler
end TickMachine
