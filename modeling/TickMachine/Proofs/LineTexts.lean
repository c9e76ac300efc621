import Mathlib.Algebra.Group.Nat.Defs
import Mathlib.Data.List.TakeWhile
import TickMachine.Listing

/-!
# What the lines of a listing say

A listing is read as text: what kind of line it is shows at its beginning or end, and the target of
a jump is the hexadecimal number at its end.

* `Hex.number`, `Hex.number_padded`   an address is read as the number that was written;
* `Hex.trailing`, `Hex.trailing_append_address`   the number at the end of a text;
* `Line.showsByte_text`, `Line.showsTruncated_text`   which lines show a byte or break off;
* `Line.trailing_jump`   a jump shows its target.
-/

namespace TickMachine

namespace Hex

/-! ## reading hexadecimal numbers -/

def isDigit (c : Char) : Bool := c ∈ ['0', '1', '2', '3', '4', '5', '6', '7', '8', '9', 'a', 'b',
  'c', 'd', 'e', 'f']

def digit (c : Char) : Nat := if c.toNat < 97 then c.toNat - 48 else c.toNat - 87

def number (digits : List Char) : Nat := digits.foldl (fun n c => 16 * n + digit c) 0

/-- The number that the hexadecimal digits at the end of a text make. -/
def trailing (text : String) : Nat :=
  number ((text.toList.reverse.takeWhile isDigit).reverse)

theorem isDigit_digitChar : ∀ d < 16, isDigit (Nat.digitChar d) = true := by decide

theorem digit_digitChar : ∀ d < 16, digit (Nat.digitChar d) = d := by decide

theorem number_concat (digits : List Char) (c : Char) :
    number (digits ++ [c]) = 16 * number digits + digit c := by
  unfold number
  rw [List.foldl_append]
  rfl

theorem number_replicate_append (k : Nat) (digits : List Char) :
    number (List.replicate k '0' ++ digits) = number digits := by
  induction k with
  | zero => rfl
  | succ k ih => exact ih

theorem number_toDigits (n : Nat) : number (Nat.toDigits 16 n) = n := by
  induction n using Nat.strongRecOn with
  | ind n ih =>
    rw [Nat.toDigits_eq_if (by decide)]
    split
    · next h =>
      show 16 * 0 + digit (Nat.digitChar n) = n
      rw [digit_digitChar n h]
      omega
    · next h =>
      rw [number_concat, ih (n / 16) (by omega), digit_digitChar _ (by omega)]
      omega

theorem isDigit_of_mem_toDigits {n : Nat} {c : Char} (h : c ∈ Nat.toDigits 16 n) :
    isDigit c = true := by
  induction n using Nat.strongRecOn with
  | ind n ih =>
    rw [Nat.toDigits_eq_if (by decide)] at h
    split at h
    · next hlt =>
      rw [List.mem_singleton.mp h]
      exact isDigit_digitChar n hlt
    · next hle =>
      rcases List.mem_append.mp h with h | h
      · exact ih (n / 16) (by omega) h
      · rw [List.mem_singleton.mp h]
        exact isDigit_digitChar _ (by omega)

theorem toList_padded (width n : Nat) :
    (padded width n).toList =
      List.replicate (width - (Nat.toDigits 16 n).length) '0' ++ Nat.toDigits 16 n :=
  String.toList_ofList

theorem number_padded (width n : Nat) : number (padded width n).toList = n := by
  rw [toList_padded, number_replicate_append, number_toDigits]

theorem padded_ne_nil (width n : Nat) : (padded width n).toList ≠ [] := by
  rw [toList_padded]
  exact List.append_ne_nil_of_right_ne_nil _ Nat.toDigits_ne_nil

theorem isDigit_of_mem_padded {width n : Nat} {c : Char} (h : c ∈ (padded width n).toList) :
    isDigit c = true := by
  rw [toList_padded] at h
  rcases List.mem_append.mp h with h | h
  · rw [(List.mem_replicate.mp h).2]
    decide
  · exact isDigit_of_mem_toDigits h

/-- The number at the end of a text is read up to the blank before it. -/
theorem trailing_append_address {text : String} (blank : text.toList.getLast? = some ' ')
    (n : Nat) : trailing (text ++ address n) = n := by
  obtain ⟨before, hbefore⟩ := List.getLast?_eq_some_iff.mp blank
  have hstop : (' ' :: before.reverse).takeWhile isDigit = [] := rfl
  have hrev : (text ++ address n).toList.reverse =
      (address n).toList.reverse ++ ' ' :: before.reverse := by
    rw [String.toList_append, hbefore]
    simp
  have hdigits : ∀ c ∈ (address n).toList.reverse, isDigit c = true := fun c hc =>
    isDigit_of_mem_padded (List.mem_reverse.mp hc)
  unfold trailing
  rw [hrev, List.takeWhile_append_of_pos hdigits, hstop, List.append_nil, List.reverse_reverse]
  exact number_padded 4 n

theorem complement_of_nat {n : Nat} (h : n < 2 ^ 64) : complement n = n := by
  unfold complement
  omega

end Hex

namespace Line

/-! ## kinds of lines -/

/-- The text shows a byte that begins no instruction. -/
def showsByte (text : String) : Bool := ".byte ".toList.isPrefixOf text.toList

/-- The text shows an instruction that breaks off. -/
def showsTruncated (text : String) : Bool := " <truncated>".toList.isSuffixOf text.toList

theorem head?_of_showsByte {text : String} (h : showsByte text = true) :
    text.toList.head? = some '.' := by
  obtain ⟨rest, hrest⟩ := List.isPrefixOf_iff_prefix.mp h
  rw [← hrest]
  rfl

theorem getLast?_of_showsTruncated {text : String} (h : showsTruncated text = true) :
    text.toList.getLast? = some '>' := by
  obtain ⟨rest, hrest⟩ := List.isSuffixOf_iff_suffix.mp h
  rw [← hrest, List.getLast?_append]
  rfl

/-- A text that begins otherwise than with a point. -/
def Undotted (text : String) : Prop := text.toList ≠ [] ∧ text.toList.head? ≠ some '.'

/-- A text that ends otherwise than with an angle bracket. -/
def Unclosed (text : String) : Prop := text.toList ≠ [] ∧ text.toList.getLast? ≠ some '>'

theorem Undotted.append {text : String} (h : Undotted text) (more : String) :
    Undotted (text ++ more) := by
  obtain ⟨hne, hhead⟩ := h
  constructor
  · rw [String.toList_append]
    exact List.append_ne_nil_of_left_ne_nil hne _
  · intro hdot
    rw [String.toList_append, List.head?_append] at hdot
    cases htext : text.toList.head? with
    | none => exact hne (List.head?_eq_none_iff.mp htext)
    | some c =>
      rw [htext] at hdot hhead
      exact hhead hdot

theorem Unclosed.append {more : String} (h : Unclosed more) (text : String) :
    Unclosed (text ++ more) := by
  obtain ⟨hne, hlast⟩ := h
  constructor
  · rw [String.toList_append]
    exact List.append_ne_nil_of_right_ne_nil _ hne
  · intro hclosed
    rw [String.toList_append, List.getLast?_append] at hclosed
    cases hmore : more.toList.getLast? with
    | none => exact hne (List.getLast?_eq_none_iff.mp hmore)
    | some c =>
      rw [hmore] at hclosed hlast
      exact hlast hclosed

theorem unclosed_of_notMem {text : String} (hne : text.toList ≠ []) (h : '>' ∉ text.toList) :
    Unclosed text :=
  ⟨hne, fun hlast => h (List.mem_of_getLast? hlast)⟩

theorem undotted_mnemonic (op : Opcode) : Undotted op.mnemonic := by
  unfold Undotted
  cases op <;> decide

theorem undotted_name (b : Builtin) : Undotted b.name := by
  unfold Undotted
  cases b <;> decide

theorem unclosed_mnemonic (op : Opcode) : Unclosed op.mnemonic := by
  unfold Unclosed
  cases op <;> decide

theorem unclosed_nat (n : Nat) : Unclosed (Nat.repr n) := by
  have hdigits : (Nat.repr n).toList = Nat.toDigits 10 n := by
    rw [Nat.repr_eq_ofList_toDigits, String.toList_ofList]
  apply unclosed_of_notMem
  · rw [hdigits]
    exact Nat.toDigits_ne_nil
  · rw [hdigits]
    intro h
    cases Nat.isDigit_of_mem_toDigits (by decide) (by decide) h

theorem unclosed_int (i : Int) : Unclosed (toString i) := by
  cases i with
  | ofNat n => exact unclosed_nat n
  | negSucc n => exact (unclosed_nat (n + 1)).append "-"

theorem unclosed_padded (width n : Nat) : Unclosed (Hex.padded width n) := by
  apply unclosed_of_notMem (Hex.padded_ne_nil width n)
  intro h
  cases Hex.isDigit_of_mem_padded h

theorem undotted_jumpText (op : Opcode) (d : Value) (next : Nat) :
    Undotted (jumpText op.mnemonic d next) :=
  ((((undotted_mnemonic op).append _).append _).append _).append _

theorem undotted_operationText (op : Opcode) (operand : List UInt8) (pc : Nat) :
    Undotted (operationText op operand pc) := by
  unfold operationText
  split
  · exact undotted_jumpText .jmp _ _
  · exact undotted_jumpText .jz _ _
  · exact ((undotted_mnemonic op).append _).append _
  · exact ((undotted_mnemonic op).append _).append _
  · exact undotted_mnemonic op

theorem unclosed_operationText (op : Opcode) (operand : List UInt8) (pc : Nat) :
    Unclosed (operationText op operand pc) := by
  unfold operationText
  split
  · exact (unclosed_padded 4 _).append _
  · exact (unclosed_padded 4 _).append _
  · exact (unclosed_int _).append _
  · exact (unclosed_int _).append _
  · exact unclosed_mnemonic op

/-- A line shows a byte exactly if there is no instruction for it. -/
theorem showsByte_text (l : Line) (pc : Nat) :
    showsByte (l.text pc) = true ↔ ∃ byte, l = .unknown byte := by
  constructor
  · intro h
    have hdot := head?_of_showsByte h
    cases l with
    | builtin b => exact absurd hdot ((((undotted_name b).append _).append _).append _).2
    | operation op operand => exact absurd hdot (undotted_operationText op operand pc).2
    | unknown byte => exact ⟨byte, rfl⟩
    | truncated op => exact absurd hdot ((undotted_mnemonic op).append _).2
  · rintro ⟨byte, rfl⟩
    apply List.isPrefixOf_iff_prefix.mpr
    show _ <+: (".byte " ++ Hex.byte byte).toList
    rw [String.toList_append]
    exact List.prefix_append _ _

/-- A line shows that it breaks off exactly if its instruction does. -/
theorem showsTruncated_text (l : Line) (pc : Nat) :
    showsTruncated (l.text pc) = true ↔ ∃ op, l = .truncated op := by
  constructor
  · intro h
    have hclosed := getLast?_of_showsTruncated h
    cases l with
    | builtin b => exact absurd hclosed (Unclosed.append ⟨by decide, by decide⟩ _).2
    | operation op operand => exact absurd hclosed (unclosed_operationText op operand pc).2
    | unknown byte => exact absurd hclosed (((unclosed_padded 2 _).append _).append _).2
    | truncated op => exact ⟨op, rfl⟩
  · rintro ⟨op, rfl⟩
    apply List.isSuffixOf_iff_suffix.mpr
    show _ <:+ (op.mnemonic ++ " <truncated>").toList
    rw [String.toList_append]
    exact List.suffix_append _ _

theorem operationText_bytes (op : Opcode) (v : Value) (pc : Nat) :
    operationText op v.bytes pc = match op with
      | .jmp | .jz => jumpText op.mnemonic v (pc + 3)
      | op => operandText op v.toInt := by
  cases op <;> simp only [operationText, Value.bytes, Value.ofBytes_lo_hi]

theorem trailing_jump (mnemonic : String) (d : Value) {next target : Nat}
    (reach : (target : Int) = next + d.toInt) (inMemory : target < 2 ^ 64) :
    Hex.trailing (jumpText mnemonic d next) = target := by
  unfold jumpText
  dsimp only
  rw [← reach, Hex.complement_of_nat inMemory]
  apply Hex.trailing_append_address
  rw [String.toList_append, List.getLast?_append]
  rfl

end Line
end TickMachine
