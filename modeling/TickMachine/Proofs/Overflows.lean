import TickMachine.Proofs.AssembledCode

/-!
# Operands that do not fit

An assembler goes on after an operand that does not fit its field.  The field is left zero, and the
first such operand is what is reported in the end.  That holds of everything that an assembler can
be told, with one proviso: the target of a jump is read as a signed number.  A target in the upper
half of the 64-bit range counts as one before the code, and a jump there may seem short.

* `Assembler.Overflows`   an operand of a directive does not fit, under a reading of targets;
* `Assembler.Zeroed`   what is written instead;
* `Assembler.error_applyAll`   the error that is kept is the first;
* `Assembler.Reports`   nothing that does not fit goes unreported;
* `Assembler.reports_signed`   so it is for targets read as signed numbers;
* `Assembler.overflows_reported`   and hence for all targets that can be offsets in memory;
* `Assembler.wrapped_jump_unreported`   other targets may go unreported.
-/

namespace TickMachine

namespace Directive

def isRoutine : Directive → Bool
  | .routine .. => true
  | _ => false

end Directive

namespace Assembler

/-! ## what does not fit -/

/-- A target as the offset that it is. -/
def unsigned (target : UInt64) : Int := target.toNat

def signed (target : UInt64) : Int := target.toInt64.toInt

/-- The directive lets the jump with its operand at `site` lead to a target. -/
inductive Aims (a : Assembler) : Directive → Nat → UInt64 → Prop where
  | jmpTo (t : UInt64) : Aims a (.jmpTo t) (a.here + 1) t
  | jzTo (t : UInt64) : Aims a (.jzTo t) (a.here + 1) t
  | patch {j site : Nat} (t : UInt64) (sited : a.jumps[j]? = some site) :
      Aims a (.patch j t) site t
  | patchHere {j site : Nat} (sited : a.jumps[j]? = some site) :
      Aims a (.patchHere j) site (UInt64.ofNat a.here)

/-- An operand of the directive does not fit its field, and this is the error.  Jumps count from the
byte after their operand. -/
inductive Overflows (value : UInt64 → Int) (a : Assembler) : Directive → AssemblyError → Prop where
  | routine (argc locals : UInt8) (far : 65535 < a.here) :
      Overflows value a (.routine argc locals) (.routineTooFar a.here)
  | global (v : Value) (many : 255 < a.globals.size) :
      Overflows value a (.global v) (.globalTooMany a.globals.size)
  | call {id : Nat} (large : 255 < id) : Overflows value a (.call id) (.routineIdTooLarge id)
  | jump {d : Directive} {site : Nat} {t : UInt64} (aims : Aims a d site t)
      (far : value t - (site + 2) < -32768 ∨ 32767 < value t - (site + 2)) :
      Overflows value a d (.jumpTooFar (site - 1) t)

/-- The directive writes zero for its operand, and writes nothing else anew. -/
def Zeroed (a : Assembler) (d : Directive) : Prop :=
  match d with
  | .routine argc locals =>
    (a.apply d).1.code = a.code ∧ (a.apply d).1.routines = a.routines.push ⟨argc, locals, 0⟩
  | .global _ => (a.apply d).1.code = a.code ∧ (a.apply d).2 = .ok (some 0)
  | .call _ => (a.apply d).1.code = a.code ++ (Instruction.call 0).encode
  | .jmpTo _ => (a.apply d).1.code = a.code ++ (Instruction.jmp 0).encode
  | .jzTo _ => (a.apply d).1.code = a.code ++ (Instruction.jz 0).encode
  | .patch j _ | .patchHere j => ∀ site : Nat, a.jumps[j]? = some site → ∀ k : Nat,
    (a.apply d).1.code[k]? = if k = site ∨ k = site + 1 then some 0 else a.code[k]?
  | _ => False

def Clean (value : UInt64 → Int) (a : Assembler) (ds : List Directive) : Prop :=
  ∀ before d after e, ds = before ++ d :: after → ¬ Overflows value (a.applyAll before) d e

/-- Nothing that does not fit goes unreported.  Assembling fails if and only if an operand does not
fit or there are too many routines; the error is that of the first operand that does not fit, and
about the routines only if there is none; and what does not fit is written as zero. -/
structure Reports (value : UInt64 → Int) (ds : List Directive) (main : Nat) : Prop where
  fails : (∃ e, (applyAll {} ds).finish main = .error e) ↔
    (∃ before d after e, ds = before ++ d :: after ∧ Overflows value (applyAll {} before) d e) ∨
      256 < ds.countP Directive.isRoutine
  first : ∀ before d after e, ds = before ++ d :: after →
    Overflows value (applyAll {} before) d e → Clean value {} before →
    (applyAll {} ds).finish main = .error e
  count : Clean value {} ds → 256 < ds.countP Directive.isRoutine →
    (applyAll {} ds).finish main = .error (.tooManyRoutines (ds.countP Directive.isRoutine))
  zeroed : ∀ before d after e, ds = before ++ d :: after →
    Overflows value (applyAll {} before) d e → Zeroed (applyAll {} before) d

variable {a : Assembler} {d : Directive} {ds : List Directive}

theorem tooFar?_eq_some_iff {site : Nat} {t : UInt64} {e : AssemblyError} :
    tooFar? site t = some e ↔ e = .jumpTooFar (site - 1) t ∧
      (signed t - (site + 2) < -32768 ∨ 32767 < signed t - (site + 2)) := by
  have hreach : InReach site t ↔
      ¬ (signed t - (site + 2) < -32768 ∨ 32767 < signed t - (site + 2)) := by
    unfold InReach distance signed
    omega
  unfold tooFar?
  split
  · next hin => simp [hreach.mp hin]
  · next hout => simp [Decidable.not_not.mp (mt hreach.mpr hout), eq_comm]

/-- Read as signed numbers, targets are too far exactly when it is noticed. -/
theorem overflow?_eq_some_iff {e : AssemblyError} :
    d.overflow? a = some e ↔ Overflows signed a d e := by
  constructor
  · intro h
    cases d with
    | routine argc locals =>
      simp only [Directive.overflow?, Option.ite_none_left_eq_some, Option.some.injEq] at h
      obtain ⟨hfar, rfl⟩ := h
      exact .routine argc locals (Nat.le_of_not_lt hfar)
    | global v =>
      simp only [Directive.overflow?, Option.ite_none_left_eq_some, Option.some.injEq] at h
      obtain ⟨hmany, rfl⟩ := h
      exact .global v (Nat.le_of_not_lt hmany)
    | call id =>
      simp only [Directive.overflow?, Option.ite_none_left_eq_some, Option.some.injEq] at h
      obtain ⟨hlarge, rfl⟩ := h
      exact .call (Nat.le_of_not_lt hlarge)
    | jmpTo t =>
      obtain ⟨rfl, hfar⟩ := tooFar?_eq_some_iff.mp h
      exact .jump (.jmpTo t) hfar
    | jzTo t =>
      obtain ⟨rfl, hfar⟩ := tooFar?_eq_some_iff.mp h
      exact .jump (.jzTo t) hfar
    | patch j t =>
      obtain ⟨site, hsite, hover⟩ := Option.bind_eq_some_iff.mp h
      obtain ⟨rfl, hfar⟩ := tooFar?_eq_some_iff.mp hover
      exact .jump (.patch t hsite) hfar
    | patchHere j =>
      obtain ⟨site, hsite, hover⟩ := Option.bind_eq_some_iff.mp h
      obtain ⟨rfl, hfar⟩ := tooFar?_eq_some_iff.mp hover
      exact .jump (.patchHere hsite) hfar
    | _ => cases h
  · intro h
    cases h with
    | routine argc locals far => exact if_neg (Nat.not_lt.mpr far)
    | global v many => exact if_neg (Nat.not_lt.mpr many)
    | call large => exact if_neg (Nat.not_lt.mpr large)
    | jump aims far =>
      have htoo := tooFar?_eq_some_iff.mpr ⟨rfl, far⟩
      cases aims with
      | jmpTo => exact htoo
      | jzTo => exact htoo
      | patch t sited => exact Option.bind_eq_some_iff.mpr ⟨_, sited, htoo⟩
      | patchHere sited => exact Option.bind_eq_some_iff.mpr ⟨_, sited, htoo⟩

/-! ## the error that is kept -/

def firstOverflow? (a : Assembler) : List Directive → Option AssemblyError
  | [] => none
  | d :: ds => (d.overflow? a).or ((a.apply d).1.firstOverflow? ds)

theorem error_applyAll (a : Assembler) (ds : List Directive) :
    (a.applyAll ds).error = a.error.or (a.firstOverflow? ds) := by
  induction ds generalizing a with
  | nil => exact Option.or_none.symm
  | cons d ds ih =>
    show ((a.apply d).1.applyAll ds).error = _
    rw [ih, (obeys_apply a d).error, Option.or_assoc]
    rfl

theorem firstOverflow?_append (a : Assembler) (xs ys : List Directive) :
    a.firstOverflow? (xs ++ ys) = (a.firstOverflow? xs).or ((a.applyAll xs).firstOverflow? ys) := by
  induction xs generalizing a with
  | nil => rfl
  | cons d xs ih =>
    show (d.overflow? a).or ((a.apply d).1.firstOverflow? (xs ++ ys)) = _
    rw [ih, ← Option.or_assoc]
    rfl

theorem firstOverflow?_eq_none_iff : a.firstOverflow? ds = none ↔ Clean signed a ds := by
  constructor
  · rintro h before d after e rfl hover
    rw [firstOverflow?_append, Option.or_eq_none_iff] at h
    have hnone := (Option.or_eq_none_iff.mp h.2).1
    cases hnone.symm.trans (overflow?_eq_some_iff.mpr hover)
  · intro clean
    induction ds generalizing a with
    | nil => rfl
    | cons d ds ih =>
      refine Option.or_eq_none_iff.mpr ⟨?_, ih fun before d' after e hds => ?_⟩
      · refine Option.eq_none_iff_forall_ne_some.mpr fun e he => ?_
        exact clean [] d ds e rfl (overflow?_eq_some_iff.mp he)
      · exact clean (d :: before) d' after e (congrArg (d :: ·) hds)

theorem firstOverflow?_eq_some_iff {e : AssemblyError} : a.firstOverflow? ds = some e ↔
    ∃ before d after, ds = before ++ d :: after ∧ Clean signed a before ∧
      Overflows signed (a.applyAll before) d e := by
  simp only [← firstOverflow?_eq_none_iff, ← overflow?_eq_some_iff]
  constructor
  · intro h
    induction ds generalizing a with
    | nil => cases h
    | cons d ds ih =>
      rcases Option.or_eq_some_iff.mp h with hfirst | ⟨hnone, hlater⟩
      · exact ⟨[], d, ds, rfl, rfl, hfirst⟩
      · obtain ⟨before, d', after, rfl, hclean, hover⟩ := ih hlater
        exact ⟨d :: before, d', after, rfl, Option.or_eq_none_iff.mpr ⟨hnone, hclean⟩, hover⟩
  · rintro ⟨before, d, after, rfl, hclean, hover⟩
    rw [firstOverflow?_append, hclean]
    show (d.overflow? (a.applyAll before)).or _ = some e
    rw [hover, Option.some_or]

theorem isSome_routine? (d : Directive) (here : Nat) : (d.routine? here).isSome = d.isRoutine := by
  cases d <;> rfl

theorem size_routines_applyAll (a : Assembler) (ds : List Directive) :
    (a.applyAll ds).routines.size = a.routines.size + ds.countP Directive.isRoutine := by
  induction ds generalizing a with
  | nil => rfl
  | cons d ds ih =>
    show ((a.apply d).1.applyAll ds).routines.size = _
    rw [ih, (obeys_apply a d).routines, size_declared, isSome_routine?, List.countP_cons]
    omega

theorem size_routines (ds : List Directive) :
    (applyAll {} ds).routines.size = ds.countP Directive.isRoutine :=
  (size_routines_applyAll {} ds).trans (Nat.zero_add _)

theorem finish_eq_error_iff {main : Nat} {e : AssemblyError} :
    a.finish main = .error e ↔ a.error = some e ∨
      (a.error = none ∧ 256 < a.routines.size ∧ e = .tooManyRoutines a.routines.size) := by
  unfold finish
  cases a.error with
  | some e' => simp
  | none =>
    dsimp only
    split
    · next h => simp [h, eq_comm]
    · next h => simp [h]

/-! ## what is written instead -/

theorem displacement_of_tooFar {site : Nat} {t : UInt64} {e : AssemblyError}
    (h : tooFar? site t = some e) : displacement site t = 0 := by
  unfold tooFar? at h
  split at h
  · cases h
  · next hout => exact if_neg hout

theorem getElem?_setDisplacement_zero {site : Nat} (hsite : site + 2 ≤ a.here) (k : Nat) :
    (a.setDisplacement site 0).code[k]? =
      if k = site ∨ k = site + 1 then some 0 else a.code[k]? := by
  split
  · next hk =>
    rcases hk with rfl | rfl
    · exact getElem?_setDisplacement_low a 0 hsite
    · exact getElem?_setDisplacement_high a 0 hsite
  · exact getElem?_setDisplacement_of_ne a 0 (by omega)

theorem zeroed_aim (sited : Sited a) {j site : Nat} {t : UInt64}
    (aim : d.aim? a.here = some (j, t)) (hsite : a.jumps[j]? = some site)
    (hzero : displacement site t = 0) {site' : Nat} (hsite' : a.jumps[j]? = some site') (k : Nat) :
    (a.apply d).1.code[k]? = if k = site' ∨ k = site' + 1 then some 0 else a.code[k]? := by
  cases hsite.symm.trans hsite'
  rw [((writes_apply a d).aim aim hsite).1, hzero]
  exact getElem?_setDisplacement_zero (sited j site hsite) k

theorem Overflows.zeroed (sited : Sited a) {e : AssemblyError} (h : Overflows signed a d e) :
    Zeroed a d := by
  cases h with
  | routine argc locals far =>
    show (a.routine argc locals).code = _ ∧ (a.routine argc locals).routines = _
    rw [routine_eq, if_neg (Nat.not_lt.mpr far)]
    exact ⟨rfl, rfl⟩
  | global v many =>
    refine ⟨?_, ?_⟩
    · show (a.global v).code = _
      rw [global_eq]
    · show Except.ok (some (if a.globals.size < 256 then a.globals.size else 0)) = _
      rw [if_neg (Nat.not_lt.mpr many)]
  | @call id large =>
    show (a.call id).code = _
    rw [call_eq, if_neg (Nat.not_lt.mpr large)]
    rfl
  | @jump _ site t aims far =>
    have hzero := displacement_of_tooFar (tooFar?_eq_some_iff.mpr ⟨rfl, far⟩)
    cases aims with
    | jmpTo =>
      have hcode := ((writes_apply a (.jmpTo t)).emission rfl).1
      rw [hzero] at hcode
      exact hcode
    | jzTo =>
      have hcode := ((writes_apply a (.jzTo t)).emission rfl).1
      rw [hzero] at hcode
      exact hcode
    | patch _ hsite => exact fun site' => zeroed_aim sited rfl hsite hzero
    | patchHere hsite => exact fun site' => zeroed_aim sited rfl hsite hzero

/-! ## what is reported -/

section
variable {value value' : UInt64 → Int} {main : Nat}

theorem reports_signed (ds : List Directive) (main : Nat) : Reports signed ds main := by
  have herror : (applyAll {} ds).error = firstOverflow? {} ds := by
    rw [error_applyAll, Option.none_or]
  have hsize := size_routines ds
  refine ⟨⟨?_, ?_⟩, ?_, ?_, ?_⟩
  · rintro ⟨e, h⟩
    rcases finish_eq_error_iff.mp h with hfound | ⟨-, hmany, -⟩
    · rw [herror] at hfound
      obtain ⟨before, d, after, hds, -, hover⟩ := firstOverflow?_eq_some_iff.mp hfound
      exact .inl ⟨before, d, after, e, hds, hover⟩
    · exact .inr (hsize ▸ hmany)
  · intro h
    cases hfound : firstOverflow? {} ds with
    | some e => exact ⟨e, finish_eq_error_iff.mpr (.inl (herror.trans hfound))⟩
    | none =>
      rcases h with ⟨before, d, after, e, hds, hover⟩ | hmany
      · exact absurd hover (firstOverflow?_eq_none_iff.mp hfound before d after e hds)
      · exact ⟨_, finish_eq_error_iff.mpr (.inr ⟨herror.trans hfound, hsize ▸ hmany, rfl⟩)⟩
  · intro before d after e hds hover clean
    have hfound := firstOverflow?_eq_some_iff.mpr ⟨before, d, after, hds, clean, hover⟩
    exact finish_eq_error_iff.mpr (.inl (herror.trans hfound))
  · intro clean hmany
    have hnone := herror.trans (firstOverflow?_eq_none_iff.mpr clean)
    rw [← hsize] at hmany ⊢
    exact finish_eq_error_iff.mpr (.inr ⟨hnone, hmany, rfl⟩)
  · intro before d after e _ hover
    exact hover.zeroed (sited_empty.applyAll before)

/-! ## readings of targets -/

/-- Under both readings of targets the same operands do not fit. -/
def Agree (value value' : UInt64 → Int) (ds : List Directive) : Prop :=
  ∀ before d after e, ds = before ++ d :: after →
    (Overflows value (applyAll {} before) d e ↔ Overflows value' (applyAll {} before) d e)

theorem Clean.congr {before after : List Directive} (agree : Agree value value' ds)
    (hds : ds = before ++ after) (clean : Clean value {} before) : Clean value' {} before := by
  intro before' d after' e hbefore hover
  refine clean before' d after' e hbefore ((agree before' d (after' ++ after) e ?_).mpr hover)
  rw [hds, hbefore, List.append_assoc, List.cons_append]

theorem Reports.congr (agree : Agree value value' ds) (h : Reports value' ds main) :
    Reports value ds main := by
  refine ⟨h.fails.trans (or_congr_left ⟨?_, ?_⟩), ?_, ?_, ?_⟩
  · rintro ⟨before, d, after, e, hds, hover⟩
    exact ⟨before, d, after, e, hds, (agree before d after e hds).mpr hover⟩
  · rintro ⟨before, d, after, e, hds, hover⟩
    exact ⟨before, d, after, e, hds, (agree before d after e hds).mp hover⟩
  · intro before d after e hds hover clean
    refine h.first before d after e hds ((agree before d after e hds).mp hover) ?_
    exact clean.congr agree hds
  · intro clean hmany
    exact h.count (clean.congr agree (List.append_nil ds).symm) hmany
  · intro before d after e hds hover
    exact h.zeroed before d after e hds ((agree before d after e hds).mp hover)

end

theorem Aims.small {site : Nat} {t : UInt64} (h : Aims a d site t)
    (small : ∀ t ∈ d.names? a.here, t < 2 ^ 63) : t.toNat < 2 ^ 63 := by
  cases h with
  | jmpTo => exact small _ rfl
  | jzTo => exact small _ rfl
  | patch _ _ => exact small _ rfl
  | patchHere _ =>
    have hlt : a.here < 2 ^ 63 := small _ rfl
    rw [UInt64.toNat_ofNat_of_lt' (Nat.lt_trans hlt (by decide))]
    exact hlt

theorem Overflows.congr {value value' : UInt64 → Int} {e : AssemblyError}
    (agree : ∀ site t, Aims a d site t → value t = value' t) (h : Overflows value a d e) :
    Overflows value' a d e := by
  cases h with
  | routine argc locals far => exact .routine argc locals far
  | global v many => exact .global v many
  | call large => exact .call large
  | jump aims far =>
    rw [agree _ _ aims] at far
    exact .jump aims far

/-- **What does not fit is reported.**  Assembling fails if and only if an operand does not fit its
field, where the target of a jump counts as the signed number with the same bits, or if there are
more than 256 routines.  What is reported is the first operand that does not fit; the field of each
is left zero, and the other bytes are what they would be.  If all targets can be offsets in memory,
this is so with each target as the offset that it is. -/
theorem overflows_reported (ds : List Directive) (main : Nat) :
    Reports signed ds main ∧ (InMemory {} ds → Reports unsigned ds main) := by
  refine ⟨reports_signed ds main, fun inMemory => (reports_signed ds main).congr ?_⟩
  intro before d after e hds
  have agree : ∀ site t, Aims (applyAll {} before) d site t → signed t = unsigned t :=
    fun site t aims => toInt_of_small (aims.small (hds ▸ inMemory).after.1)
  exact ⟨.congr fun site t aims => (agree site t aims).symm, .congr agree⟩

/-- A call that does not fit, and an open jump that is aimed too far and then back. -/
def strained : List Directive := [.call 300, .jmp, .patch 0 70000, .patch 0 0]

theorem overflows_reported_strained :
    InMemory {} strained ∧
    (applyAll {} strained).finish 0 = .error (.routineIdTooLarge 300) ∧
    Zeroed (applyAll {} [.call 300, .jmp]) (.patch 0 70000) := by
  have hsmall : InMemory {} strained := by decide +kernel
  obtain ⟨-, hfirst, -, hzeroed⟩ := (overflows_reported strained 0).2 hsmall
  refine ⟨hsmall, ?_, ?_⟩
  · refine hfirst [] (.call 300) _ _ rfl (.call (by decide)) ?_
    intro before d after e h
    cases before <;> cases h
  · exact hzeroed _ _ [.patch 0 0] (.jumpTooFar 2 70000) rfl
      (.jump (@Aims.patch _ 0 3 70000 rfl) (.inr (by decide)))

/-- A jump to the last of all offsets. -/
def wrapping : List Directive := [.routine 0 0, .jmpTo 0xFFFFFFFFFFFFFFFF, .ret 0]

/-- Its target counts as the one before the first, so it is taken for a jump of four bytes back, and
nothing is reported. -/
theorem wrapped_jump_unreported :
    Overflows unsigned (applyAll {} [.routine 0 0]) (.jmpTo 0xFFFFFFFFFFFFFFFF)
      (.jumpTooFar 0 0xFFFFFFFFFFFFFFFF) ∧
    (applyAll {} wrapping).finish 0 =
      .ok (.ofParts [⟨0, 0, 0⟩] [] [0x14, 0xFC, 0xFF, 0x0D, 0] 0) ∧
    ¬ Reports unsigned wrapping 0 := by
  have hover : Overflows unsigned (applyAll {} [.routine 0 0]) (.jmpTo 0xFFFFFFFFFFFFFFFF)
      (.jumpTooFar 0 0xFFFFFFFFFFFFFFFF) := .jump (.jmpTo _) (.inr (by decide))
  have hdone : (applyAll {} wrapping).finish 0 =
      .ok (.ofParts [⟨0, 0, 0⟩] [] [0x14, 0xFC, 0xFF, 0x0D, 0] 0) := rfl
  refine ⟨hover, hdone, fun h => ?_⟩
  obtain ⟨e, hfailed⟩ := h.fails.mpr (.inl ⟨_, _, [.ret 0], _, rfl, hover⟩)
  cases hdone.symm.trans hfailed

end Assembler
end TickMachine
