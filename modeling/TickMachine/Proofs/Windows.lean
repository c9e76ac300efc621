import TickMachine.Proofs.Calls

/-!
# The windows of activations

Each activation owns a window of the stack: its arguments and locals.  A call checks that the
arguments lie above the caller's window.  But a caller may have dropped slots of its own, and then
nothing is checked for a routine without arguments: its activation begins inside the window of
its caller, and writes there.  Nothing else makes windows overlap.

* `Engine.Apart`   the windows lie one above the other;
* `SunkCall`   the call that breaks this;
* `Beat.apart`, `SunkCall.not_apart`   a beat keeps the windows apart unless it is such a call;
* `apart_iff_no_sunkCall`   on every run from the start of a routine.
-/

namespace TickMachine

variable {σ : Type}

namespace Engine

variable {p : Peripherals σ} {e e' : Engine σ}

def Entered (e : Engine σ) : Prop := ∃ t i, Thread.enter t e.image i = .ok e.thread

/-- Every activation begins above the windows of those before it. -/
def Apart (e : Engine σ) : Prop :=
  ∀ i j, i < j → j ≤ e.thread.depth → ∀ k r, e.thread.routineAt i = some k →
    e.image.routine? k = some r → e.thread.fpAt i + r.frameSize ≤ e.thread.fpAt j

/-- A caller that has dropped slots of its own calls a routine without arguments. -/
def SunkCall (p : Peripherals σ) (e e' : Engine σ) : Prop :=
  ∃ (k : UInt8) (i : Nat) (callee caller : Routine), e.thread.state = .executing ∧
    e.decoded = .instruction (.call k) ∧ e.step p = (.ok .running, e') ∧
    e.image.routine? k.toNat = some callee ∧ callee.argc = 0 ∧ e.Runs i caller ∧
    e.thread.sp < e.thread.fp + caller.frameSize

theorem Entered.sound (h : e.Entered) : e.Sound := by
  obtain ⟨t, i, h⟩ := h
  exact Thread.sound_of_enter h

theorem Entered.depth (h : e.Entered) : e.thread.depth = 0 := by
  obtain ⟨t, i, h⟩ := h
  unfold Thread.enter at h
  split at h
  · cases h
  · rw [← Except.ok.inj h]

theorem Entered.apart (h : e.Entered) : e.Apart := by
  intro i j hij hj
  rw [h.depth] at hj
  omega

theorem Beat.apart_old (h : Beat p e e') (hs : e.Sound) (ha : e.Apart) {i j k : Nat} {r : Routine}
    (hij : i < j) (hj : j ≤ e.thread.depth) (hj' : j ≤ e'.thread.depth)
    (hk : e'.thread.routineAt i = some k) (hr : e'.image.routine? k = some r) :
    e'.thread.fpAt i + r.frameSize ≤ e'.thread.fpAt j := by
  have hsh := h.shares hs
  rw [hsh.routineAt i (by omega) (by omega)] at hk
  rw [Image.routine?_congr (h.routineBytes hs)] at hr
  rw [hsh.fpAt i (by omega) (by omega), hsh.fpAt j hj hj']
  exact ha i j hij hj k r hk hr

theorem call_above {k : UInt8} {o : Outcome} (hs : e.Sound) (hx : e.thread.state = .executing)
    (hi : e.decoded = .instruction (.call k)) (steps : e.step p = (.ok o, e'))
    (hn : ¬ SunkCall p e e') {i : Nat} {caller : Routine} (runs : e.Runs i caller) :
    e.thread.fp + caller.frameSize ≤ e'.thread.fp := by
  obtain ⟨i', callee, caller', found, runs', provided, -, rfl, he⟩ := step_call hs hx hi steps
  obtain ⟨-, rfl⟩ := runs.unique runs'
  have hfp : e'.thread.fp = e.thread.sp - callee.argc.toNat := by rw [he]; rfl
  rw [hfp]
  by_cases hsunk : e.thread.sp < e.thread.fp + caller.frameSize
  · -- then there are no arguments, or the call would not have succeeded
    have hargc : callee.argc = 0 := UInt8.toNat_inj.mp (by rw [UInt8.toNat_zero]; omega)
    exact absurd ⟨k, i, callee, caller, hx, hi, steps, found, hargc, runs, hsunk⟩ hn
  · omega

theorem Beat.apart (h : Beat p e e') (hs : e.Sound) (ha : e.Apart) (hn : ¬ SunkCall p e e') :
    e'.Apart := by
  intro i j hij hj k r hk hr
  by_cases hj' : j ≤ e.thread.depth
  · exact h.apart_old hs ha hij hj' hj hk hr
  -- otherwise `j` is the activation of a call just made
  have hsh := h.shares hs
  have hg := hsh.grows
  have hjd : j = e'.thread.depth := by omega
  obtain ⟨n, o, hx, hi, steps⟩ := h.rises hs (by omega)
  obtain ⟨c, caller, runs⟩ := hs.runs (by rw [hx]; exact nofun)
  have habove := call_above hs hx hi steps hn runs
  rw [hjd, Thread.fpAt_depth]
  rw [hsh.routineAt i (by omega) (by omega)] at hk
  rw [Image.routine?_congr (h.routineBytes hs)] at hr
  rw [hsh.fpAt i (by omega) (by omega)]
  rcases Nat.lt_or_eq_of_le (show i ≤ e.thread.depth by omega) with hi' | rfl
  · have hle := ha i e.thread.depth hi' (Nat.le_refl _) k r hk hr
    rw [Thread.fpAt_depth] at hle
    omega
  · rw [Thread.routineAt_depth] at hk
    obtain ⟨-, rfl⟩ := runs.unique ⟨hk, hr⟩
    rwa [Thread.fpAt_depth]

theorem SunkCall.not_apart (h : SunkCall p e e') (hs : e.Sound) : ¬ e'.Apart := by
  obtain ⟨k, i, callee, caller, hx, hi, steps, -, -, runs, hsunk⟩ := h
  have hb : Beat p e e' := .step steps
  have hsh := hb.shares hs
  obtain ⟨_, callee', _, -, -, -, -, -, he⟩ := step_call hs hx hi steps
  have hfp : e'.thread.fp ≤ e.thread.sp := by
    rw [he]
    exact Nat.sub_le _ _
  have hd : e'.thread.depth = e.thread.depth + 1 := by rw [he]; rfl
  have hk : e'.thread.routineAt e.thread.depth = some i := by
    rw [hsh.routineAt _ (Nat.le_refl _) (by omega), Thread.routineAt_depth, runs.1]
  have hr : e'.image.routine? i = some caller := by
    rw [Image.routine?_congr (hb.routineBytes hs), runs.2]
  intro ha
  have hle := ha e.thread.depth e'.thread.depth (by omega) (Nat.le_refl _) i caller hk hr
  rw [Thread.fpAt_depth, hsh.fpAt _ (Nat.le_refl _) (by omega), Thread.fpAt_depth] at hle
  omega

theorem Beat.window (h : Beat p e e') (hs : e.Sound) (ha : e.Apart) {j k s : Nat} {r : Routine}
    (hj : j < e.thread.depth) (hk : e.thread.routineAt j = some k)
    (hr : e.image.routine? k = some r) (hs' : s < e.thread.fpAt j + r.frameSize) :
    e'.thread.slot s = e.thread.slot s := by
  have hle := ha j e.thread.depth hj (Nat.le_refl _) k r hk hr
  rw [Thread.fpAt_depth] at hle
  exact (h.shares hs).below s (by omega)

variable {run : Nat → Engine σ} {n : Nat}

theorem run_sound (start : (run 0).Sound) (beats : ∀ i < n, Beat p (run i) (run (i + 1))) :
    ∀ i ≤ n, (run i).Sound := by
  intro i hi
  induction i with
  | zero => exact start
  | succ i ih => exact (beats i hi).sound (ih (Nat.le_of_lt hi))

theorem run_apart (start : (run 0).Entered) (beats : ∀ i < n, Beat p (run i) (run (i + 1)))
    (hn : ∀ i < n, ¬ SunkCall p (run i) (run (i + 1))) : ∀ i ≤ n, (run i).Apart := by
  intro i hi
  induction i with
  | zero => exact start.apart
  | succ i ih =>
    have hs := run_sound start.sound beats i (Nat.le_of_lt hi)
    exact (beats i hi).apart hs (ih (Nat.le_of_lt hi)) (hn i hi)

/-- **Windows stay apart exactly as long as no call is sunk.**  On a run from the start of a
routine the windows of all activations are apart in every state if and only if no beat of the run
is a sunk call; and while they are apart, no beat changes the window of a caller. -/
theorem apart_iff_no_sunkCall (p : Peripherals σ) (run : Nat → Engine σ) (n : Nat)
    (start : (run 0).Entered) (beats : ∀ i < n, Beat p (run i) (run (i + 1))) :
    ((∀ i ≤ n, (run i).Apart) ↔ ∀ i < n, ¬ SunkCall p (run i) (run (i + 1))) ∧
    ∀ i < n, (run i).Apart → ∀ j < (run i).thread.depth, ∀ k r,
      (run i).thread.routineAt j = some k → (run i).image.routine? k = some r →
      ∀ s, (run i).thread.fpAt j ≤ s → s < (run i).thread.fpAt j + r.frameSize →
        (run (i + 1)).thread.slot s = (run i).thread.slot s := by
  have sound := run_sound start.sound beats
  refine ⟨⟨?_, run_apart start beats⟩, ?_⟩
  · intro ha i hi hsunk
    exact hsunk.not_apart (sound i (Nat.le_of_lt hi)) (ha (i + 1) hi)
  · intro i hi ha j hj k r hk hr s _ hs
    exact (beats i hi).window (sound i (Nat.le_of_lt hi)) ha hj hk hr hs

theorem apart_iff_no_sunkCall_visiting :
    visiting.Entered ∧ (visiting.stepped silent 2).thread.depth = 1 ∧
      (visiting.stepped silent 2).Apart := by
  have start : visiting.Entered := ⟨Thread.idle, 0, rfl⟩
  have beats : ∀ i < 2,
      Beat silent (visiting.stepped silent i) (visiting.stepped silent (i + 1)) := by
    intro i hi
    match i, hi with
    | 0, _ => exact .of_ok (o := .running) (by decide +kernel)
    | 1, _ => exact .of_ok (o := .running) (by decide +kernel)
  have above : ∀ i < 2,
      ¬ SunkCall silent (visiting.stepped silent i) (visiting.stepped silent (i + 1)) := by
    rintro i hi ⟨k, c, callee, caller, -, hcall, -, found, hargc, -, -⟩
    match i, hi with
    | 0, _ =>
      have hd : (visiting.stepped silent 0).decoded = .instruction (.pushConst 5) := by
        decide +kernel
      rw [hd] at hcall
      cases hcall
    | 1, _ =>
      have hd : (visiting.stepped silent 1).decoded = .instruction (.call 1) := by decide +kernel
      have hf : (visiting.stepped silent 1).image.routine? 1 = some ⟨1, 1, 7⟩ := by decide +kernel
      rw [hd] at hcall
      cases hcall
      rw [show UInt8.toNat 1 = 1 from rfl, hf] at found
      cases found
      exact absurd hargc (by decide)
  have h := apart_iff_no_sunkCall silent (fun i => visiting.stepped silent i) 2 start beats
  exact ⟨start, by decide +kernel, h.1.mpr above 2 (Nat.le_refl 2)⟩

/-- A main routine that drops its only local, then calls a routine that sets a local of its own. -/
def sinking : Engine Unit where
  image := .ofParts [⟨0, 1, 0⟩, ⟨0, 1, 9⟩] []
    [0x02, 0x0A, 1, 0x05, 0, 0x05, 0, 0x0D, 1, 0x00, 7, 0, 0x06, 0, 0x0D, 0] 0
  thread := { Thread.idle with state := .executing, routine := some 0, sp := 1 }
  devices := ()

/-- The local of the main routine is slot 0; the callee begins there and overwrites it. -/
theorem windows_overlap_sinking :
    sinking.Entered ∧
    (∀ i < 4, Beat silent (sinking.stepped silent i) (sinking.stepped silent (i + 1))) ∧
    ¬ (sinking.stepped silent 2).Apart ∧
    (sinking.stepped silent 3).thread.depth = 1 ∧ (sinking.stepped silent 3).thread.slot 0 = 0 ∧
    (sinking.stepped silent 4).thread.depth = 1 ∧ (sinking.stepped silent 4).thread.slot 0 = 7 := by
  refine ⟨⟨Thread.idle, 0, rfl⟩, ?_, ?_, by decide +kernel, by decide +kernel, by decide +kernel,
    by decide +kernel⟩
  · intro i hi
    match i, hi with
    | 0, _ => exact .of_ok (o := .running) (by decide +kernel)
    | 1, _ => exact .of_ok (o := .running) (by decide +kernel)
    | 2, _ => exact .of_ok (o := .running) (by decide +kernel)
    | 3, _ => exact .of_ok (o := .running) (by decide +kernel)
  · intro ha
    have hle := ha 0 1 (by decide) (by decide +kernel) 0 ⟨0, 1, 0⟩ (by decide +kernel)
      (by decide +kernel)
    revert hle
    decide +kernel

end Engine
end TickMachine
