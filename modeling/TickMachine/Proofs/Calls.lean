import TickMachine.Proofs.Happenings

/-!
# Calls and returns

While a program runs undisturbed, by steps that succeed and frame ticks, its activations form a
stack: a step adds one on top or takes the top one off, and whatever the top one does, those below
stay as they are.  So a call comes back, if it does, to the caller as the caller left it.

* `Engine.Beat`   one step that succeeds, or one frame tick;
* `Thread.Shares`, `Beat.shares`   the activations that a thread has before and after a beat are
                       the same;
* `Beat.falls`, `Beat.rises`   only a return takes an activation off, only a call adds one;
* `Engine.Inside`   a run that does not come to a given depth;
* `call_comes_back`   what a call leaves behind when it has returned.
-/

namespace TickMachine

variable {σ : Type}

/-! ## activations -/

namespace Thread

/-- Where the `i`-th activation begins; the saved ones come first, then the current one. -/
def fpAt (t : Thread) (i : Nat) : Nat := if i < t.depth then (t.frame i).fp else t.fp

def routineAt (t : Thread) (i : Nat) : Option Nat :=
  if i < t.depth then some (t.frame i).routine else t.routine

theorem fpAt_of_lt {t : Thread} {i : Nat} (h : i < t.depth) : t.fpAt i = (t.frame i).fp := if_pos h

theorem fpAt_depth (t : Thread) : t.fpAt t.depth = t.fp := if_neg (Nat.lt_irrefl _)

theorem routineAt_of_lt {t : Thread} {i : Nat} (h : i < t.depth) :
    t.routineAt i = some (t.frame i).routine := if_pos h

theorem routineAt_depth (t : Thread) : t.routineAt t.depth = t.routine := if_neg (Nat.lt_irrefl _)

theorem Sound.fpAt_le {t : Thread} {count i j : Nat} (h : t.Sound count) (hij : i ≤ j)
    (hj : j ≤ t.depth) : t.fpAt i ≤ t.fpAt j := by
  rcases Nat.lt_or_eq_of_le hj with hj | rfl
  · rw [fpAt_of_lt (by omega), fpAt_of_lt hj]
    exact h.ordered i j hij hj
  · rw [fpAt_depth]
    rcases Nat.lt_or_eq_of_le hij with hi | rfl
    · rw [fpAt_of_lt hi]
      exact h.last i hi
    · exact Nat.le_of_eq t.fpAt_depth

/-- `t.Shares t'`: the two threads differ by at most one activation, have the others in common,
and hold the same values below the current activation of `t`. -/
structure Shares (t t' : Thread) : Prop where
  grows : t'.depth ≤ t.depth + 1
  shrinks : t.depth ≤ t'.depth + 1
  frame : ∀ i, i < t.depth → i < t'.depth → t'.frame i = t.frame i
  fpAt : ∀ i, i ≤ t.depth → i ≤ t'.depth → t'.fpAt i = t.fpAt i
  routineAt : ∀ i, i ≤ t.depth → i ≤ t'.depth → t'.routineAt i = t.routineAt i
  below : ∀ k < t.fp, t'.slot k = t.slot k

variable {t t' : Thread}

theorem shares_of_eq (hd : t'.depth = t.depth) (hr : t'.routine = t.routine) (hf : t'.fp = t.fp)
    (hs : t'.frames = t.frames) (hb : ∀ k < t.fp, t'.slot k = t.slot k) : t.Shares t' := by
  have hframe : ∀ i, t'.frame i = t.frame i := by
    intro i
    unfold Thread.frame
    rw [hs]
  refine ⟨by omega, by omega, fun i _ _ => hframe i, ?_, ?_, hb⟩
  · intro i _ _
    unfold Thread.fpAt
    rw [hd, hf, hframe]
  · intro i _ _
    unfold Thread.routineAt
    rw [hd, hr, hframe]

theorem Stays.shares (h : t.Stays t') : t.Shares t' :=
  shares_of_eq h.depth h.routine h.fp h.frames h.below

theorem descend_shares (t : Thread) {caller next index : Nat} {callee : Routine}
    (hr : t.routine = some caller) (hd : t.depth < maxFrames) :
    t.Shares (t.descend caller next index callee) := by
  have hframe : ∀ i < t.depth, (t.descend caller next index callee).frame i = t.frame i :=
    fun i hi => frame_save_of_ne t _ (Nat.ne_of_lt hi)
  have hself : (t.descend caller next index callee).frame t.depth = ⟨caller, next, t.fp⟩ :=
    frame_save_self t _ hd
  have hlt : ∀ i ≤ t.depth, i < (t.descend caller next index callee).depth :=
    fun i hi => Nat.lt_succ_of_le hi
  refine ⟨Nat.le_refl _, Nat.le_trans (Nat.le_succ _) (Nat.le_succ _), fun i hi _ => hframe i hi,
    ?_, ?_, fun _ _ => rfl⟩
  · intro i hi _
    rw [fpAt_of_lt (hlt i hi)]
    rcases Nat.lt_or_eq_of_le hi with hi | rfl
    · rw [hframe i hi, fpAt_of_lt hi]
    · rw [hself, fpAt_depth]
  · intro i hi _
    rw [routineAt_of_lt (hlt i hi)]
    rcases Nat.lt_or_eq_of_le hi with hi | rfl
    · rw [hframe i hi, routineAt_of_lt hi]
    · rw [hself, routineAt_depth, hr]

theorem restore_shares (t : Thread) (hd : t.depth ≠ 0) : t.Shares t.restore := by
  have hlt : t.depth - 1 < t.depth := by omega
  have hdepth : t.restore.depth = t.depth - 1 := rfl
  refine ⟨?_, ?_, fun i _ _ => rfl, ?_, ?_, fun _ _ => rfl⟩
  · omega
  · omega
  · intro i _ hi
    rcases Nat.lt_or_eq_of_le hi with hi | rfl
    · rw [fpAt_of_lt hi, fpAt_of_lt (Nat.lt_trans hi hlt)]
      rfl
    · rw [fpAt_depth, hdepth, fpAt_of_lt hlt]
      rfl
  · intro i _ hi
    rcases Nat.lt_or_eq_of_le hi with hi | rfl
    · rw [routineAt_of_lt hi, routineAt_of_lt (Nat.lt_trans hi hlt)]
      rfl
    · rw [routineAt_depth, hdepth, routineAt_of_lt hlt]
      rfl

/-- The returned values take the place of the activation's own: the callers see nothing of it. -/
theorem collapse_shares (t : Thread) {n size : Nat} (values : t.fp + size + n ≤ t.sp) :
    t.Shares (t.collapse n size) := by
  have hb : ∀ k < t.fp, (t.collapse n size).slot k = t.slot k :=
    fun k hk => slot_collapse_of_lt t (by omega)
  rw [collapse_eq] at hb ⊢
  exact shares_of_eq rfl rfl rfl rfl hb

theorem back_shares (t : Thread) {n size : Nat} (values : t.fp + size + n ≤ t.sp)
    (hd : t.depth ≠ 0) : t.Shares (t.collapse n size).restore := by
  have h := t.collapse_shares values
  have hdepth := t.collapse_depth n size
  have h' := (t.collapse n size).restore_shares (by rwa [hdepth])
  refine ⟨hdepth ▸ h'.grows, hdepth ▸ h'.shrinks, ?_, ?_, ?_, h.below⟩
  · intro i hi hi'
    rw [h'.frame i (by rwa [hdepth]) hi', h.frame i hi (by rwa [hdepth])]
  · intro i hi hi'
    rw [h'.fpAt i (by rwa [hdepth]) hi', h.fpAt i hi (by rwa [hdepth])]
  · intro i hi hi'
    rw [h'.routineAt i (by rwa [hdepth]) hi', h.routineAt i hi (by rwa [hdepth])]

end Thread

theorem Image.routine?_congr {img img' : Image} (h : img'.routineBytes = img.routineBytes)
    (i : Nat) : img'.routine? i = img.routine? i := by
  unfold routine?
  rw [h]

theorem Moves.shares {e e' : Engine σ} {next : Nat} {i : Instruction} {o : Outcome}
    (h : Moves e next i o e') : e.thread.Shares e'.thread := by
  cases h with
  | stays calls returns image thread => exact thread.shares
  | call found runs provided frames room => exact e.thread.descend_shares runs.1 frames
  | back runs values inner => exact e.thread.back_shares values inner
  | @finish n i r runs values outer =>
    have h := e.thread.collapse_shares values
    exact ⟨h.grows, h.shrinks, h.frame, h.fpAt, h.routineAt, h.below⟩

theorem Moves.routineBytes {e e' : Engine σ} {next : Nat} {i : Instruction} {o : Outcome}
    (h : Moves e next i o e') : e'.image.routineBytes = e.image.routineBytes := by
  cases h with
  | stays calls returns image thread => rw [image]
  | call found runs provided frames room => rfl
  | back runs values inner => rfl
  | finish runs values outer => rfl

namespace Engine

variable {p : Peripherals σ} {e e' : Engine σ}

/-! ## beats -/

/-- What moves an undisturbed program on: a step that succeeds, or a frame tick, on which the
peripherals may change as well. -/
inductive Beat (p : Peripherals σ) : Engine σ → Engine σ → Prop where
  | step {e e' : Engine σ} {o : Outcome} (steps : e.step p = (.ok o, e')) : Beat p e e'
  | tick (e : Engine σ) (devices : σ) :
    Beat p e { e with thread := e.thread.tick, devices := devices }

theorem Beat.of_ok {o : Outcome} (h : (e.step p).1 = .ok o) : Beat p e (e.step p).2 :=
  .step (Prod.ext h rfl)

theorem Beat.moves (h : Beat p e e') (hs : e.Sound) :
    (e'.image = e.image ∧
      e'.thread = { e.thread with state := e'.thread.state, paused := e'.thread.paused }) ∨
    ∃ i o, e.thread.state = .executing ∧ e.decoded = .instruction i ∧ e.step p = (.ok o, e') ∧
      Moves e (e.thread.pc + i.size) i o e' := by
  cases h with
  | step steps =>
    by_cases hx : e.thread.state = .executing
    · obtain ⟨i, hi, hm⟩ := step_moves hs hx steps
      exact .inr ⟨i, _, hx, hi, steps, hm⟩
    · rw [step_idle hx] at steps
      cases steps
      exact .inl ⟨rfl, rfl⟩
  | tick devices => exact .inl ⟨rfl, e.thread.tick_eq⟩

theorem Beat.sound (h : Beat p e e') (hs : e.Sound) : e'.Sound := by
  cases h with
  | step steps =>
    have h := step_sound (p := p) hs
    rwa [steps] at h
  | tick devices => exact Thread.Sound.tick hs

theorem Beat.shares (h : Beat p e e') (hs : e.Sound) : e.thread.Shares e'.thread := by
  rcases h.moves hs with ⟨-, ht⟩ | ⟨i, o, -, -, -, hm⟩
  · rw [ht]
    exact Thread.shares_of_eq rfl rfl rfl rfl fun _ _ => rfl
  · exact hm.shares

theorem Beat.routineBytes (h : Beat p e e') (hs : e.Sound) :
    e'.image.routineBytes = e.image.routineBytes := by
  rcases h.moves hs with ⟨hi, -⟩ | ⟨i, o, -, -, -, hm⟩
  · rw [hi]
  · exact hm.routineBytes

theorem Beat.falls (h : Beat p e e') (hs : e.Sound) (hd : e'.thread.depth < e.thread.depth) :
    ∃ n i r, e.decoded = .instruction (.ret n) ∧ e.step p = (.ok .running, e') ∧ e.Runs i r ∧
      e.thread.fp + r.frameSize + n.toNat ≤ e.thread.sp ∧
      e'.thread = (e.thread.collapse n.toNat r.frameSize).restore := by
  rcases h.moves hs with ⟨-, ht⟩ | ⟨i, o, -, hi, steps, hm⟩
  · rw [ht] at hd
    exact absurd hd (Nat.lt_irrefl _)
  · cases hm with
    | stays calls returns image thread =>
      rw [thread.depth] at hd
      exact absurd hd (Nat.lt_irrefl _)
    | call found runs provided frames room =>
      exact absurd hd (Nat.not_lt_of_le (Nat.le_succ _))
    | back runs values inner => exact ⟨_, _, _, hi, steps, runs, values, rfl⟩
    | finish runs values outer =>
      rw [outer] at hd
      exact absurd hd (Nat.not_lt_zero _)

theorem step_call {k : UInt8} {o : Outcome} (hs : e.Sound) (hx : e.thread.state = .executing)
    (hi : e.decoded = .instruction (.call k)) (steps : e.step p = (.ok o, e')) :
    ∃ i callee caller, e.image.routine? k.toNat = some callee ∧ e.Runs i caller ∧
      callee.argc.toNat ≤ e.thread.sp - (e.thread.fp + caller.frameSize) ∧
      e.thread.depth < maxFrames ∧ o = .running ∧
      e' = { e with thread := e.thread.descend i (e.thread.pc + 2) k.toNat callee } := by
  obtain ⟨i, hi', hm⟩ := step_moves hs hx steps
  rw [hi, Decoded.instruction.injEq] at hi'
  subst hi'
  cases hm with
  | stays calls returns image thread => exact absurd rfl (calls k)
  | call found runs provided frames room =>
    exact ⟨_, _, _, found, runs, provided, frames, rfl, rfl⟩

theorem Beat.rises (h : Beat p e e') (hs : e.Sound) (hd : e.thread.depth < e'.thread.depth) :
    ∃ k o, e.thread.state = .executing ∧ e.decoded = .instruction (.call k) ∧
      e.step p = (.ok o, e') := by
  rcases h.moves hs with ⟨-, ht⟩ | ⟨i, o, hx, hi, steps, hm⟩
  · rw [ht] at hd
    exact absurd hd (Nat.lt_irrefl _)
  · cases hm with
    | stays calls returns image thread =>
      rw [thread.depth] at hd
      exact absurd hd (Nat.lt_irrefl _)
    | call found runs provided frames room => exact ⟨_, _, hx, hi, steps⟩
    | @back n i r runs values inner =>
      have hc := e.thread.collapse_depth n.toNat r.frameSize
      change e.thread.depth < (e.thread.collapse n.toNat r.frameSize).depth - 1 at hd
      omega
    | @finish n i r runs values outer =>
      have hc := e.thread.collapse_depth n.toNat r.frameSize
      change e.thread.depth < (e.thread.collapse n.toNat r.frameSize).depth at hd
      omega

/-! ## inside a call -/

/-- `Inside p d e r`: the program goes from `e` to `r` and is never at depth `d` on the way. -/
inductive Inside (p : Peripherals σ) (d : Nat) (e : Engine σ) : Engine σ → Prop where
  | here (away : e.thread.depth ≠ d) : Inside p d e e
  | beat {r r' : Engine σ} (before : Inside p d e r) (beats : Beat p r r')
    (away : r'.thread.depth ≠ d) : Inside p d e r'

/-- `r` is inside the call of routine `k` that `e` made from routine `caller`: the callee's
activation begins at `base`, and nothing below it has changed. -/
structure Within (e : Engine σ) (caller k base : Nat) (r : Engine σ) : Prop where
  sound : r.Sound
  deeper : e.thread.depth < r.thread.depth
  routines : r.image.routineBytes = e.image.routineBytes
  outer : ∀ i < e.thread.depth, r.thread.frame i = e.thread.frame i
  saved : r.thread.frame e.thread.depth = ⟨caller, e.thread.pc + 2, e.thread.fp⟩
  fpAt : r.thread.fpAt (e.thread.depth + 1) = base
  routineAt : r.thread.routineAt (e.thread.depth + 1) = some k
  below : ∀ i < base, r.thread.slot i = e.thread.slot i

variable {r r' e₁ : Engine σ} {caller k base : Nat}

theorem Within.base_le (h : Within e caller k base r) : base ≤ r.thread.fp := by
  have hle := h.sound.fpAt_le h.deeper (Nat.le_refl _)
  rwa [h.fpAt, Thread.fpAt_depth] at hle

/-- A beat that does not leave the call stays within it: the callee and all below it are among
the activations that the beat keeps. -/
theorem Within.beat (h : Within e caller k base r) (hb : Beat p r r')
    (away : r'.thread.depth ≠ e.thread.depth) : Within e caller k base r' := by
  have hsh := hb.shares h.sound
  have hd := h.deeper
  have hd' : e.thread.depth < r'.thread.depth := by
    have := hsh.shrinks
    omega
  refine ⟨hb.sound h.sound, hd', ?_, ?_, ?_, ?_, ?_, ?_⟩
  · rw [hb.routineBytes h.sound, h.routines]
  · intro i hi
    rw [hsh.frame i (by omega) (by omega), h.outer i hi]
  · rw [hsh.frame _ hd hd', h.saved]
  · rw [hsh.fpAt _ hd hd', h.fpAt]
  · rw [hsh.routineAt _ hd hd', h.routineAt]
  · intro i hi
    rw [hsh.below i (Nat.lt_of_lt_of_le hi h.base_le), h.below i hi]

theorem within_call {k : UInt8} {callee : Routine} {o : Outcome} (hs : e.Sound)
    (hx : e.thread.state = .executing) (hi : e.decoded = .instruction (.call k))
    (found : e.image.routine? k.toNat = some callee) (steps : e.step p = (.ok o, e₁)) :
    ∃ caller, e.thread.routine = some caller ∧
      Within e caller k.toNat (e.thread.sp - callee.argc.toNat) e₁ := by
  have hsound := (Beat.step steps).sound hs
  obtain ⟨i, callee', caller, found', runs, -, frames, -, rfl⟩ := step_call hs hx hi steps
  rw [found, Option.some.injEq] at found'
  subst found'
  refine ⟨i, runs.1, hsound, Nat.lt_succ_self _, rfl, ?_, ?_, ?_, ?_, fun _ _ => rfl⟩
  · exact fun j hj => Thread.frame_save_of_ne _ _ (Nat.ne_of_lt hj)
  · exact Thread.frame_save_self _ _ frames
  · exact Thread.fpAt_depth (e.thread.descend i _ k.toNat callee)
  · exact Thread.routineAt_depth (e.thread.descend i _ k.toNat callee)

theorem Within.inside (h : Within e caller k base e₁) (hr : Inside p e.thread.depth e₁ r) :
    Within e caller k base r := by
  induction hr with
  | here away => exact h
  | beat before beats away ih => exact ih.beat beats away

theorem Within.leave (h : Within e caller k base r) (hb : Beat p r e')
    (hd : e'.thread.depth = e.thread.depth) {callee : Routine}
    (found : e.image.routine? k = some callee) :
    ∃ n, r.decoded = .instruction (.ret n) ∧ r.step p = (.ok .running, e') ∧
      r.thread.routine = some k ∧ r.thread.fp = base ∧
      base + callee.frameSize + n.toNat ≤ r.thread.sp ∧
      e'.thread = (r.thread.collapse n.toNat callee.frameSize).restore := by
  have hsh := hb.shares h.sound
  have hdeep := h.deeper
  have hdr : e.thread.depth + 1 = r.thread.depth := by
    have := hsh.shrinks
    omega
  have hfp := h.fpAt
  have hroutine := h.routineAt
  rw [hdr, Thread.fpAt_depth] at hfp
  rw [hdr, Thread.routineAt_depth] at hroutine
  obtain ⟨n, i, rec, hi, steps, runs, values, ht⟩ := hb.falls h.sound (by omega)
  -- the record of the callee is still the one it was called with
  have hrec : rec = callee := by
    have hk : i = k := by
      rw [runs.1, Option.some.injEq] at hroutine
      exact hroutine
    have hr := runs.2
    rw [hk, Image.routine?_congr h.routines, found, Option.some.injEq] at hr
    exact hr.symm
  subst hrec
  rw [hfp] at values
  exact ⟨n, hi, steps, hroutine, hfp, values, ht⟩

/-- After the return the caller is as it was, and goes on behind the call. -/
theorem Within.caller_back (h : Within e caller k base r) (hb : Beat p r e')
    (hd : e'.thread.depth = e.thread.depth) (hcaller : e.thread.routine = some caller)
    {n size : Nat} (ht : e'.thread = (r.thread.collapse n size).restore) :
    e'.thread.fp = e.thread.fp ∧ e'.thread.routine = e.thread.routine ∧
      e'.thread.pc = e.thread.pc + 2 ∧
      (∀ i < e.thread.depth, e'.thread.frame i = e.thread.frame i) ∧
      (∀ i < base, e'.thread.slot i = e.thread.slot i) := by
  have hsh := hb.shares h.sound
  have hdeep := h.deeper
  refine ⟨?_, ?_, ?_, ?_, ?_⟩
  · calc e'.thread.fp = e'.thread.fpAt e.thread.depth := by rw [← hd, Thread.fpAt_depth]
      _ = r.thread.fpAt e.thread.depth := hsh.fpAt _ (Nat.le_of_lt hdeep) (Nat.le_of_eq hd.symm)
      _ = e.thread.fp := by rw [Thread.fpAt_of_lt hdeep, h.saved]
  · calc e'.thread.routine = e'.thread.routineAt e.thread.depth := by
          rw [← hd, Thread.routineAt_depth]
      _ = r.thread.routineAt e.thread.depth :=
          hsh.routineAt _ (Nat.le_of_lt hdeep) (Nat.le_of_eq hd.symm)
      _ = e.thread.routine := by rw [Thread.routineAt_of_lt hdeep, h.saved, hcaller]
  · have hlast : r.thread.depth - 1 = e.thread.depth := by
      have := hsh.shrinks
      omega
    rw [ht, Thread.collapse_eq]
    show (r.thread.frame (r.thread.depth - 1)).pc = _
    rw [hlast, h.saved]
  · intro i hi
    rw [hsh.frame i (by omega) (by omega), h.outer i hi]
  · intro i hi
    rw [hsh.below i (Nat.lt_of_lt_of_le hi h.base_le), h.below i hi]

/-- **A call comes back to where it was made.**  When the depth is for the first time again what
it was at a call, the callee has just returned; the caller and all below the arguments are as
before the call; and on top of that lie the scratch values and the results of the callee.  The
results of a main routine are the values it returns. -/
theorem call_comes_back (p : Peripherals σ) {e : Engine σ} (reach : e.Reachable p)
    (hx : e.thread.state = .executing) :
    (∀ (k : UInt8) (callee : Routine) (o : Outcome) (e₁ r e' : Engine σ),
      e.decoded = .instruction (.call k) → e.image.routine? k.toNat = some callee →
      e.step p = (.ok o, e₁) → Inside p e.thread.depth e₁ r → Beat p r e' →
      e'.thread.depth = e.thread.depth →
      ∃ (n : UInt8) (x : Nat), r.decoded = .instruction (.ret n) ∧ r.step p = (.ok .running, e') ∧
        r.thread.routine = some k.toNat ∧ r.thread.fp = e.thread.sp - callee.argc.toNat ∧
        r.thread.sp = r.thread.fp + callee.frameSize + x + n.toNat ∧
        e'.thread.fp = e.thread.fp ∧ e'.thread.routine = e.thread.routine ∧
        e'.thread.pc = e.thread.pc + 2 ∧
        (∀ i < e.thread.depth, e'.thread.frame i = e.thread.frame i) ∧
        (∀ i < e.thread.sp - callee.argc.toNat, e'.thread.slot i = e.thread.slot i) ∧
        e'.thread.sp = e.thread.sp - callee.argc.toNat + x + n.toNat ∧
        e'.thread.slots (e'.thread.sp - n.toNat) n.toNat
          = r.thread.slots (r.thread.sp - n.toNat) n.toNat) ∧
    (∀ (n : UInt8) (o : Outcome) (e' : Engine σ), e.thread.depth = 0 →
      e.decoded = .instruction (.ret n) → e.step p = (.ok o, e') →
      o = .terminated (e.thread.slots (e.thread.sp - n.toNat) n.toNat) ∧
        e'.thread.state = .terminated) := by
  have hs := reach.sound
  constructor
  · intro k callee o e₁ r e' hi found steps inside last hd
    obtain ⟨caller, hcaller, hw⟩ := within_call hs hx hi found steps
    have hr := hw.inside inside
    obtain ⟨n, hret, hstep, hroutine, hfp, values, ht⟩ := hr.leave last hd found
    obtain ⟨hfp', hroutine', hpc, hframes, hbelow⟩ := hr.caller_back last hd hcaller ht
    have hsp : e'.thread.sp = r.thread.sp - n.toNat - callee.frameSize + n.toNat := by
      rw [ht, Thread.collapse_eq]
      rfl
    refine ⟨n, r.thread.sp - n.toNat - (r.thread.fp + callee.frameSize), hret, hstep, hroutine, hfp,
      by omega, hfp', hroutine', hpc, hframes, hbelow, by omega, ?_⟩
    rw [hsp, Nat.add_sub_cancel, ht]
    exact r.thread.slots_collapse _ _ (by omega) hr.sound.sp_le
  · intro n o e' h0 hi steps
    obtain ⟨i, hi', hm⟩ := step_moves hs hx steps
    rw [hi, Decoded.instruction.injEq] at hi'
    subst hi'
    cases hm with
    | stays calls returns image thread => exact absurd rfl (returns n)
    | back runs values inner => exact absurd h0 inner
    | finish runs values outer =>
      rw [Thread.slots_collapse _ _ _ (by omega) hs.sp_le]
      exact ⟨rfl, rfl⟩

/-- A main routine with a local of its own, about to call a routine with an argument; that routine
leaves a value behind, sleeps for a tick and returns what it was given. -/
def visiting : Engine Unit where
  image := .ofParts [⟨0, 1, 0⟩, ⟨1, 1, 7⟩] []
    [0x00, 5, 0, 0x0A, 1, 0x0D, 1, 0x00, 3, 0, 0x00, 1, 0, 0xB3, 0x05, 0, 0x0D, 1] 0
  thread := { Thread.idle with state := .executing, routine := some 0, sp := 1 }
  devices := ()

def awake : Engine Unit :=
  { visiting.stepped silent 5 with thread := (visiting.stepped silent 5).thread.tick }

theorem call_comes_back_visiting :
    (visiting.stepped silent 1).Reachable silent ∧
      Inside silent 0 (visiting.stepped silent 2) (awake.stepped silent 1) ∧
      ∃ n x : Nat, (awake.stepped silent 1).thread.sp = 1 + 2 + x + n ∧
        (awake.stepped silent 2).thread.pc = 5 ∧
        (awake.stepped silent 2).thread.sp = 1 + x + n := by
  have reach : (visiting.stepped silent 1).Reachable silent :=
    ⟨⟨visiting, none, none, 0⟩, {}, [.step],
      .load (rfl : Machine.load visiting.image () = _), rfl⟩
  have inside : Inside silent 0 (visiting.stepped silent 2) (awake.stepped silent 1) := by
    refine .beat (.beat (.beat (.beat (.beat (.here ?_) (.of_ok (o := .running) ?_) ?_)
      (.of_ok (o := .running) ?_) ?_) (.of_ok (o := .suspended) ?_) ?_) (.tick _ ()) ?_)
      (.of_ok (o := .running) ?_) ?_ <;> decide +kernel
  have steps : (visiting.stepped silent 1).step silent
      = (.ok .running, visiting.stepped silent 2) :=
    Prod.ext (by decide +kernel) rfl
  have last : Beat silent (awake.stepped silent 1) (awake.stepped silent 2) :=
    .of_ok (o := .running) (by decide +kernel)
  obtain ⟨n, x, -, -, -, hfp, hsp, -, -, hpc, -, -, hsp', -⟩ :=
    (call_comes_back silent reach (by decide +kernel)).1 1 ⟨1, 1, 7⟩ _ _ _ _ (by decide +kernel)
      (by decide +kernel) steps inside last (by decide +kernel)
  have hbase : (visiting.stepped silent 1).thread.sp - UInt8.toNat 1 = 1 := by decide +kernel
  have hcall : (visiting.stepped silent 1).thread.pc = 3 := by decide +kernel
  rw [hbase] at hfp hsp'
  rw [hfp] at hsp
  rw [hcall] at hpc
  exact ⟨reach, inside, n.toNat, x, hsp, hpc, hsp'⟩

end Engine
end TickMachine
