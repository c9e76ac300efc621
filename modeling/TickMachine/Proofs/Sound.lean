import TickMachine.Proofs.Atomic
import TickMachine.Proofs.Moves

/-!
# Sound threads

A thread is sound when its registers lie within their stores, the saved activations lie in order
below the current one, and the routines it is in and will come back to exist.  A step keeps a
thread sound, whatever the sizes of the activations below have become in the meantime: the checks
of a call and of a return look at the current record only, and that is enough.

* `Thread.Sound`   the invariant;
* `Sound.descend`, `Sound.collapse`, `Sound.restore`   calls and returns keep it;
* `Moves.sound`, `Engine.step_sound`   a step keeps it.
-/

namespace TickMachine

variable {σ : Type}

/-! ## the function table -/

namespace Image

theorem routine?_eq_some_iff {img : Image} {i : Nat} {r : Routine} :
    img.routine? i = some r ↔ ∃ a l lo hi, img.routineBytes[4 * i]? = some a ∧
      img.routineBytes[4 * i + 1]? = some l ∧ img.routineBytes[4 * i + 2]? = some lo ∧
      img.routineBytes[4 * i + 3]? = some hi ∧ Routine.ofRecord a l lo hi = r := by
  simp [routine?, Option.bind_eq_some_iff]

theorem lt_routineCount {img : Image} {i : Nat} {r : Routine} (h : img.routine? i = some r) :
    i < img.routineCount := by
  obtain ⟨a, l, lo, hi, -, -, -, h3, -⟩ := routine?_eq_some_iff.mp h
  obtain ⟨hlt, -⟩ := Array.getElem?_eq_some_iff.mp h3
  unfold routineCount Routine.recordSize
  omega

theorem exists_routine? {img : Image} {i : Nat} (h : i < img.routineCount) :
    ∃ r, img.routine? i = some r := by
  unfold routineCount Routine.recordSize at h
  have h0 : 4 * i < img.routineBytes.size := by omega
  have h1 : 4 * i + 1 < img.routineBytes.size := by omega
  have h2 : 4 * i + 2 < img.routineBytes.size := by omega
  have h3 : 4 * i + 3 < img.routineBytes.size := by omega
  exact ⟨_, routine?_eq_some_iff.mpr ⟨_, _, _, _, Array.getElem?_eq_getElem h0,
    Array.getElem?_eq_getElem h1, Array.getElem?_eq_getElem h2, Array.getElem?_eq_getElem h3, rfl⟩⟩

end Image

theorem Routine.frameSize_le (r : Routine) : r.frameSize ≤ stackSize := by
  have ha := r.argc.toNat_lt
  have hl := r.locals.toNat_lt
  unfold Routine.frameSize stackSize
  omega

/-! ## the invariant -/

/-- The registers of a thread are within their stores, and the routines it is in and will come
back to are among the first `count`. -/
structure Thread.Sound (t : Thread) (count : Nat) : Prop where
  fp_le : t.fp ≤ t.sp
  sp_le : t.sp ≤ stackSize
  depth_le : t.depth ≤ maxFrames
  /-- The saved activations begin one above the other. -/
  ordered : ∀ i j, i ≤ j → j < t.depth → (t.frame i).fp ≤ (t.frame j).fp
  /-- The current activation begins above them all. -/
  last : ∀ i < t.depth, (t.frame i).fp ≤ t.fp
  saved : ∀ i < t.depth, (t.frame i).routine < count
  active : t.state ≠ .terminated → ∃ i, t.routine = some i ∧ i < count

namespace Thread

variable {t t' : Thread} {count : Nat}

theorem sound_of_depth_zero (hf : t.fp ≤ t.sp) (hs : t.sp ≤ stackSize) (hd : t.depth = 0)
    (ha : t.state ≠ .terminated → ∃ i, t.routine = some i ∧ i < count) : t.Sound count where
  fp_le := hf
  sp_le := hs
  depth_le := by omega
  ordered i j _ hj := by omega
  last i hi := by omega
  saved i hi := by omega
  active := ha

theorem sound_idle (count : Nat) : idle.Sound count :=
  sound_of_depth_zero (Nat.le_refl _) (Nat.zero_le _) rfl fun h => absurd rfl h

theorem sound_reset (t : Thread) (count : Nat) : t.reset.Sound count :=
  sound_of_depth_zero (Nat.le_refl _) (Nat.zero_le _) rfl fun h => absurd rfl h

theorem sound_of_enter {img : Image} {i : Nat} (h : t.enter img i = .ok t') :
    t'.Sound img.routineCount := by
  unfold enter at h
  cases hr : img.routine? i with
  | none => rw [hr] at h; cases h
  | some r =>
    rw [hr] at h
    cases h
    exact sound_of_depth_zero (Nat.zero_le _) r.frameSize_le rfl
      fun _ => ⟨i, rfl, Image.lt_routineCount hr⟩

/-- Sleeping, waking up and ending keep a thread sound; only coming back to life would not. -/
theorem Sound.of_state (h : t.Sound count) {state : ThreadState} {paused : Nat}
    (hx : state ≠ .terminated → t.state ≠ .terminated) :
    { t with state := state, paused := paused }.Sound count where
  fp_le := h.fp_le
  sp_le := h.sp_le
  depth_le := h.depth_le
  ordered := h.ordered
  last := h.last
  saved := h.saved
  active ha := h.active (hx ha)

theorem Sound.stop (h : t.Sound count) : t.stop.Sound count := h.of_state fun hx => absurd rfl hx

theorem tick_eq (t : Thread) :
    t.tick = { t with state := t.tick.state, paused := t.tick.paused } := by
  unfold tick
  split
  · rfl
  · split <;> rfl

/-- A tick may wake a thread up, but brings none back to life. -/
theorem tick_state (h : t.tick.state ≠ .terminated) : t.state ≠ .terminated := by
  unfold tick at h
  split at h
  · exact h
  · split at h
    · rename_i hp
      rw [hp.2]
      exact fun h => nomatch h
    · exact h

theorem Sound.tick (h : t.Sound count) : t.tick.Sound count := by
  rw [tick_eq]
  exact h.of_state tick_state

theorem Stays.sound (hm : t.Stays t') (h : t.Sound count) (hx : t.state ≠ .terminated) :
    t'.Sound count where
  fp_le := by rw [hm.fp]; exact hm.fp_le
  sp_le := hm.sp_le
  depth_le := by rw [hm.depth]; exact h.depth_le
  ordered i j hij hj := by
    rw [hm.depth] at hj
    rw [hm.frame, hm.frame]
    exact h.ordered i j hij hj
  last i hi := by
    rw [hm.depth] at hi
    rw [hm.frame, hm.fp]
    exact h.last i hi
  saved i hi := by
    rw [hm.depth] at hi
    rw [hm.frame]
    exact h.saved i hi
  active _ := by rw [hm.routine]; exact h.active hx

/-- The new activation begins at the arguments, which lie above the caller's frame pointer even
if there are none. -/
theorem Sound.descend (h : t.Sound count) {caller next index : Nat} {callee : Routine} {size : Nat}
    (hcaller : caller < count) (hindex : index < count)
    (provided : callee.argc.toNat ≤ t.sp - (t.fp + size)) (frames : t.depth < maxFrames)
    (room : t.sp + callee.locals.toNat ≤ stackSize) :
    (t.descend caller next index callee).Sound count := by
  have hf := h.fp_le
  have hfp : t.fp ≤ t.sp - callee.argc.toNat := by omega
  have hframe : ∀ i < t.depth, (t.descend caller next index callee).frame i = t.frame i :=
    fun i hi => frame_save_of_ne t _ (Nat.ne_of_lt hi)
  have hself : (t.descend caller next index callee).frame t.depth = ⟨caller, next, t.fp⟩ :=
    frame_save_self t _ frames
  refine ⟨?_, room, frames, ?_, ?_, ?_, fun _ => ⟨index, rfl, hindex⟩⟩
  · show t.sp - callee.argc.toNat ≤ t.sp + callee.locals.toNat
    omega
  · intro i j hij hj
    rw [descend_depth] at hj
    rcases Nat.lt_succ_iff_lt_or_eq.mp hj with hj | rfl
    · rw [hframe i (by omega), hframe j hj]
      exact h.ordered i j hij hj
    · rw [hself]
      rcases Nat.lt_or_eq_of_le hij with hi | rfl
      · rw [hframe i hi]
        exact h.last i hi
      · exact Nat.le_of_eq (congrArg Frame.fp hself)
  · intro i hi
    rw [descend_depth] at hi
    rw [descend_fp]
    rcases Nat.lt_succ_iff_lt_or_eq.mp hi with hi | rfl
    · rw [hframe i hi]
      exact Nat.le_trans (h.last i hi) hfp
    · rw [hself]
      exact hfp
  · intro i hi
    rw [descend_depth] at hi
    rcases Nat.lt_succ_iff_lt_or_eq.mp hi with hi | rfl
    · rw [hframe i hi]
      exact h.saved i hi
    · rw [hself]
      exact hcaller

/-- Moving the results down keeps a thread sound, whatever size the activation has by now. -/
theorem Sound.collapse (h : t.Sound count) {n size : Nat} (values : t.fp + size + n ≤ t.sp) :
    (t.collapse n size).Sound count := by
  have hs := h.sp_le
  rw [collapse_eq]
  refine ⟨?_, ?_, h.depth_le, h.ordered, h.last, h.saved, h.active⟩
  · show t.fp ≤ t.sp - n - size + n
    omega
  · show t.sp - n - size + n ≤ stackSize
    omega

theorem Sound.restore (h : t.Sound count) (hd : t.depth ≠ 0) : t.restore.Sound count := by
  have hd' : t.depth - 1 < t.depth := by omega
  refine ⟨?_, h.sp_le, ?_, ?_, ?_, ?_, fun _ => ⟨_, rfl, h.saved _ hd'⟩⟩
  · exact Nat.le_trans (h.last _ hd') h.fp_le
  · exact Nat.le_trans (Nat.sub_le _ _) h.depth_le
  · intro i j hij hj
    exact h.ordered i j hij (Nat.lt_trans hj hd')
  · intro i hi
    exact h.ordered i _ (Nat.le_of_lt hi) hd'
  · intro i hi
    exact h.saved i (Nat.lt_trans hi hd')

end Thread

def Engine.Sound (e : Engine σ) : Prop := e.thread.Sound e.image.routineCount

theorem Image.routineCount_congr {img img' : Image} (h : img'.routineBytes = img.routineBytes) :
    img'.routineCount = img.routineCount := by
  unfold routineCount
  rw [h]

/-! ## steps -/

theorem Moves.sound {e e' : Engine σ} {next : Nat} {i : Instruction} {o : Outcome}
    (hm : Moves e next i o e') (h : e.Sound) (hx : e.thread.state = .executing) : e'.Sound := by
  unfold Engine.Sound at h ⊢
  have alive : e.thread.state ≠ .terminated := by rw [hx]; exact fun h => nomatch h
  cases hm with
  | stays calls returns image thread =>
    have hc : e'.image.routineCount = e.image.routineCount :=
      Image.routineCount_congr (by rw [image])
    rw [hc]
    exact thread.sound h alive
  | call found runs provided frames room =>
    exact h.descend (Image.lt_routineCount runs.2) (Image.lt_routineCount found) provided frames
      room
  | back runs values inner =>
    refine (h.collapse values).restore ?_
    rw [Thread.collapse_eq]
    exact inner
  | finish runs values outer => exact (h.collapse values).of_state fun hx => absurd rfl hx

namespace Engine

variable {p : Peripherals σ} {e e' : Engine σ}

theorem step_moves {o : Outcome} (h : e.Sound) (hx : e.thread.state = .executing)
    (hs : e.step p = (.ok o, e')) :
    ∃ i, e.decoded = .instruction i ∧ Moves e (e.thread.pc + i.size) i o e' := by
  rcases step_ok_iff.mp hs with ⟨hn, -⟩ | ⟨-, i, hi, hp⟩
  · exact absurd hx hn
  · exact ⟨i, hi, hp.moves h.fp_le h.sp_le (by rw [hx]; exact fun h => nomatch h)⟩

theorem step_sound (h : e.Sound) : (e.step p).2.Sound := by
  rcases hs : e.step p with ⟨r, e'⟩
  cases r with
  | error f =>
    have he := step_error_engine (p := p) (e := e) (f := f) (by rw [hs])
    rw [hs] at he
    rw [he]
    exact h
  | ok o =>
    by_cases hx : e.thread.state = .executing
    · obtain ⟨i, -, hm⟩ := step_moves h hx hs
      exact hm.sound h hx
    · rw [step_idle hx] at hs
      cases hs
      exact h

/-- A sound engine that executes is in a routine of its image. -/
theorem Sound.runs (h : e.Sound) (hx : e.thread.state ≠ .terminated) : ∃ i r, e.Runs i r := by
  obtain ⟨i, hi, hlt⟩ := h.active hx
  obtain ⟨r, hr⟩ := Image.exists_routine? hlt
  exact ⟨i, r, hi, hr⟩

end Engine

end TickMachine
