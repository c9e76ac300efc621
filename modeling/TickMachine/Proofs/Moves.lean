import TickMachine.Proofs.Rules

/-!
# How a step moves

Seen from the stack of calls there are only four kinds of successful steps: the thread stays in
its activation, calls, returns to a caller, or finishes.  While it stays, it leaves everything
below its frame pointer and all saved frames alone.

* `slot_setSlots_of_lt`, `slots_setSlots`, `frame_save_self`, `frame_save_of_ne`
                       what is written is read again, and nothing else changes;
* `Thread.Stays`   the thread goes on in the same activation;
* `Moves`, `Performs.moves`   every instruction moves in one of the four ways.
-/

namespace TickMachine

variable {σ : Type}

namespace Thread

/-! ## slots -/

theorem setSlots_eq (t : Thread) (i : Nat) (vs : List Value) :
    t.setSlots i vs = { t with stack := (t.setSlots i vs).stack } := by
  induction vs generalizing t i with
  | nil => rfl
  | cons v vs ih =>
    show (t.setSlot i v).setSlots (i + 1) vs = _
    rw [ih]
    rfl

theorem slot_setSlots_of_lt (t : Thread) (vs : List Value) {i k : Nat} (h : k < i) :
    (t.setSlots i vs).slot k = t.slot k := by
  induction vs generalizing t i with
  | nil => rfl
  | cons v vs ih =>
    show ((t.setSlot i v).setSlots (i + 1) vs).slot k = _
    rw [ih _ (by omega), slot_setSlot_of_ne _ _ (by omega)]

theorem slots_succ (t : Thread) (i n : Nat) :
    t.slots i (n + 1) = t.slot i :: t.slots (i + 1) n := by
  unfold slots
  rw [List.range_succ_eq_map, List.map_cons, List.map_map]
  congr 1
  apply List.map_congr_left
  intro k _
  show t.slot (i + (k + 1)) = t.slot (i + 1 + k)
  rw [Nat.add_assoc, Nat.add_comm 1 k]

theorem slots_setSlots (t : Thread) (i : Nat) (vs : List Value) (h : i + vs.length ≤ stackSize) :
    (t.setSlots i vs).slots i vs.length = vs := by
  induction vs generalizing t i with
  | nil => rfl
  | cons v vs ih =>
    rw [List.length_cons] at h
    rw [List.length_cons, slots_succ]
    show ((t.setSlot i v).setSlots (i + 1) vs).slot i
      :: ((t.setSlot i v).setSlots (i + 1) vs).slots (i + 1) vs.length = _
    rw [ih _ _ (by omega), slot_setSlots_of_lt _ _ (by omega), slot_setSlot_self _ _ _ (by omega)]

/-! ## saved frames -/

theorem frame_save_self (t : Thread) (f : Frame) (h : t.depth < maxFrames) :
    (t.save f).frame t.depth = f := by
  simp [save, frame, h]

theorem frame_save_of_ne (t : Thread) (f : Frame) {k : Nat} (h : k ≠ t.depth) :
    (t.save f).frame k = t.frame k := by
  simp [save, frame, Ne.symm h]

/-! ## calls and returns -/

@[simp] theorem descend_fp (t : Thread) (caller next index : Nat) (callee : Routine) :
    (t.descend caller next index callee).fp = t.sp - callee.argc.toNat := rfl

@[simp] theorem descend_depth (t : Thread) (caller next index : Nat) (callee : Routine) :
    (t.descend caller next index callee).depth = t.depth + 1 := rfl

theorem collapse_eq (t : Thread) (count size : Nat) :
    t.collapse count size = { t with
      sp := t.sp - count - size + count
      stack := (t.setSlots (t.sp - count - size) (t.slots (t.sp - count) count)).stack } := by
  unfold collapse
  rw [setSlots_eq]

theorem collapse_depth (t : Thread) (count size : Nat) :
    (t.collapse count size).depth = t.depth := by
  rw [collapse_eq]

theorem slot_collapse_of_lt (t : Thread) {count size k : Nat} (h : k < t.sp - count - size) :
    (t.collapse count size).slot k = t.slot k :=
  slot_setSlots_of_lt t _ h

theorem slots_collapse (t : Thread) (count size : Nat) (hc : count ≤ t.sp)
    (hs : t.sp ≤ stackSize) :
    (t.collapse count size).slots (t.sp - count - size) count = t.slots (t.sp - count) count := by
  have h := slots_setSlots t (t.sp - count - size) (t.slots (t.sp - count) count)
    (by rw [length_slots]; omega)
  rw [length_slots] at h
  exact h

/-! ## staying in an activation -/

/-- The thread goes on in its activation: nothing below the frame pointer and no saved frame is
touched, and the stack pointer stays between the frame pointer and the capacity. -/
structure Stays (t t' : Thread) : Prop where
  fp : t'.fp = t.fp
  depth : t'.depth = t.depth
  frames : t'.frames = t.frames
  routine : t'.routine = t.routine
  fp_le : t.fp ≤ t'.sp
  sp_le : t'.sp ≤ stackSize
  below : ∀ k < t.fp, t'.slot k = t.slot k
  alive : t'.state ≠ .terminated

theorem Stays.frame {t t' : Thread} (h : t.Stays t') (k : Nat) : t'.frame k = t.frame k := by
  unfold Thread.frame
  rw [h.frames]

end Thread

/-! ## the four ways to move -/

/-- `Moves e next i o e'`: with the instruction `i`, which ends at `next`, the engine `e` moves
to `e'`. -/
inductive Moves (e : Engine σ) (next : Nat) : Instruction → Outcome → Engine σ → Prop where
  | stays {i : Instruction} {o : Outcome} {e' : Engine σ} (calls : ∀ k, i ≠ .call k)
    (returns : ∀ n, i ≠ .ret n)
    (image : e'.image = { e.image with globalBytes := e'.image.globalBytes })
    (thread : e.thread.Stays e'.thread) : Moves e next i o e'
  | call {k : UInt8} {callee caller : Routine} {i : Nat}
    (found : e.image.routine? k.toNat = some callee) (runs : e.Runs i caller)
    (provided : callee.argc.toNat ≤ e.thread.sp - (e.thread.fp + caller.frameSize))
    (frames : e.thread.depth < maxFrames) (room : e.thread.sp + callee.locals.toNat ≤ stackSize) :
    Moves e next (.call k) .running { e with thread := e.thread.descend i next k.toNat callee }
  | back {n : UInt8} {i : Nat} {r : Routine} (runs : e.Runs i r)
    (values : e.thread.fp + r.frameSize + n.toNat ≤ e.thread.sp) (inner : e.thread.depth ≠ 0) :
    Moves e next (.ret n) .running { e with
      thread := (e.thread.collapse n.toNat r.frameSize).restore }
  | finish {n : UInt8} {i : Nat} {r : Routine} (runs : e.Runs i r)
    (values : e.thread.fp + r.frameSize + n.toNat ≤ e.thread.sp) (outer : e.thread.depth = 0) :
    Moves e next (.ret n)
      (.terminated ((e.thread.collapse n.toNat r.frameSize).slots
        (e.thread.sp - n.toNat - r.frameSize) n.toNat))
      { e with thread := { e.thread.collapse n.toNat r.frameSize with state := .terminated } }

theorem Pushes.ne_call {e : Engine σ} {i : Instruction} {v : Value} (h : Pushes e i v) (k : UInt8) :
    i ≠ .call k := by
  cases h <;> exact fun h => nomatch h

theorem Pushes.ne_ret {e : Engine σ} {i : Instruction} {v : Value} (h : Pushes e i v) (n : UInt8) :
    i ≠ .ret n := by
  cases h <;> exact fun h => nomatch h

namespace Action

/-- A built-in touches the thread only to put it to sleep, and never the image. -/
theorem effect_thread (p : Peripherals σ) (e : Engine σ) (a : Action) :
    (a.effect p e).2.image = e.image ∧
      (a.effect p e).2.thread = { e.thread with
        state := (a.effect p e).2.thread.state
        paused := (a.effect p e).2.thread.paused } := by
  cases a with
  | yield v => exact ⟨rfl, rfl⟩
  | ask r => exact ⟨rfl, rfl⟩
  | sleep count =>
    refine ⟨rfl, ?_⟩
    show e.thread.pause count = { e.thread with
      state := (e.thread.pause count).state, paused := (e.thread.pause count).paused }
    unfold Thread.pause
    split <;> rfl

theorem effect_alive (p : Peripherals σ) (e : Engine σ) (a : Action)
    (h : e.thread.state ≠ .terminated) : (a.effect p e).2.thread.state ≠ .terminated := by
  cases a with
  | yield v => exact h
  | ask r => exact h
  | sleep count =>
    show (e.thread.pause count).state ≠ .terminated
    unfold Thread.pause
    split
    · exact fun h => nomatch h
    · exact h

end Action

namespace Thread

variable {t : Thread}

theorem stays_push (hf : t.fp ≤ t.sp) (hx : t.state ≠ .terminated) (room : t.sp < stackSize)
    (v : Value) (next : Nat) : t.Stays ((t.push v).jump next) where
  fp := rfl
  depth := rfl
  frames := rfl
  routine := rfl
  fp_le := Nat.le_succ_of_le hf
  sp_le := room
  below k hk := slot_setSlot_of_ne t v (by omega)
  alive := hx

theorem stays_drop (hs : t.sp ≤ stackSize) (hx : t.state ≠ .terminated) (one : t.fp + 1 ≤ t.sp)
    (next : Nat) : t.Stays (t.drop.jump next) where
  fp := rfl
  depth := rfl
  frames := rfl
  routine := rfl
  fp_le := Nat.le_sub_one_of_lt one
  sp_le := Nat.le_trans (Nat.sub_le t.sp 1) hs
  below _ _ := rfl
  alive := hx

/-- Writing to the activation's own slots is staying in it. -/
theorem Stays.setSlot {t' : Thread} (h : t.Stays t') {i : Nat} (hi : t.fp ≤ i) (v : Value) :
    t.Stays (t'.setSlot i v) where
  fp := h.fp
  depth := h.depth
  frames := h.frames
  routine := h.routine
  fp_le := h.fp_le
  sp_le := h.sp_le
  below k hk := by rw [slot_setSlot_of_ne t' v (by omega), h.below k hk]
  alive := h.alive

theorem stays_jump (hf : t.fp ≤ t.sp) (hs : t.sp ≤ stackSize) (hx : t.state ≠ .terminated)
    (next : Nat) : t.Stays (t.jump next) where
  fp := rfl
  depth := rfl
  frames := rfl
  routine := rfl
  fp_le := hf
  sp_le := hs
  below _ _ := rfl
  alive := hx

theorem stays_settle {t₁ : Thread} {base : Nat}
    (ht : t₁ = { t with state := t₁.state, paused := t₁.paused }) (hx : t₁.state ≠ .terminated)
    (hb : t.fp ≤ base) (room : base < stackSize) (v : Value) (next : Nat) :
    t.Stays (t₁.settle base v next) where
  fp := by rw [ht]; rfl
  depth := by rw [ht]; rfl
  frames := by rw [ht]; rfl
  routine := by rw [ht]; rfl
  fp_le := Nat.le_succ_of_le hb
  sp_le := room
  below k hk := by
    show (t₁.setSlot base v).slot k = t.slot k
    rw [slot_setSlot_of_ne t₁ v (by omega), ht]
    rfl
  alive := hx

end Thread

theorem Performs.moves {p : Peripherals σ} {e e' : Engine σ} {next : Nat} {i : Instruction}
    {o : Outcome} (h : Performs p e next i o e') (hf : e.thread.fp ≤ e.thread.sp)
    (hs : e.thread.sp ≤ stackSize) (hx : e.thread.state ≠ .terminated) : Moves e next i o e' := by
  cases h with
  | push pushes room =>
    exact .stays pushes.ne_call pushes.ne_ret rfl (Thread.stays_push hf hx room _ next)
  | drop one => exact .stays nofun nofun rfl (Thread.stays_drop hs hx one next)
  | setGlobal one found => exact .stays nofun nofun rfl (Thread.stays_drop hs hx one next)
  | @setLocal k i r runs inFrame inStack one =>
    have h := (Thread.stays_drop hs hx one next).setSlot (Nat.le_add_right e.thread.fp k.toNat)
    exact .stays nofun nofun rfl (h e.thread.top)
  | jmp reach => exact .stays nofun nofun rfl (Thread.stays_jump hf hs hx _)
  | jz one reach => exact .stays nofun nofun rfl (Thread.stays_drop hs hx one _)
  | call found runs provided frames room => exact .call found runs provided frames room
  | back runs values inner => exact .back runs values inner
  | finish runs values outer => exact .finish runs values outer
  | @builtin b a v e₁ args room does effect =>
    have ha := a.effect_thread p e
    have hl := a.effect_alive p e hx
    rw [effect] at ha hl
    refine .stays nofun nofun ?_ (Thread.stays_settle ha.2 hl (by omega) room v next)
    show e₁.image = _
    rw [ha.1]

end TickMachine
