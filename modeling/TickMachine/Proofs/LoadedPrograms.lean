import TickMachine.Proofs.Effects
import TickMachine.Proofs.Jumps
import TickMachine.Proofs.Uploads

/-!
# What the checks of a file are worth

A file is read only if its main routine exists and every routine begins within the code.  That is
all that is ever checked of its routines; whatever else a program needs while it runs, the engine
finds out for itself.  Without a debugger the function table and the code stay as they were read,
so these two checks hold for every activation, at whatever depth and however close to the end of
the stack it was made.

* `Engine.Housed`   every activation has its routine in the image and its slots in the stack, and
                       every saved caller goes on within the code or at its end;
* `Housed.call`, `Beat.housed`   a call makes such an activation, and all else keeps what is there;
* `Machine.Ticking`, `Machine.Passes`   the machines that frame ticks lead to, and the engines they
                       pass on the way;
* `Machine.checks_suffice`   in all of them an entry or a call is followed by an instruction, a
                       routine is unknown only to a call, and a local is out of range only if its
                       routine has too few.
-/

namespace TickMachine

variable {σ : Type}

/-! ## housed activations -/

/-- The function table and the code are those of `img`; every activation is one of a routine of
`img` and has room for its slots; and every saved caller goes on within the code of `img`, or at
its end. -/
structure Engine.Housed (img : Image) (e : Engine σ) : Prop where
  sound : e.Sound
  steady : img.Steady e.image
  seats : ∀ i ≤ e.thread.depth, ∃ k r, e.thread.routineAt i = some k ∧ img.routine? k = some r ∧
    e.thread.fpAt i + r.frameSize ≤ stackSize
  returns : ∀ i < e.thread.depth, (e.thread.frame i).pc ≤ img.length

theorem Image.Steady.routine? {img img' : Image} (h : img.Steady img') (i : Nat) :
    img'.routine? i = img.routine? i :=
  Image.routine?_congr h.routines i

theorem Thread.entered {t t' : Thread} {img : Image} {i : Nat} (h : t.enter img i = .ok t') :
    ∃ r, img.routine? i = some r ∧ t'.state = .executing ∧ t'.routine = some i ∧
      t'.pc = r.entry.toNat ∧ t'.fp = 0 ∧ t'.depth = 0 := by
  unfold enter at h
  split at h
  · cases h
  · next r hr =>
    cases h
    exact ⟨r, hr, rfl, rfl, rfl, rfl, rfl⟩

namespace Engine

variable {p : Peripherals σ} {e e' : Engine σ} {img : Image}

theorem housed_of_enter {t t' : Thread} {i : Nat} {devices : σ} (h : t.enter img i = .ok t') :
    Housed img ⟨⟨img, t'⟩, devices⟩ := by
  obtain ⟨r, hr, -, hroutine, -, hfp, hdepth⟩ := Thread.entered h
  refine ⟨Thread.sound_of_enter h, .refl img, ?_, ?_⟩
  · intro j (hj : j ≤ t'.depth)
    obtain rfl : j = t'.depth := by omega
    refine ⟨i, r, t'.routineAt_depth.trans hroutine, hr, ?_⟩
    show t'.fpAt t'.depth + r.frameSize ≤ stackSize
    rw [t'.fpAt_depth, hfp, Nat.zero_add]
    exact r.frameSize_le
  · intro j (hj : j < t'.depth)
    omega

/-- What a call that succeeds has made: an activation that fits on the stack, at the beginning of
its routine, with a caller that goes on behind the call. -/
theorem Housed.call {k : UInt8} {o : Outcome} (h : e.Housed img)
    (hx : e.thread.state = .executing) (hi : e.decoded = .instruction (.call k))
    (steps : e.step p = (.ok o, e')) :
    ∃ callee, img.routine? k.toNat = some callee ∧ e'.thread.routine = some k.toNat ∧
      e'.thread.state = .executing ∧ e'.thread.pc = callee.entry.toNat ∧
      e'.thread.fp + callee.frameSize ≤ stackSize ∧
      (e'.thread.frame e.thread.depth).pc ≤ img.length := by
  have hroom := ((Beat.step steps).sound h.sound).sp_le
  have hfits : e.thread.pc + 2 ≤ e.image.code.length := decode_fits (by rw [← decoded_eq, hi])
  rw [Image.length_code, h.steady.length] at hfits
  obtain ⟨i, callee, caller, found, -, provided, frames, -, rfl⟩ := step_call h.sound hx hi steps
  refine ⟨callee, by rw [← h.steady.routine?, found], rfl, hx, rfl, ?_, ?_⟩
  · -- the arguments are on the stack already, and there was room for the locals
    change e.thread.sp + callee.locals.toNat ≤ stackSize at hroom
    show e.thread.sp - callee.argc.toNat + (callee.argc.toNat + callee.locals.toNat) ≤ stackSize
    omega
  · have hself : (e.thread.descend i (e.thread.pc + 2) k.toNat callee).frame e.thread.depth =
        ⟨i, e.thread.pc + 2, e.thread.fp⟩ := Thread.frame_save_self _ _ frames
    show ((e.thread.descend i (e.thread.pc + 2) k.toNat callee).frame e.thread.depth).pc ≤ _
    rw [hself]
    exact hfits

theorem Beat.steady (h : Beat p e e') : e.image.Steady e'.image := by
  cases h with
  | step steps =>
    have hsteady := step_steady p e
    rwa [steps] at hsteady
  | tick devices => exact .refl _

/-- A beat keeps the activations it shares, and the one it may add is that of a call. -/
theorem Beat.housed (hb : Beat p e e') (h : e.Housed img) : e'.Housed img := by
  have hsh := hb.shares h.sound
  have hgrows := hsh.grows
  refine ⟨hb.sound h.sound, h.steady.trans hb.steady, ?_, ?_⟩
  · intro i hi
    rcases Nat.lt_or_ge e.thread.depth i with hnew | hold
    · obtain ⟨k, o, hx, hcall, steps⟩ := hb.rises h.sound (Nat.lt_of_lt_of_le hnew hi)
      obtain ⟨callee, found, hroutine, -, -, hfits, -⟩ := h.call hx hcall steps
      have htop : i = e'.thread.depth := by omega
      refine ⟨k.toNat, callee, ?_, found, ?_⟩
      · rw [htop, Thread.routineAt_depth, hroutine]
      · rw [htop, Thread.fpAt_depth]
        exact hfits
    · rw [hsh.routineAt i hold hi, hsh.fpAt i hold hi]
      exact h.seats i hold
  · intro i hi
    rcases Nat.lt_or_ge i e.thread.depth with hold | hnew
    · rw [hsh.frame i hold hi]
      exact h.returns i hold
    · obtain ⟨k, o, hx, hcall, steps⟩ := hb.rises h.sound (by omega)
      obtain ⟨-, -, -, -, -, -, hsaved⟩ := h.call hx hcall steps
      rwa [show i = e.thread.depth by omega]

theorem step_housed (p : Peripherals σ) (h : e.Housed img) : (e.step p).2.Housed img := by
  rcases hr : (e.step p).1 with f | o
  · rw [step_error_engine hr]
    exact h
  · exact (Beat.of_ok hr).housed h

theorem stepped_housed (p : Peripherals σ) (h : e.Housed img) (n : Nat) :
    (e.stepped p n).Housed img := by
  induction n generalizing e with
  | zero => exact h
  | succ n ih => exact ih (step_housed p h)

theorem run_housed {fuel : Nat} {log : Array Event} {r : Run σ} (h : e.Housed img)
    (hrun : e.run p fuel log = some r) : r.engine.Housed img := by
  obtain ⟨n, -, hlast, -⟩ := run_ends hrun
  have hn := stepped_housed p h (n + 1)
  rwa [stepped_succ, hlast] at hn

theorem Housed.devices (h : e.Housed img) (d : σ) : { e with devices := d }.Housed img :=
  ⟨h.sound, h.steady, h.seats, h.returns⟩

theorem Housed.stop (h : e.Housed img) : { e with thread := e.thread.stop }.Housed img :=
  ⟨Thread.Sound.stop h.sound, h.steady, h.seats, h.returns⟩

/-! ## what follows for steps -/

/-- The next step executes, and finds a byte at the program counter: if it fails, then not for want
of one. -/
def Fetches (p : Peripherals σ) (e : Engine σ) : Prop :=
  e.thread.state = .executing ∧ ∃ byte, e.image.code[e.thread.pc]? = some byte ∧
    ∀ f, (e.step p).1 = .error f → f.opcode = some byte

theorem fetches_of_lt (hx : e.thread.state = .executing) (h : e.thread.pc < e.image.length) :
    e.Fetches p := by
  rw [← Image.length_code] at h
  refine ⟨hx, _, List.getElem?_eq_getElem h, ?_⟩
  intro f hf
  rw [(step_error_names hf).2.2, List.getElem?_eq_getElem h]

end Engine

namespace Exec

variable {p : Peripherals σ} {e : Engine σ} {next : Nat}

theorem fails_unknownRoutine {i : Instruction} {j k : Nat} {r : Routine} (hr : e.Runs j r)
    (h : Fails (execute p i next) e (.unknownRoutine k)) :
    ∃ op, i = .call op ∧ k = op.toNat ∧ e.image.routine? op.toNat = none := by
  have hl : ¬ e.Lost (.unknownRoutine k) := hr.not_lost
  cases i with
  | call op =>
    rcases fails_call.mp h with ⟨hn, hc⟩ | ⟨callee, -, lost | ⟨_, caller, -, h⟩⟩
    · exact ⟨op, rfl, Cause.unknownRoutine.inj hc, hn⟩
    · exact absurd lost hl
    · rcases h with ⟨-, hc⟩ | ⟨-, ⟨-, hc⟩ | ⟨-, -, hc⟩⟩ <;> cases hc
  | ret n =>
    rcases fails_ret.mp h with lost | ⟨_, _, -, -, hc⟩
    · exact absurd lost hl
    · cases hc
  | builtin b =>
    rcases fails_builtin.mp h with ⟨-, hc⟩ | ⟨-, ⟨-, hc⟩ | ⟨-, ha⟩⟩
    · cases hc
    · cases hc
    · cases Builtin.action_error ha
  | _ => simp [execute, hl] at h

/-- Reading and writing a local are out of range together, and find it out first. -/
theorem fails_local {i : Instruction} {k : UInt8} {n size : Nat}
    (hi : i = .getLocal k ∨ i = .setLocal k) :
    Fails (execute p i next) e (.localOutOfRange n size) ↔
      Fails (localSlot k.toNat) e (.localOutOfRange n size) := by
  rcases hi with rfl | rfl <;> simp [execute, -fails_localSlot]

end Exec

namespace Engine

variable {p : Peripherals σ} {e e' : Engine σ} {img : Image}

theorem fails_of_step_error {i : Instruction} {f : Fault} (hd : e.decoded = .instruction i)
    (hf : (e.step p).1 = .error f) :
    Exec.Fails (Exec.execute p i (e.thread.pc + i.size)) e f.cause := by
  obtain ⟨-, ⟨hd', -⟩ | ⟨byte, hd', -⟩ | ⟨op, hd', -⟩ | ⟨i', c, hd', hfails, rfl⟩⟩ :=
    step_error_iff.mp hf
  all_goals
    rw [hd] at hd'
    cases hd'
  exact hfails

theorem Housed.runs_fits (h : e.Housed img) {i : Nat} {r : Routine} (hr : e.Runs i r) :
    e.thread.fp + r.frameSize ≤ stackSize := by
  obtain ⟨k, r', hk, hr', hfits⟩ := h.seats e.thread.depth (Nat.le_refl _)
  rw [Thread.routineAt_depth] at hk
  rw [Thread.fpAt_depth] at hfits
  obtain ⟨-, rfl⟩ := hr.unique ⟨hk, (h.steady.routine? k).trans hr'⟩
  exact hfits

theorem Housed.unknownRoutine (h : e.Housed img) {f : Fault} {k : Nat}
    (hf : (e.step p).1 = .error f) (hc : f.cause = .unknownRoutine k) :
    ∃ op : UInt8, e.decoded = .instruction (.call op) ∧ k = op.toNat ∧
      img.routineCount ≤ op.toNat := by
  obtain ⟨hx, ⟨-, rfl⟩ | ⟨byte, -, rfl⟩ | ⟨op, -, rfl⟩ | ⟨i, c, hd, hfails, rfl⟩⟩ :=
    step_error_iff.mp hf
  · cases hc
  · cases hc
  · cases hc
  · change c = .unknownRoutine k at hc
    subst hc
    obtain ⟨j, r, hr⟩ := h.sound.runs (by rw [hx]; exact nofun)
    obtain ⟨op, rfl, hk, hnone⟩ := Exec.fails_unknownRoutine hr hfails
    refine ⟨op, hd, hk, ?_⟩
    by_contra hlt
    obtain ⟨r', hr'⟩ := Image.exists_routine? (Nat.lt_of_not_le hlt)
    rw [h.steady.routine?, hr'] at hnone
    cases hnone

theorem Housed.localOutOfRange_iff (h : e.Housed img) (hx : e.thread.state = .executing)
    {i : Instruction} {k : UInt8} (hi : i = .getLocal k ∨ i = .setLocal k)
    (hd : e.decoded = .instruction i) {j : Nat} {r : Routine} (hr : e.Runs j r) :
    (∃ f n size, (e.step p).1 = .error f ∧ f.cause = .localOutOfRange n size) ↔
      r.frameSize ≤ k.toNat := by
  have hfits := h.runs_fits hr
  constructor
  · rintro ⟨f, n, size, hf, hc⟩
    have hfails := fails_of_step_error hd hf
    rw [hc, Exec.fails_local hi, Exec.fails_localSlot] at hfails
    rcases hfails with lost | ⟨j', r', hr', hout, -⟩
    · exact absurd lost hr.not_lost
    · obtain ⟨-, rfl⟩ := hr'.unique hr
      -- an index within the activation is within the stack
      omega
  · intro hout
    have hfails : Exec.Fails (Exec.localSlot k.toNat) e (.localOutOfRange k.toNat r.frameSize) :=
      Exec.fails_localSlot.mpr (.inr ⟨j, r, hr, .inl hout, rfl⟩)
    have hstep := step_fails (p := p) hx hd ((Exec.fails_local hi).mpr hfails)
    exact ⟨_, k.toNat, r.frameSize, congrArg Prod.fst hstep, rfl⟩

end Engine

/-! ## machines without a debugger -/

namespace Machine

variable {p : Peripherals σ} {m m' : Machine σ} {img : Image}

/-- The machines that frame ticks make of `m`, while its peripherals may change in between. -/
inductive Ticking (p : Peripherals σ) (m : Machine σ) : Machine σ → Prop where
  | start : Ticking p m m
  | tick {m' : Machine σ} {fuel : Nat} {u : Ticked σ} (before : Ticking p m m')
    (ticks : m'.tick p fuel = some u) : Ticking p m u.machine
  | devices {m' : Machine σ} (before : Ticking p m m') (f : σ → σ) :
    Ticking p m (m'.mapDevices f)

/-- The engines that `m` comes to have: between frame ticks, and after any number of steps of one,
whether or not that tick ever ends. -/
def Passes (p : Peripherals σ) (m : Machine σ) (e : Engine σ) : Prop :=
  ∃ m', m.Ticking p m' ∧
    (e = m'.engine ∨ ∃ n, e = (m'.beginTick p).engine.stepped p n)

theorem housed_beginTick (p : Peripherals σ) (h : m.engine.Housed img) :
    (m.beginTick p).engine.Housed img :=
  (Engine.Beat.tick (p := p) m.engine (p.frameStart m.engine.devices)).housed h

theorem housed_conclude (h : m.engine.Housed img) (result : Except Fault Outcome) :
    (m.conclude result).1.engine.Housed img := by
  cases result with
  | error f => exact h.stop
  | ok o =>
    have he : (m.conclude (.ok o)).1.engine = m.engine :=
      congrArg Situation.engine (m.situation_conclude o)
    rw [he]
    exact h

theorem housed_tick {fuel : Nat} {u : Ticked σ} (alone : m.debugger = none)
    (h : m.engine.Housed img) (ht : m.tick p fuel = some u) :
    u.machine.debugger = none ∧ u.machine.engine.Housed img := by
  obtain ⟨run, hrun, rfl⟩ := Option.map_eq_some_iff.mp ht
  have alone' : (m.beginTick p).debugger = none := alone
  rw [endTick_alone alone']
  refine ⟨closing_alone alone' run, housed_conclude ?_ run.result⟩
  exact (Engine.run_housed (housed_beginTick p h) hrun).devices (p.frameEnd run.engine.devices)

theorem Ticking.housed (h : m.Ticking p m') (alone : m.debugger = none)
    (hm : m.engine.Housed img) : m'.debugger = none ∧ m'.engine.Housed img := by
  induction h with
  | start => exact ⟨alone, hm⟩
  | tick before ticks ih => exact housed_tick ih.1 ih.2 ticks
  | devices before f ih => exact ⟨ih.1, ih.2.devices _⟩

theorem Passes.housed {e : Engine σ} (h : m.Passes p e) (alone : m.debugger = none)
    (hm : m.engine.Housed img) : e.Housed img := by
  obtain ⟨m', hticks, rfl | ⟨n, rfl⟩⟩ := h
  · exact (hticks.housed alone hm).2
  · exact Engine.stepped_housed p (housed_beginTick p (hticks.housed alone hm).2) n

theorem exists_load {r : Routine} (hmain : img.routine? img.main = some r) (devices : σ) :
    ∃ m, load img devices = .ok m ∧ m.debugger = none ∧ m.engine.Housed img := by
  obtain ⟨t, ht⟩ : ∃ t, Thread.idle.enter img img.main = .ok t := by
    unfold Thread.enter
    rw [hmain]
    exact ⟨_, rfl⟩
  refine ⟨{ engine := ⟨⟨img, t⟩, devices⟩ }, ?_, rfl, Engine.housed_of_enter ht⟩
  unfold load Thread.ofImage
  rw [ht]
  rfl

/-- **What is checked of a file is enough.**  A machine can be made for every file that is read, and
in all that frame ticks make of it the function table and the code are those of the file.  Every
activation, the current one and the saved ones, is one of a routine of the file and fits on the
stack, and every saved caller goes on within the code or at its end.  After an entry and after a
call that succeeds there is code to execute.  A step fails for want of a routine only if it calls
one that the file does not have.  And a local is out of range exactly if the current routine has
too few slots. -/
theorem checks_suffice (p : Peripherals σ) (devices : σ) {bytes : List UInt8} {img : Image}
    (read : Image.ofBytes bytes = .ok img) :
    ∃ m, load img devices = .ok m ∧ ∀ e, m.Passes p e →
      img.Steady e.image ∧
      (∀ i ≤ e.thread.depth, ∃ k r, e.thread.routineAt i = some k ∧ k < img.routineCount ∧
        img.routine? k = some r ∧ e.thread.fpAt i + r.frameSize ≤ stackSize) ∧
      (∀ i < e.thread.depth, (e.thread.frame i).pc ≤ img.length) ∧
      (∀ (t t' : Thread) (i : Nat), t.enter e.image i = .ok t' →
        t'.pc < img.length ∧ Engine.Fetches p { e with thread := t' }) ∧
      (∀ (k : UInt8) (o : Outcome) (e' : Engine σ), e.thread.state = .executing →
        e.decoded = .instruction (.call k) → e.step p = (.ok o, e') →
        e'.thread.pc < img.length ∧ e'.Fetches p) ∧
      (∀ (f : Fault) (k : Nat), (e.step p).1 = .error f → f.cause = .unknownRoutine k →
        ∃ op : UInt8, e.decoded = .instruction (.call op) ∧ k = op.toNat ∧
          img.routineCount ≤ op.toNat) ∧
      (∀ (i : Instruction) (k : UInt8) (j : Nat) (r : Routine), e.thread.state = .executing →
        i = .getLocal k ∨ i = .setLocal k → e.decoded = .instruction i → e.Runs j r →
        ((∃ f n size, (e.step p).1 = .error f ∧ f.cause = .localOutOfRange n size) ↔
          r.frameSize ≤ k.toNat)) := by
  obtain ⟨-, -, -, -, -, -, -, -, -, -, -, -, -, rooted⟩ := Image.ofBytes_eq_ok_iff.mp read
  obtain ⟨-, main, hmain⟩ := Image.main_of_ofBytes read
  obtain ⟨m, hload, alone, hm⟩ := exists_load hmain devices
  refine ⟨m, hload, fun e passes => ?_⟩
  have h := passes.housed alone hm
  refine ⟨h.steady, ?_, h.returns, ?_, ?_, fun f k => h.unknownRoutine,
    fun i k j r hx hi hd => h.localOutOfRange_iff hx hi hd⟩
  · intro i hi
    obtain ⟨k, r, hk, hr, hfits⟩ := h.seats i hi
    exact ⟨k, r, hk, Image.lt_routineCount hr, hr, hfits⟩
  · intro t t' i entered
    obtain ⟨r, hr, hx, -, hpc, -⟩ := Thread.entered entered
    have hlt : t'.pc < img.length := by
      rw [hpc]
      exact rooted i r (by rw [← h.steady.routine?, hr])
    exact ⟨hlt, Engine.fetches_of_lt hx (by rw [h.steady.length]; exact hlt)⟩
  · intro k o e' hx hi steps
    obtain ⟨callee, found, -, hx', hpc, -⟩ := h.call hx hi steps
    have hlt : e'.thread.pc < img.length := by
      rw [hpc]
      exact rooted k.toNat callee found
    have hsteady := h.steady.trans (Engine.Beat.step steps).steady
    exact ⟨hlt, Engine.fetches_of_lt hx' (by rw [hsteady.length]; exact hlt)⟩

/-- The file of a main routine that calls another with one argument; that one has one local besides,
and asks for a third slot. -/
def visitFile : List UInt8 :=
  [9, 0, 2, 0, 0, 0, 0, 0, 0, 1, 0, 0, 1, 1, 7, 0, 0x00, 5, 0, 0x0A, 1, 0x0D, 0, 0x05, 2]

def visit : Machine Unit where
  engine :=
    { image := Image.content 2 0 0 9 (visitFile.drop 8)
      thread := { Thread.idle with state := .executing, routine := some 0, sp := 1 }
      devices := () }

def visited (n : Nat) : Engine Unit :=
  (visit.beginTick Engine.silent).engine.stepped Engine.silent n

theorem checks_suffice_visit :
    Image.ofBytes visitFile = .ok visit.engine.image ∧ load visit.engine.image () = .ok visit ∧
      visit.Passes Engine.silent (visited 2) ∧ (visited 2).thread.depth = 1 ∧
      ((visited 2).thread.frame 0).pc ≤ visit.engine.image.length ∧
      (visited 2).Fetches Engine.silent ∧
      ∃ f n size, ((visited 2).step Engine.silent).1 = .error f ∧
        f.cause = .localOutOfRange n size := by
  have rooted : visit.engine.image.Rooted := Image.firstStray?_eq_none_iff.mp (by decide)
  have read : Image.ofBytes visitFile = .ok visit.engine.image :=
    Image.ofBytes_header_eq_ok_iff.mpr ⟨by decide, by decide, rfl, rooted⟩
  have hload : load visit.engine.image () = .ok visit := rfl
  have passes : ∀ n, visit.Passes Engine.silent (visited n) :=
    fun n => ⟨visit, .start, .inr ⟨n, rfl⟩⟩
  obtain ⟨m, hm, h⟩ := checks_suffice Engine.silent () read
  cases hm.symm.trans hload
  obtain ⟨-, -, -, -, hcalls, -⟩ := h _ (passes 1)
  obtain ⟨-, -, hreturns, -, -, -, hlocals⟩ := h _ (passes 2)
  have steps : (visited 1).step Engine.silent = (.ok .running, visited 2) :=
    Prod.ext (by decide +kernel) rfl
  have hfetches := hcalls 1 .running _ (by decide +kernel) (by decide +kernel) steps
  have hout := hlocals (.getLocal 2) 2 1 ⟨1, 1, 7⟩ (by decide +kernel) (.inl rfl)
    (by decide +kernel) ⟨by decide +kernel, by decide +kernel⟩
  exact ⟨read, hload, passes 2, by decide +kernel, hreturns 0 (by decide +kernel), hfetches.2,
    hout.mpr (by decide)⟩

end Machine
end TickMachine
