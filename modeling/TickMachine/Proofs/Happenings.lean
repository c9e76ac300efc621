import TickMachine.Machine
import TickMachine.Proofs.Sound

/-!
# What can happen to a machine

Between the steps of the engine a frame tick may count a pause down, a fault may stop the thread,
and a debugger may send any bytes: it can overwrite globals, bytecode and the records of routines
that are being executed, reset the thread, or start a routine on it.  In whatever order these come,
the thread stays sound, since nothing ever changes the size of the function table.

* `Session.Turns`, `Session.feed_turns`   what one byte can do to a program;
* `Happening`, `Situation.after`   what can happen, and in any order;
* `Situation.after_sound`   all of it keeps threads sound;
* `Machine.Fresh`, `Engine.Reachable`   machines begin sound, and so all they come to is sound.
-/

namespace TickMachine

variable {σ : Type}

/-! ## bytes from the debugger -/

namespace Image

/-- A written byte may be one of the function table, but the table keeps its size. -/
theorem routineCount_poke (img : Image) (s : Segment) (i : Nat) (b : UInt8) :
    (img.poke s i b).routineCount = img.routineCount := by
  cases s with
  | bytecode => rfl
  | globals => rfl
  | routines =>
    show (img.routineBytes.setIfInBounds i b).size / _ = _
    rw [Array.size_setIfInBounds]
    rfl

end Image

namespace Session

theorem routineCount_beginWrite (img : Image) (header : List UInt8) :
    (beginWrite img header).2.1.routineCount = img.routineCount := by
  unfold beginWrite
  split
  · rename_i id offset count _
    cases hs : Segment.ofId id with
    | error why => rfl
    | ok s =>
      cases hr : img.reserve s offset.toNat count.toNat with
      | error why => simp [bind, Except.bind, hr]
      | ok img' =>
        simp only [bind, Except.bind, hr, pure, Except.pure]
        exact Image.routineCount_congr (Image.segment_reserve hr .routines)
  · rfl

theorem routineCount_store (w : Write) (img : Image) (b : UInt8) :
    (store w img b).2.routineCount = img.routineCount := by
  unfold store
  split
  · cases hr : img.reserve w.segment w.cursor 1 with
    | error why => rfl
    | ok img' =>
      show (img'.poke w.segment w.cursor b).routineCount = _
      rw [Image.routineCount_poke]
      exact Image.routineCount_congr (Image.segment_reserve hr .routines)
  · rfl

/-- `Turns q q'`: what one byte can make of a program.  It patches the image and leaves the
thread alone, or resets the thread, or starts a routine on it. -/
inductive Turns (q : Program) : Program → Prop where
  | patches {img : Image} (count : img.routineCount = q.image.routineCount) :
    Turns q { q with image := img }
  | resets : Turns q { q with thread := q.thread.reset }
  | enters {i : Nat} {t : Thread} (entered : q.thread.enter q.image i = .ok t) :
    Turns q { q with thread := t }

theorem Turns.refl (q : Program) : Turns q q := .patches rfl

theorem Turns.sound {q q' : Program} (h : Turns q q') (hs : q.thread.Sound q.image.routineCount) :
    q'.thread.Sound q'.image.routineCount := by
  cases h with
  | patches count => rw [count]; exact hs
  | resets => exact Thread.sound_reset _ _
  | enters entered => exact Thread.sound_of_enter entered

theorem onByte_turns (s : Session) (q : Program) (b : UInt8) : Turns q (s.onByte q b).program := by
  unfold onByte
  split
  · split <;> exact .refl q
  · split
    · exact .refl q
    · dsimp only
      split
      · exact .patches (routineCount_beginWrite _ _)
      · exact .refl q
  · exact .patches (routineCount_store _ _ _)
  · exact .refl q
  · exact .refl q

theorem beginExec_turns {q q' : Program} {i n : Nat} (h : beginExec q i n = .ok q') :
    Turns q q' := by
  unfold beginExec at h
  split at h
  · cases h
  · split at h
    · cases ht : q.thread.enter q.image i with
      | error why => rw [ht] at h; cases h
      | ok t =>
        rw [ht] at h
        cases h
        exact .enters ht
    · cases h

theorem dispatch_turns (s : Session) (q : Program) (body : List UInt8) :
    Turns q (s.dispatch q body).program := by
  unfold dispatch
  split
  · exact .refl q
  · exact .refl q
  · exact .resets
  · dsimp only
    split
    · rename_i h
      exact beginExec_turns h
    · exact .refl q
  · exact .refl q

theorem onDone_turns (s : Session) (q : Program) : Turns q (s.onDone q).program := by
  unfold onDone
  dsimp only
  split
  · exact .refl q
  · exact .refl q
  · exact dispatch_turns _ q _
  · split <;> exact .refl q
  · exact .refl q

theorem feed_turns (s : Session) (q : Program) (b : UInt8) : Turns q (s.feed q b).program := by
  unfold feed
  dsimp only
  split
  · exact .refl q
  · exact onByte_turns _ q _
  · exact onDone_turns _ q
  · exact .refl q

end Session

/-! ## anything in any order -/

/-- An engine, and the session of the debugger that may change its program. -/
structure Situation (σ : Type) where
  engine : Engine σ
  session : Session

inductive Happening (σ : Type) where
  | step
  /-- A frame tick counts a pause down. -/
  | tick
  /-- The thread is stopped, as it is after a fault. -/
  | stop
  | byte (b : UInt8)
  /-- The peripherals change on their own. -/
  | devices (d : σ)

namespace Situation

def next (p : Peripherals σ) (s : Situation σ) : Happening σ → Situation σ
  | .step => { s with engine := (s.engine.step p).2 }
  | .tick => { s with engine := { s.engine with thread := s.engine.thread.tick } }
  | .stop => { s with engine := { s.engine with thread := s.engine.thread.stop } }
  | .byte b =>
    let fed := s.session.feed s.engine.toProgram b
    { engine := { s.engine with toProgram := fed.program }, session := fed.session }
  | .devices d => { s with engine := { s.engine with devices := d } }

def after (p : Peripherals σ) (s : Situation σ) (hs : List (Happening σ)) : Situation σ :=
  hs.foldl (next p) s

theorem next_sound (p : Peripherals σ) {s : Situation σ} (h : s.engine.Sound) (a : Happening σ) :
    (s.next p a).engine.Sound := by
  cases a with
  | step => exact Engine.step_sound h
  | tick => exact Thread.Sound.tick h
  | stop => exact Thread.Sound.stop h
  | byte b => exact (Session.feed_turns s.session s.engine.toProgram b).sound h
  | devices d => exact h

theorem after_sound (p : Peripherals σ) {s : Situation σ} (h : s.engine.Sound)
    (hs : List (Happening σ)) : (s.after p hs).engine.Sound := by
  induction hs generalizing s with
  | nil => exact h
  | cons a hs ih => exact ih (next_sound p h a)

end Situation

/-! ## how machines begin -/

namespace Machine

inductive Fresh : Machine σ → Prop where
  | load {img : Image} {devices : σ} {m : Machine σ} (made : load img devices = .ok m) : Fresh m
  | debug (devices : σ) (link : Link) : Fresh (debug devices link)

theorem load_eq_ok {img : Image} {devices : σ} {m : Machine σ} (h : load img devices = .ok m) :
    ∃ t, Thread.ofImage img = .ok t ∧ m.engine = ⟨⟨img, t⟩, devices⟩ := by
  unfold load at h
  cases ht : Thread.ofImage img with
  | error why => rw [ht] at h; cases h
  | ok t =>
    rw [ht] at h
    cases h
    exact ⟨t, rfl, rfl⟩

theorem Fresh.sound {m : Machine σ} (h : m.Fresh) : m.engine.Sound := by
  cases h with
  | load made =>
    obtain ⟨t, ht, hm⟩ := load_eq_ok made
    rw [hm]
    exact Thread.sound_of_enter ht
  | debug devices link => exact Thread.sound_idle _

end Machine

namespace Engine

/-- Some machine has come to `e`, whatever happened to it. -/
def Reachable (p : Peripherals σ) (e : Engine σ) : Prop :=
  ∃ (m : Machine σ) (session : Session) (hs : List (Happening σ)),
    m.Fresh ∧ ((Situation.mk m.engine session).after p hs).engine = e

theorem Reachable.sound {p : Peripherals σ} {e : Engine σ} (h : e.Reachable p) : e.Sound := by
  obtain ⟨m, session, hs, fresh, rfl⟩ := h
  exact Situation.after_sound p fresh.sound hs

end Engine
end TickMachine
