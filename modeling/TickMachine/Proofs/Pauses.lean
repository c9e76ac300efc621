import TickMachine.Proofs.Lifecycle

/-!
# Pauses

A program that pauses for `n` frame ticks goes on in the `n`-th tick after the one in which it
paused: a tick first counts down and then runs.  What the debugger sends in the meantime makes no
difference to the thread, unless it resets the thread or starts a routine, and then the debugger
is told so.

* `Session.Sways`, `Session.feed_sways`   what a byte does to the thread, and what is answered;
* `Machine.service_thread`   hearing the debugger out does nothing to the thread if no answer says
                       that it did;
* `Engine.step_falls_asleep`, `Engine.step_stays_awake`   a step that suspends is a pause for a
                       positive number of ticks, and a pause for any other number is passed over;
* `Machine.tick_sleeping`, `Machine.tick_waking`   the ticks of a pause, and the one that ends it;
* `Transcript.after_sleeping`   after `k` ticks of a pause there are `k` fewer to go;
* `pause_lasts`   the pause from its beginning to its end.
-/

namespace TickMachine

variable {σ : Type}

/-! ## what the debugger does to a thread -/

/-- The debugger is told that it has reset the thread or started a routine on it. -/
def Reply.Steers (r : Reply) : Prop := r = .ack Command.resetOp ∨ r = .ack Command.beginExecOp

namespace Session

/-- `Sways q r q'`: what a byte that is answered by `r` does to the thread of a program. -/
inductive Sways (q : Program) : Option Reply → Program → Prop where
  | leaves {r : Option Reply} {q' : Program} (thread : q'.thread = q.thread)
    (plain : ∀ a ∈ r, ¬ a.Steers ∧ ∀ vs, a ≠ .completed vs) : Sways q r q'
  | resets {q' : Program} (thread : q'.thread = q.thread.reset) :
    Sways q (some (.ack Command.resetOp)) q'
  | enters {q' : Program} {i : Nat} (entered : q.thread.enter q.image i = .ok q'.thread) :
    Sways q (some (.ack Command.beginExecOp)) q'

theorem Sways.thread {q q' : Program} {r : Option Reply} (h : Sways q r q')
    (quiet : ∀ a ∈ r, ¬ a.Steers) : q'.thread = q.thread := by
  cases h with
  | leaves thread plain => exact thread
  | resets thread => exact absurd (.inl rfl) (quiet _ rfl)
  | enters entered => exact absurd (.inr rfl) (quiet _ rfl)

theorem sways_silent {q q' : Program} (h : q'.thread = q.thread) : Sways q none q' :=
  .leaves h fun a ha => by cases ha

theorem sways_plain {q : Program} {r : Reply} (h : ¬ r.Steers) (hc : ∀ vs, r ≠ .completed vs) :
    Sways q (some r) q :=
  .leaves rfl fun a ha => by cases ha; exact ⟨h, hc⟩

theorem not_steers_refused (op : UInt8) (why : Refusal) : ¬ (Reply.refused op why).Steers := by
  rintro (h | h) <;> cases h

theorem onByte_thread (s : Session) (q : Program) (b : UInt8) :
    (s.onByte q b).program.thread = q.thread := by
  unfold onByte
  split
  · split <;> rfl
  · split
    · rfl
    · dsimp only
      split <;> rfl
  · rfl
  · rfl
  · rfl

theorem enter_of_beginExec {q q' : Program} {i n : Nat} (h : beginExec q i n = .ok q') :
    q.thread.enter q.image i = .ok q'.thread := by
  unfold beginExec at h
  split at h
  · cases h
  · split at h
    · cases ht : q.thread.enter q.image i with
      | error why => rw [ht] at h; cases h
      | ok t =>
        rw [ht] at h
        cases h
        rfl
    · cases h

theorem dispatch_sways (s : Session) (q : Program) (body : List UInt8) :
    Sways q (s.dispatch q body).reply (s.dispatch q body).program := by
  unfold dispatch
  split
  · exact sways_silent rfl
  · exact sways_plain (by rintro (h | h) <;> cases h) nofun
  · exact .resets rfl
  · dsimp only
    split
    · next h => exact .enters (enter_of_beginExec h)
    · exact sways_plain (not_steers_refused _ _) nofun
  · exact sways_silent rfl

theorem onDone_sways (s : Session) (q : Program) :
    Sways q (s.onDone q).reply (s.onDone q).program := by
  unfold onDone
  dsimp only
  split
  · exact sways_silent rfl
  · exact sways_silent rfl
  · exact dispatch_sways _ q _
  · split
    · exact sways_plain (not_steers_refused _ _) nofun
    · exact sways_plain (by rintro (h | h) <;> exact absurd h (by decide)) nofun
  · exact sways_plain (not_steers_refused _ _) nofun

theorem feed_sways (s : Session) (q : Program) (b : UInt8) :
    Sways q (s.feed q b).reply (s.feed q b).program := by
  unfold feed
  dsimp only
  split
  · exact sways_silent rfl
  · rw [onByte_reply]
    exact sways_silent (onByte_thread _ q _)
  · exact onDone_sways _ q
  · exact sways_silent rfl

theorem pollFrom_thread (s : Session) (q : Program) (l : Link) (k n : Nat) (log : Array Event)
    (bytes : List UInt8)
    (quiet : ∀ r ∈ (s.feedAll q n bytes).replies.map Prod.snd, ¬ r.Steers) :
    (s.pollFrom q l k log bytes).program.thread = q.thread := by
  induction bytes generalizing s q l k n log with
  | nil => rfl
  | cons b bs ih =>
    simp only [feedAll, List.map_append, List.mem_append] at quiet
    have hrest := fun l k log => ih (s.feed q b).session (s.feed q b).program l k (n + 1) log
      fun r hr => quiet r (.inr hr)
    have hb : (s.feed q b).program.thread = q.thread :=
      (feed_sways s q b).thread fun r hr => quiet r (.inl (by simpa using hr))
    unfold pollFrom
    dsimp only
    split
    · rw [hrest, hb]
    · split
      · rw [hrest, hb]
      · exact hb

end Session

theorem Machine.service_thread {m : Machine σ} (quiet : ∀ r ∈ m.answers, ¬ r.Steers) :
    m.service.machine.engine.thread = m.engine.thread := by
  unfold answers at quiet
  unfold service
  split
  · rfl
  · next d hd =>
    rw [hd] at quiet
    exact Session.pollFrom_thread d.session m.engine.toProgram d.link 0 0 #[] d.link.incoming quiet

/-! ## falling asleep -/

/-- The thread behind a pause, whose argument has been replaced by the result zero. -/
def Thread.pastPause (t : Thread) : Thread := { t.setSlot (t.sp - 1) 0 with pc := t.pc + 1 }

/-- Only the pause puts a thread to sleep, for as many ticks as its argument says. -/
theorem Builtin.action_sleep {b : Builtin} {t : Thread} {base : Nat} {count : Value}
    (h : b.action (Exec.arguments t b base) = .ok (.sleep count)) :
    b = .pauseFrames ∧ count = t.slot base := by
  cases b <;> simp only [Builtin.action, Except.ok.injEq, Action.sleep.injEq, reduceCtorEq] at h
  case div | mod => split at h <;> cases h
  case pauseFrames =>
    rw [← h]
    exact ⟨rfl, by simp [Exec.arguments]⟩

namespace Engine

variable {p : Peripherals σ} {e e' : Engine σ}

theorem settle_pastPause {t : Thread} (one : t.fp + 1 ≤ t.sp) :
    t.settle (t.sp - 1) 0 (t.pc + 1) = t.pastPause := by
  have hsp : t.sp - 1 + 1 = t.sp := by omega
  unfold Thread.settle Thread.pastPause
  rw [hsp]
  rfl

theorem step_falls_asleep (hs : e.step p = (.ok .suspended, e')) :
    e.decoded = .instruction (.builtin .pauseFrames) ∧ 0 < e.thread.top ∧
      e'.thread = { e.thread.pastPause with
        state := .suspended, paused := e.thread.top.toNatClampNeg } := by
  rcases step_ok_iff.mp hs with ⟨-, ho, -⟩ | ⟨hx, i, hi, hp⟩
  · cases ho
  generalize ho : Outcome.suspended = o at hp
  cases hp with
  | @builtin b a v e₁ args room does effect =>
    rcases a.effect_cases p e with ht | ⟨count, rfl, hc, he⟩
    · -- the thread was not put to sleep, so the outcome is another
      rw [effect] at ht
      rw [if_neg (by rw [ht, hx]; exact nofun)] at ho
      cases ho
    · obtain ⟨rfl, rfl⟩ := Builtin.action_sleep does
      rw [effect] at he
      cases he
      refine ⟨hi, hc, ?_⟩
      rw [← settle_pastPause args]
      rfl
  | push pushes room => cases ho
  | drop one => cases ho
  | setGlobal one found => cases ho
  | setLocal runs inFrame inStack one => cases ho
  | jmp reach => cases ho
  | jz one reach => cases ho
  | call found runs provided frames room => cases ho
  | back runs values inner => cases ho
  | finish runs values outer => cases ho

theorem RunsOn.concat {n : Nat} (h : e.RunsOn p n)
    (hs : ((e.stepped p n).step p).1 = .ok .running) : e.RunsOn p (n + 1) := by
  intro k hk
  rcases Nat.lt_succ_iff_lt_or_eq.mp hk with hk | rfl
  · exact h k hk
  · exact hs

theorem stepped_sound (h : e.Sound) (n : Nat) : (e.stepped p n).Sound := by
  induction n generalizing e with
  | zero => exact h
  | succ n ih => exact ih (step_sound h)

/-- A pause for no ticks, or for fewer, only leaves its result. -/
theorem step_stays_awake (hx : e.thread.state = .executing)
    (hi : e.decoded = .instruction (.builtin .pauseFrames)) (one : e.thread.fp < e.thread.sp)
    (hs : e.thread.sp ≤ stackSize) (hn : e.thread.top ≤ 0) :
    e.step p = (.ok .running, { e with thread := e.thread.pastPause }) := by
  have does : Builtin.pauseFrames.action
      (Exec.arguments e.thread .pauseFrames (e.thread.sp - Builtin.pauseFrames.arity))
      = .ok (.sleep e.thread.top) := by
    simp [Builtin.action, Exec.arguments, Thread.top, Builtin.arity]
  have effect : (Action.sleep e.thread.top).effect p e = (0, e) := by
    have hp : e.thread.pause e.thread.top = e.thread := by
      rw [Thread.pause, if_neg (by simpa using hn)]
    show ((0 : Value), { e with thread := e.thread.pause e.thread.top }) = _
    rw [hp]
  have room : e.thread.sp - Builtin.pauseFrames.arity < stackSize := by
    show e.thread.sp - 1 < stackSize
    omega
  have h : Performs p e (e.thread.pc + 1) (.builtin .pauseFrames) _ _ :=
    .builtin one room does effect
  rw [if_neg (by rw [hx]; decide)] at h
  refine step_ok_iff.mpr (.inr ⟨hx, _, hi, ?_⟩)
  rw [← settle_pastPause one]
  exact h

end Engine

/-! ## the countdown -/

def Turn.isTick : Turn → Bool
  | .tick _ => true
  | _ => false

namespace Machine

variable {p : Peripherals σ} {m : Machine σ}

theorem thread_beginTick (p : Peripherals σ) (m : Machine σ) :
    (m.beginTick p).engine.thread = m.engine.thread.tick := rfl

theorem tick_sleeping (hs : m.engine.thread.state = .suspended) (hp : 1 < m.engine.thread.paused)
    (fuel : Nat) :
    (m.beginTick p).engine.thread =
        { m.engine.thread with paused := m.engine.thread.paused - 1 } ∧
      (m.beginTick p).engine.run p (fuel + 1) #[] =
        some ⟨.ok .idle, (m.beginTick p).engine, #[]⟩ := by
  have ht : (m.beginTick p).engine.thread =
      { m.engine.thread with paused := m.engine.thread.paused - 1 } := by
    rw [thread_beginTick, Thread.tick, if_neg (by omega), if_neg (by omega)]
  refine ⟨ht, Engine.run_idle ?_ fuel #[]⟩
  rw [ht, hs]
  decide

theorem closing_thread {run : Run σ} {o : Outcome} (ho : run.result = .ok o) :
    (m.closing p run).engine.thread = run.engine.thread := by
  let closing := { m with engine := run.engine }.mapDevices p.frameEnd
  unfold Machine.closing
  rw [ho]
  exact congrArg (fun s : Situation σ => s.engine.thread) (closing.situation_conclude o)

theorem tick_waking (hs : m.engine.thread.state = .suspended) (hp : m.engine.thread.paused = 1)
    (fuel : Nat) :
    let awake := { m.engine.thread with state := .executing, paused := 0 }
    m.tick p fuel =
        (Engine.run p fuel ⟨⟨m.engine.image, awake⟩, p.frameStart m.engine.devices⟩ #[]).map
          ((m.beginTick p).endTick p) ∧
      ∀ v, m.tick p fuel = some v → v.result ≠ .ok .idle := by
  intro awake
  have hb : (m.beginTick p).engine.thread = awake := by
    rw [thread_beginTick, Thread.tick, if_neg (by omega), if_pos ⟨hp, hs⟩]
  have he : (m.beginTick p).engine =
      ⟨⟨m.engine.image, awake⟩, p.frameStart m.engine.devices⟩ := by
    rw [← hb]
    rfl
  refine ⟨by rw [← he]; rfl, fun v hv => ?_⟩
  obtain ⟨run, hrun, rfl⟩ := Option.map_eq_some_iff.mp hv
  have hx : (m.beginTick p).engine.thread.state = .executing := by rw [hb]
  show run.result ≠ _
  rcases Engine.run_leaves hx hrun with ⟨hr, -⟩ | ⟨vs, hr, -⟩ | ⟨f, hr, -⟩ <;> simp [hr]

end Machine

namespace Transcript

variable {p : Peripherals σ} {t t' : Transcript σ}

theorem next_replies {turn : Turn} (h : t.next p turn = some t') :
    ∃ sent, t'.replies = t.replies ++ sent := by
  cases turn with
  | tick fuel =>
    obtain ⟨u, run, -, -, -, -, -, hr⟩ := next_tick h
    exact ⟨_, hr.trans (List.append_assoc _ _ _)⟩
  | receive bytes => cases h; exact ⟨[], (List.append_nil _).symm⟩
  | service => cases h; exact ⟨_, rfl⟩
  | collect => cases h; exact ⟨[], (List.append_nil _).symm⟩

theorem after_replies {turns : List Turn} (h : t.after p turns = some t') :
    ∃ sent, t'.replies = t.replies ++ sent := by
  induction turns generalizing t with
  | nil =>
    cases h
    exact ⟨[], (List.append_nil _).symm⟩
  | cons turn more ih =>
    obtain ⟨t₁, hn, hrest⟩ := Option.bind_eq_some_iff.mp h
    obtain ⟨sent, hs⟩ := next_replies hn
    obtain ⟨sent', hs'⟩ := ih hrest
    exact ⟨sent ++ sent', by rw [hs', hs, List.append_assoc]⟩

theorem thread_of_tick {fuel : Nat} {run : Run σ} {o : Outcome}
    (h : t.next p (.tick fuel) = some t')
    (hrun : (t.machine.beginTick p).engine.run p fuel #[] = some run)
    (ho : run.result = .ok o) (quiet : ∀ r ∈ t'.replies, ¬ r.Steers) :
    t'.machine.engine.thread = run.engine.thread := by
  obtain ⟨u, run', -, hrun', rfl, hm, -, hr⟩ := next_tick h
  cases hrun.symm.trans hrun'
  rw [hm, ← Machine.closing_thread ho]
  refine Machine.service_thread fun r ha => quiet r ?_
  rw [hr]
  exact List.mem_append_right _ ha

/-- A turn takes one off the count if it is a frame tick, and else leaves the thread alone. -/
theorem next_sleeping {turn : Turn} {sleeper : Thread} {k : Nat}
    (hs : sleeper.state = .suspended)
    (ht : t.machine.engine.thread = { sleeper with paused := k })
    (hk : [turn].countP Turn.isTick < k) (h : t.next p turn = some t')
    (quiet : ∀ r ∈ t'.replies, ¬ r.Steers) :
    t'.machine.engine.thread = { sleeper with paused := k - [turn].countP Turn.isTick } := by
  cases turn with
  | tick fuel =>
    cases fuel with
    | zero =>
      obtain ⟨u, run, -, hrun, -⟩ := next_tick h
      cases hrun
    | succ fuel =>
      have hk' : 1 < t.machine.engine.thread.paused := by rw [ht]; exact hk
      obtain ⟨hb, hrun⟩ := Machine.tick_sleeping (p := p) (m := t.machine) (by rw [ht]; exact hs)
        hk' fuel
      rw [thread_of_tick h hrun rfl quiet, hb, ht]
      rfl
  | receive bytes =>
    cases h
    exact ht
  | service =>
    cases h
    have hsilent : ∀ r ∈ t.machine.answers, ¬ r.Steers :=
      fun r hr => quiet r (List.mem_append_right _ hr)
    exact (Machine.service_thread hsilent).trans ht
  | collect =>
    cases h
    exact ht

theorem after_sleeping {turns : List Turn} {sleeper : Thread} {k : Nat}
    (hs : sleeper.state = .suspended)
    (ht : t.machine.engine.thread = { sleeper with paused := k })
    (hk : turns.countP Turn.isTick < k) (h : t.after p turns = some t')
    (quiet : ∀ r ∈ t'.replies, ¬ r.Steers) :
    t'.machine.engine.thread = { sleeper with paused := k - turns.countP Turn.isTick } := by
  induction turns generalizing t k with
  | nil =>
    cases h
    exact ht
  | cons turn more ih =>
    obtain ⟨t₁, hn, hrest⟩ := Option.bind_eq_some_iff.mp h
    obtain ⟨sent, hsent⟩ := after_replies hrest
    have hcount : ([turn] ++ more).countP Turn.isTick
        = [turn].countP Turn.isTick + more.countP Turn.isTick := List.countP_append
    rw [List.singleton_append] at hcount
    rw [hcount] at hk ⊢
    have h₁ := next_sleeping hs ht (by omega) hn fun r hr => quiet r (by
      rw [hsent]
      exact List.mem_append_left _ hr)
    rw [ih h₁ (by omega) hrest, Nat.sub_sub]

end Transcript

/-- **A pause of `n` frame ticks takes `n` frame ticks.**  If a tick of a machine is suspended, its
last step was a pause for a positive number `n` of ticks.  From then on, unless the debugger resets
the thread or starts a routine, and whatever else comes in: with each tick the count goes down by
one and nothing else changes in the thread; the ticks are idle until the `n`-th, and that one goes
on right behind the pause, with zero in the place of its argument.  A pause for no ticks, or for
fewer, does not suspend, and the tick goes on behind it. -/
theorem pause_lasts (p : Peripherals σ) (m : Machine σ) :
    (∀ fuel u, m.tick p fuel = some u → u.result = .ok .suspended →
      ∃ k n : Nat, let e := (m.beginTick p).engine.stepped p k
        (m.beginTick p).engine.RunsOn p k ∧
        e.decoded = .instruction (.builtin .pauseFrames) ∧ e.thread.top.toInt = n ∧ 0 < n ∧
        ∀ turns t, Transcript.after p ⟨m, [], []⟩ (.tick fuel :: turns) = some t →
          (∀ r ∈ t.replies, ¬ r.Steers) → turns.countP Turn.isTick < n →
          t.machine.engine.thread = { e.thread.pastPause with
            state := .suspended, paused := n - turns.countP Turn.isTick } ∧
          (turns.countP Turn.isTick + 1 < n → ∀ fuel, ∃ v, t.machine.tick p (fuel + 1) = some v ∧
            v.result = .ok .idle) ∧
          (turns.countP Turn.isTick + 1 = n → ∀ fuel,
            let awake := { e.thread.pastPause with state := .executing, paused := 0 }
            t.machine.tick p fuel =
                (Engine.run p fuel ⟨⟨t.machine.engine.image, awake⟩,
                  p.frameStart t.machine.engine.devices⟩ #[]).map
                  ((t.machine.beginTick p).endTick p) ∧
              ∀ v, t.machine.tick p fuel = some v → v.result ≠ .ok .idle)) ∧
    (∀ e : Engine σ, e.decoded = .instruction (.builtin .pauseFrames) → e.thread.top ≤ 0 →
      (e.step p).1 ≠ .ok .suspended) ∧
    (m.engine.Reachable p → ∀ k, let e := (m.beginTick p).engine.stepped p k
      (m.beginTick p).engine.RunsOn p k → e.thread.state = .executing →
      e.decoded = .instruction (.builtin .pauseFrames) → e.thread.fp < e.thread.sp →
      e.thread.top ≤ 0 →
      e.step p = (.ok .running, { e with thread := e.thread.pastPause }) ∧
      ∀ fuel, ∃ log, m.tick p (k + 1 + fuel) =
        (Engine.run p fuel { e with thread := e.thread.pastPause } log).map
          ((m.beginTick p).endTick p)) := by
  refine ⟨?_, ?_, ?_⟩
  · intro fuel u hu hsus
    obtain ⟨run, hrun, rfl⟩ := Option.map_eq_some_iff.mp hu
    change run.result = _ at hsus
    obtain ⟨k, hon, hlast, -⟩ := Engine.run_ends hrun
    rw [hsus] at hlast
    obtain ⟨hi, hpos, hthread⟩ := Engine.step_falls_asleep hlast
    obtain ⟨hn, hn'⟩ := Value.toInt_of_pos hpos
    refine ⟨k, _, hon, hi, hn, hn', ?_⟩
    intro turns t ht quiet hk
    obtain ⟨t₁, hfirst, hrest⟩ := Option.bind_eq_some_iff.mp ht
    obtain ⟨sent, hsent⟩ := Transcript.after_replies hrest
    have h₁ := Transcript.thread_of_tick hfirst hrun hsus fun r hr => quiet r (by
      rw [hsent]
      exact List.mem_append_left _ hr)
    let sleeper := { ((m.beginTick p).engine.stepped p k).thread.pastPause with
      state := .suspended }
    have hasleep : sleeper.state = .suspended := rfl
    have hsleep := Transcript.after_sleeping hasleep (h₁.trans hthread) hk hrest quiet
    have hstate : t.machine.engine.thread.state = .suspended := by rw [hsleep]
    refine ⟨hsleep, ?_, ?_⟩
    · intro hmore fuel
      have hp : 1 < t.machine.engine.thread.paused := by
        rw [hsleep]
        show 1 < _ - _
        omega
      obtain ⟨-, hidle⟩ := Machine.tick_sleeping (p := p) hstate hp fuel
      exact ⟨_, by rw [Machine.tick, hidle]; rfl, rfl⟩
    · intro hlast fuel
      have hp : t.machine.engine.thread.paused = 1 := by
        rw [hsleep]
        show _ - _ = 1
        omega
      have hwakes := Machine.tick_waking (p := p) hstate hp fuel
      rw [hsleep] at hwakes
      exact hwakes
  · intro e hi hn hsus
    have hs : e.step p = (.ok .suspended, (e.step p).2) := Prod.ext hsus rfl
    obtain ⟨-, hpos, -⟩ := Engine.step_falls_asleep hs
    exact absurd hpos (Int16.not_lt.mpr hn)
  · intro hm k e hon hx hi one hn
    have hb : (m.beginTick p).engine.Sound := Thread.Sound.tick hm.sound
    have hs : e.thread.sp ≤ stackSize := (Engine.stepped_sound hb k).sp_le
    have hstep : e.step p = _ := Engine.step_stays_awake hx hi one hs hn
    refine ⟨hstep, fun fuel => ?_⟩
    obtain ⟨log, hrun⟩ := (hon.concat (congrArg Prod.fst hstep)).run fuel #[]
    refine ⟨log, ?_⟩
    rw [Machine.tick, hrun, Engine.stepped_succ, hstep]

/-- The program of `Transcript.dozing`, but it asks for a pause of minus one tick. -/
def restless : Machine Unit where
  engine :=
    { Transcript.dozing.engine with
      image := .ofParts [⟨0, 0, 0⟩] [] [0x00, 0xFF, 0xFF, 0xB3, 0x0D, 1] 0 }

theorem pause_lasts_dozing :
    (∃ t k, Transcript.after Engine.silent ⟨Transcript.dozing, [], []⟩ [.tick 9, .tick 1] = some t ∧
      ((Transcript.dozing.beginTick Engine.silent).engine.stepped Engine.silent k).decoded
        = .instruction (.builtin .pauseFrames) ∧
      t.machine.engine.thread.pc = 4 ∧ t.machine.engine.thread.paused = 1 ∧
      ∀ v, t.machine.tick Engine.silent 9 = some v → v.result ≠ .ok .idle) ∧
    restless.engine.Reachable Engine.silent ∧
      (((restless.beginTick Engine.silent).engine.stepped Engine.silent 1).step Engine.silent).1
        = .ok .running := by
  constructor
  · have hu : (Transcript.dozing.tick Engine.silent 9).map (·.result)
        = some (.ok .suspended) := by decide +kernel
    obtain ⟨u, hu, hr⟩ := Option.map_eq_some_iff.mp hu
    have h₁ : (Transcript.after Engine.silent ⟨Transcript.dozing, [], []⟩ [.tick 9]).map
        (fun t => (t.replies, t.machine.engine.thread.pc, t.machine.engine.thread.paused))
        = some ([], 4, 2) := by decide +kernel
    obtain ⟨t₁, ht₁, hr₁⟩ := Option.map_eq_some_iff.mp h₁
    simp only [Prod.mk.injEq] at hr₁
    have h₂ : (Transcript.after Engine.silent ⟨Transcript.dozing, [], []⟩ [.tick 9, .tick 1]).map
        (·.replies) = some [] := by decide +kernel
    obtain ⟨t₂, ht₂, hr₂⟩ := Option.map_eq_some_iff.mp h₂
    obtain ⟨k, n, -, hi, -, hpos, hlasts⟩ :=
      (pause_lasts Engine.silent Transcript.dozing).1 9 u hu hr
    obtain ⟨h₁, -⟩ := hlasts [] t₁ ht₁ (by simp [hr₁.1]) hpos
    obtain rfl : n = 2 := (congrArg Thread.paused h₁).symm.trans hr₁.2.2
    obtain ⟨h₂, -, hlast⟩ := hlasts [.tick 1] t₂ ht₂ (by simp [hr₂]) (by decide)
    have hpc : t₂.machine.engine.thread.pc = 4 := by
      rw [h₂, ← hr₁.2.1, h₁]
    obtain ⟨-, hne⟩ := hlast rfl 9
    refine ⟨t₂, k, ht₂, hi, hpc, congrArg Thread.paused h₂, hne⟩
  · have fresh : restless.Fresh := .load (rfl : Machine.load restless.engine.image () = _)
    have reach : restless.engine.Reachable Engine.silent := ⟨restless, {}, [], fresh, rfl⟩
    refine ⟨reach, ?_⟩
    have hfirst : ((restless.beginTick Engine.silent).engine.step Engine.silent).1 = .ok .running :=
      rfl
    obtain ⟨hs, -⟩ := (pause_lasts Engine.silent restless).2.2 reach 1 (fun k hk => by
      obtain rfl := Nat.lt_one_iff.mp hk
      exact hfirst) rfl rfl (by decide +kernel) (by decide +kernel)
    exact congrArg Prod.fst hs

end TickMachine
