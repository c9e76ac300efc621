import TickMachine.Proofs.Happenings
import TickMachine.Proofs.Transcripts

/-!
# The life of a thread

A thread executes, sleeps, or has terminated.  What it does next is decided by two registers, its
state and the number of frame ticks it has left to sleep, and many things write to them: the
instructions, frame ticks, faults and the debugger.  They never write to one and forget the other,
so that a thread sleeps exactly while there are ticks left, and no tick brings a thread back that
has terminated.

* `Thread.Leaves`, `Performs.leaves`   how an instruction leaves the two registers;
* `Engine.run_ends`   a run ends with the first step that does not go on;
* `Engine.run_leaves`   the result of a run tells the state of the thread it left;
* `Thread.InTime`, `Situation.after_inTime`   a thread sleeps exactly while ticks are left;
* `Situation.Leads`, `Transcript.after_leads`   all that a machine does is made of happenings;
* `Machine.Resting`, `Transcript.after_of_resting`   a machine at rest stays at rest;
* `thread_lifecycle`   all of it, for machines.
-/

namespace TickMachine

variable {σ : Type}

/-! ## how an instruction leaves a thread -/

theorem Value.toInt_of_pos {v : Value} (h : 0 < v) :
    v.toInt = v.toNatClampNeg ∧ 0 < v.toNatClampNeg := by
  have h' : (0 : Value).toInt < v.toInt := Int16.lt_iff_toInt_lt.mp h
  change (0 : Int) < v.toInt at h'
  show v.toInt = v.toInt.toNat ∧ 0 < v.toInt.toNat
  omega

/-- The action of a built-in leaves the thread alone, or puts it to sleep. -/
theorem Action.effect_cases (p : Peripherals σ) (e : Engine σ) (a : Action) :
    (a.effect p e).2.thread = e.thread ∨ ∃ count, a = .sleep count ∧ 0 < count ∧
      a.effect p e = (0, { e with thread := { e.thread with
        state := .suspended, paused := count.toNatClampNeg } }) := by
  cases a with
  | yield v => exact .inl rfl
  | ask r => exact .inl rfl
  | sleep count =>
    by_cases h : 0 < count
    · refine .inr ⟨count, rfl, h, ?_⟩
      show ((0 : Value), { e with thread := e.thread.pause count }) = _
      rw [Thread.pause, if_pos h]
    · left
      show e.thread.pause count = e.thread
      rw [Thread.pause, if_neg h]

/-- `t.Leaves o t'`: how the state and the pause of the executing thread `t` change when an
instruction succeeds with outcome `o`. -/
inductive Thread.Leaves (t : Thread) : Outcome → Thread → Prop where
  | running {t' : Thread} (state : t'.state = .executing) (paused : t'.paused = t.paused) :
    Leaves t .running t'
  | suspended {t' : Thread} (state : t'.state = .suspended) (paused : 0 < t'.paused) :
    Leaves t .suspended t'
  | terminated {t' : Thread} {vs : List Value} (state : t'.state = .terminated)
    (paused : t'.paused = t.paused) : Leaves t (.terminated vs) t'

theorem Performs.leaves {p : Peripherals σ} {e e' : Engine σ} {next : Nat} {i : Instruction}
    {o : Outcome} (h : Performs p e next i o e') (hx : e.thread.state = .executing) :
    e.thread.Leaves o e'.thread := by
  cases h with
  | push pushes room => exact .running hx rfl
  | drop one => exact .running hx rfl
  | setGlobal one found => exact .running hx rfl
  | setLocal runs inFrame inStack one => exact .running hx rfl
  | jmp reach => exact .running hx rfl
  | jz one reach => exact .running hx rfl
  | call found runs provided frames room => exact .running hx rfl
  | back runs values inner =>
    rw [Thread.collapse_eq]
    exact .running hx rfl
  | finish runs values outer =>
    refine .terminated rfl ?_
    rw [Thread.collapse_eq]
  | @builtin b a v e₁ args room does effect =>
    rcases a.effect_cases p e with ht | ⟨count, -, hc, he⟩
    · rw [effect] at ht
      have hs : e₁.thread.state = .executing := by rw [ht, hx]
      rw [if_neg (by rw [hs]; exact nofun)]
      refine .running hs ?_
      show e₁.thread.paused = _
      rw [ht]
    · rw [effect] at he
      cases he
      rw [if_pos rfl]
      exact .suspended rfl (Value.toInt_of_pos hc).2

/-! ## runs -/

namespace Engine

variable {p : Peripherals σ} {e : Engine σ}

theorem step_leaves {o : Outcome} {e' : Engine σ} (hx : e.thread.state = .executing)
    (hs : e.step p = (.ok o, e')) : e.thread.Leaves o e'.thread := by
  rcases step_ok_iff.mp hs with ⟨hn, -⟩ | ⟨-, i, -, hp⟩
  · exact absurd hx hn
  · exact hp.leaves hx

theorem stepped_succ (p : Peripherals σ) (n : Nat) (e : Engine σ) :
    e.stepped p (n + 1) = ((e.stepped p n).step p).2 := by
  induction n generalizing e with
  | zero => rfl
  | succ n ih =>
    show (e.step p).2.stepped p (n + 1) = (((e.step p).2.stepped p n).step p).2
    exact ih _

/-- The first `n` steps from `e` all leave the thread running. -/
def RunsOn (p : Peripherals σ) (e : Engine σ) (n : Nat) : Prop :=
  ∀ k < n, ((e.stepped p k).step p).1 = .ok .running

theorem runsOn_succ {n : Nat} :
    e.RunsOn p (n + 1) ↔ (e.step p).1 = .ok .running ∧ (e.step p).2.RunsOn p n := by
  constructor
  · intro h
    exact ⟨h 0 (Nat.succ_pos n), fun k hk => h (k + 1) (Nat.succ_lt_succ hk)⟩
  · rintro ⟨h0, h⟩ k hk
    cases k with
    | zero => exact h0
    | succ k => exact h k (Nat.lt_of_succ_lt_succ hk)

theorem RunsOn.executing {n : Nat} (h : e.RunsOn p n) (hx : e.thread.state = .executing) :
    (e.stepped p n).thread.state = .executing := by
  induction n generalizing e with
  | zero => exact hx
  | succ n ih =>
    obtain ⟨h0, hn⟩ := runsOn_succ.mp h
    cases step_leaves hx (Prod.ext h0 rfl) with
    | running state paused => exact ih hn state

theorem run_idle (hx : e.thread.state ≠ .executing) (fuel : Nat) (log : Array Event) :
    e.run p (fuel + 1) log = some ⟨.ok .idle, e, log⟩ := by
  rw [run, step_idle hx, notice, if_neg hx]
  simp [Notice.journal]

theorem RunsOn.run {n : Nat} (h : e.RunsOn p n) (fuel : Nat) (log : Array Event) :
    ∃ log', e.run p (n + fuel) log = (e.stepped p n).run p fuel log' := by
  induction n generalizing e log with
  | zero =>
    rw [Nat.zero_add]
    exact ⟨log, rfl⟩
  | succ n ih =>
    obtain ⟨h0, hn⟩ := runsOn_succ.mp h
    have hs : e.step p = (.ok .running, (e.step p).2) := Prod.ext h0 rfl
    obtain ⟨log', hrun⟩ := ih hn (log ++ e.notice.journal (e.step p))
    refine ⟨log', ?_⟩
    rw [Nat.succ_add]
    rw [Engine.run, hs]
    rw [hs] at hrun
    exact hrun

theorem run_ends {fuel : Nat} {log : Array Event} {r : Run σ} (h : e.run p fuel log = some r) :
    ∃ n, e.RunsOn p n ∧ (e.stepped p n).step p = (r.result, r.engine) ∧
      r.result ≠ .ok .running := by
  induction fuel generalizing e log with
  | zero => cases h
  | succ fuel ih =>
    rcases hs : e.step p with ⟨result, e₁⟩
    rw [run, hs] at h
    split at h
    · next heq =>
      cases heq
      obtain ⟨n, hn, hlast, hne⟩ := ih h
      refine ⟨n + 1, runsOn_succ.mpr ?_, ?_, hne⟩
      · rw [hs]
        exact ⟨rfl, hn⟩
      · show ((e.step p).2.stepped p n).step p = _
        rw [hs]
        exact hlast
    · next hne heq =>
      cases heq
      cases h
      refine ⟨0, fun k hk => absurd hk (Nat.not_lt_zero k), hs, ?_⟩
      rintro rfl
      exact hne rfl

/-- The result of a run from an executing thread tells the state in which it leaves the thread. -/
theorem run_leaves {fuel : Nat} {log : Array Event} {r : Run σ}
    (hx : e.thread.state = .executing) (h : e.run p fuel log = some r) :
    (r.result = .ok .suspended ∧ r.engine.thread.state = .suspended) ∨
    (∃ vs, r.result = .ok (.terminated vs) ∧ r.engine.thread.state = .terminated) ∨
    (∃ f, r.result = .error f ∧ r.engine.thread.state = .executing) := by
  obtain ⟨n, hn, hlast, hne⟩ := run_ends h
  have hx' := hn.executing hx
  rcases hr : r.result with f | o
  · have he := step_error_engine (p := p) (e := e.stepped p n) (f := f) (by rw [hlast, hr])
    rw [hlast] at he
    dsimp only at he
    rw [he]
    exact .inr (.inr ⟨f, rfl, hx'⟩)
  · rw [hr] at hlast hne
    cases step_leaves hx' hlast with
    | running state paused => exact absurd rfl hne
    | suspended state paused => exact .inl ⟨rfl, state⟩
    | @terminated _ vs state paused => exact .inr (.inl ⟨vs, rfl, state⟩)

end Engine

/-! ## sleeping while ticks are left -/

/-- The thread sleeps exactly while it has frame ticks left to sleep. -/
def Thread.InTime (t : Thread) : Prop := t.state = .suspended ↔ 0 < t.paused

namespace Thread

variable {t t' : Thread}

theorem InTime.of_awake (hs : t.state ≠ .suspended) (hp : t.paused = 0) : t.InTime :=
  ⟨fun h => absurd h hs, fun h => by omega⟩

theorem InTime.paused_eq_zero (h : t.InTime) (hs : t.state ≠ .suspended) : t.paused = 0 := by
  by_contra hp
  exact hs (h.mpr (Nat.pos_of_ne_zero hp))

theorem inTime_reset (t : Thread) : t.reset.InTime := .of_awake nofun rfl

theorem inTime_stop (t : Thread) : t.stop.InTime := .of_awake nofun rfl

theorem inTime_of_enter {img : Image} {i : Nat} (h : t.enter img i = .ok t') : t'.InTime := by
  unfold enter at h
  split at h
  · cases h
  · cases h
    exact .of_awake nofun rfl

theorem InTime.tick (h : t.InTime) : t.tick.InTime := by
  unfold Thread.tick
  split
  · exact h
  · next hp =>
    have hs : t.state = .suspended := h.mpr (Nat.pos_of_ne_zero hp)
    split
    · exact .of_awake nofun rfl
    · next hone =>
      refine ⟨fun _ => ?_, fun _ => hs⟩
      show 0 < t.paused - 1
      have : t.paused ≠ 1 := fun h1 => hone ⟨h1, hs⟩
      omega

theorem Leaves.inTime {o : Outcome} (hl : t.Leaves o t') (hx : t.state = .executing)
    (h : t.InTime) : t'.InTime := by
  have hp : t.paused = 0 := h.paused_eq_zero (by rw [hx]; exact nofun)
  cases hl with
  | running state paused => exact .of_awake (by rw [state]; exact nofun) (paused.trans hp)
  | suspended state paused => exact ⟨fun _ => paused, fun _ => state⟩
  | terminated state paused => exact .of_awake (by rw [state]; exact nofun) (paused.trans hp)

end Thread

theorem Engine.step_inTime {p : Peripherals σ} {e : Engine σ} (h : e.thread.InTime) :
    (e.step p).2.thread.InTime := by
  by_cases hx : e.thread.state = .executing
  · rcases hr : (e.step p).1 with f | o
    · rw [step_error_engine hr]
      exact h
    · exact (step_leaves hx (Prod.ext hr rfl)).inTime hx h
  · rw [step_idle hx]
    exact h

theorem Session.Turns.inTime {q q' : Program} (h : Turns q q') (ht : q.thread.InTime) :
    q'.thread.InTime := by
  cases h with
  | patches count => exact ht
  | resets => exact Thread.inTime_reset _
  | enters entered => exact Thread.inTime_of_enter entered

namespace Situation

theorem next_inTime (p : Peripherals σ) {s : Situation σ} (h : s.engine.thread.InTime)
    (a : Happening σ) : (s.next p a).engine.thread.InTime := by
  cases a with
  | step => exact Engine.step_inTime h
  | tick => exact h.tick
  | stop => exact Thread.inTime_stop _
  | byte b => exact (Session.feed_turns s.session s.engine.toProgram b).inTime h
  | devices d => exact h

theorem after_inTime (p : Peripherals σ) {s : Situation σ} (h : s.engine.thread.InTime)
    (hs : List (Happening σ)) : (s.after p hs).engine.thread.InTime := by
  induction hs generalizing s with
  | nil => exact h
  | cons a hs ih => exact ih (next_inTime p h a)

end Situation

theorem Machine.Fresh.inTime {m : Machine σ} (h : m.Fresh) : m.engine.thread.InTime := by
  cases h with
  | load made =>
    obtain ⟨t, ht, hm⟩ := load_eq_ok made
    rw [hm]
    exact Thread.inTime_of_enter ht
  | debug devices link => exact .of_awake nofun rfl

theorem Engine.Reachable.inTime {p : Peripherals σ} {e : Engine σ} (h : e.Reachable p) :
    e.thread.InTime := by
  obtain ⟨m, session, hs, fresh, rfl⟩ := h
  exact Situation.after_inTime p fresh.inTime hs

/-! ## all that a machine does is made of happenings -/

/-- Some happenings lead from one situation to the other. -/
def Situation.Leads (p : Peripherals σ) (s s' : Situation σ) : Prop := ∃ hs, s.after p hs = s'

namespace Situation

variable {p : Peripherals σ} {s s' s'' : Situation σ}

theorem Leads.refl (s : Situation σ) : Leads p s s := ⟨[], rfl⟩

theorem Leads.one (s : Situation σ) (a : Happening σ) : Leads p s (s.next p a) := ⟨[a], rfl⟩

theorem Leads.trans (h : Leads p s s') (h' : Leads p s' s'') : Leads p s s'' := by
  obtain ⟨hs, rfl⟩ := h
  obtain ⟨hs', rfl⟩ := h'
  exact ⟨hs ++ hs', List.foldl_append⟩

theorem leads_stepped (e : Engine σ) (session : Session) (n : Nat) :
    Leads p ⟨e, session⟩ ⟨e.stepped p n, session⟩ := by
  induction n generalizing e with
  | zero => exact .refl _
  | succ n ih => exact (Leads.one ⟨e, session⟩ .step).trans (ih _)

theorem leads_run {e : Engine σ} {fuel : Nat} {log : Array Event} {r : Run σ}
    (h : e.run p fuel log = some r) (session : Session) :
    Leads p ⟨e, session⟩ ⟨r.engine, session⟩ := by
  obtain ⟨n, -, hlast, -⟩ := Engine.run_ends h
  have hr : e.stepped p (n + 1) = r.engine := by rw [Engine.stepped_succ, hlast]
  rw [← hr]
  exact leads_stepped e session (n + 1)

/-- What a session reads off a link are bytes, though perhaps not all that are there. -/
theorem leads_pollFrom (s : Session) (q : Program) (devices : σ) (l : Link) (k : Nat)
    (log : Array Event) (bytes : List UInt8) :
    let polled := s.pollFrom q l k log bytes
    Leads p ⟨⟨q, devices⟩, s⟩ ⟨⟨polled.program, devices⟩, polled.session⟩ := by
  induction bytes generalizing s q l k log with
  | nil => exact .refl _
  | cons b bs ih =>
    have hb : Leads p ⟨⟨q, devices⟩, s⟩
        ⟨⟨(s.feed q b).program, devices⟩, (s.feed q b).session⟩ := .one _ (.byte b)
    unfold Session.pollFrom
    dsimp only
    split
    · exact hb.trans (ih _ _ _ _ _)
    · split
      · exact hb.trans (ih _ _ _ _ _)
      · exact hb

end Situation

namespace Machine

variable {p : Peripherals σ} {m : Machine σ}

/-- The engine of a machine with the session of its debugger, or a new one if there is none. -/
def situation (m : Machine σ) : Situation σ where
  engine := m.engine
  session := (m.debugger.map Debugger.session).getD {}

theorem situation_mapLink (m : Machine σ) (f : Link → Link) :
    (m.mapLink f).situation = m.situation := by
  unfold situation mapLink
  cases m.debugger <;> rfl

theorem leads_service (m : Machine σ) : m.situation.Leads p m.service.machine.situation := by
  unfold service
  split
  · exact .refl _
  · next d hd =>
    have hs : m.situation = ⟨m.engine, d.session⟩ := by
      unfold situation
      rw [hd]
      rfl
    rw [hs]
    exact Situation.leads_pollFrom d.session m.engine.toProgram m.engine.devices d.link 0 #[]
      d.link.incoming

theorem situation_finish (m : Machine σ) (vs : List Value) :
    (m.finish vs).1.situation = m.situation := by
  unfold finish
  dsimp only
  split
  · rfl
  · next d hd =>
    split <;> simp [situation, hd]

theorem situation_conclude (m : Machine σ) (o : Outcome) :
    (m.conclude (.ok o)).1.situation = m.situation := by
  cases o with
  | terminated vs => exact m.situation_finish vs
  | _ => rfl

theorem leads_conclude (m : Machine σ) (result : Except Fault Outcome) :
    m.situation.Leads p (m.conclude result).1.situation := by
  cases result with
  | error f => exact .one _ .stop
  | ok o =>
    rw [situation_conclude]
    exact .refl _

theorem leads_tick {fuel : Nat} {u : Ticked σ} (h : m.tick p fuel = some u) :
    m.situation.Leads p u.machine.situation := by
  obtain ⟨run, hrun, rfl⟩ := Option.map_eq_some_iff.mp h
  let session := m.situation.session
  let closing := { m.beginTick p with engine := run.engine }.mapDevices p.frameEnd
  have hbegin : m.situation.Leads p (m.beginTick p).situation :=
    (Situation.Leads.one m.situation (.devices (p.frameStart m.engine.devices))).trans
      (.one _ .tick)
  have hrun' := Situation.leads_run hrun session
  have hframe : Situation.Leads p ⟨run.engine, session⟩ closing.situation :=
    .one ⟨run.engine, session⟩ (.devices (p.frameEnd run.engine.devices))
  have hclose := closing.leads_conclude (p := p) run.result
  exact (((hbegin.trans hrun').trans hframe).trans hclose).trans (leads_service _)

end Machine

namespace Transcript

variable {p : Peripherals σ} {t t' : Transcript σ}

theorem next_tick {fuel : Nat} (h : t.next p (.tick fuel) = some t') :
    ∃ u run, t.machine.tick p fuel = some u ∧
      (t.machine.beginTick p).engine.run p fuel #[] = some run ∧
      u = (t.machine.beginTick p).endTick p run ∧ t'.machine = u.machine ∧ t'.taken = t.taken ∧
      t'.replies = t.replies ++ completion run.result ++
        ((t.machine.beginTick p).closing p run).answers := by
  simp only [next, Machine.tick, Option.bind_eq_bind, Option.bind_eq_some_iff,
    Option.map_eq_some_iff, Option.pure_def, Option.some.injEq] at h
  obtain ⟨_, ⟨run, hrun, rfl⟩, run', hrun', rfl⟩ := h
  cases hrun.symm.trans hrun'
  exact ⟨_, run, by rw [Machine.tick, hrun]; rfl, hrun, rfl, rfl, rfl, rfl⟩

theorem next_leads {turn : Turn} (h : t.next p turn = some t') :
    t.machine.situation.Leads p t'.machine.situation := by
  cases turn with
  | tick fuel =>
    obtain ⟨u, run, hu, -, -, hm, -⟩ := next_tick h
    rw [hm]
    exact Machine.leads_tick hu
  | receive bytes =>
    cases h
    dsimp only
    rw [Machine.situation_mapLink]
    exact .refl _
  | service =>
    cases h
    exact Machine.leads_service _
  | collect =>
    cases h
    dsimp only
    rw [Machine.situation_mapLink]
    exact .refl _

theorem after_leads {turns : List Turn} (h : t.after p turns = some t') :
    t.machine.situation.Leads p t'.machine.situation := by
  induction turns generalizing t with
  | nil =>
    cases h
    exact .refl _
  | cons turn more ih =>
    obtain ⟨t₁, hn, hrest⟩ := Option.bind_eq_some_iff.mp h
    exact (next_leads hn).trans (ih hrest)

/-- Whatever machines come to is reachable by happenings. -/
theorem after_reachable {m : Machine σ} (fresh : m.Fresh) {turns : List Turn}
    (h : Transcript.after p ⟨m, [], []⟩ turns = some t) : t.machine.engine.Reachable p := by
  obtain ⟨hs, heq⟩ := after_leads h
  exact ⟨m, m.situation.session, hs, fresh, congrArg Situation.engine heq⟩

end Transcript

/-! ## machines at rest -/

theorem Thread.tick_terminated (t : Thread) :
    t.tick.state = .terminated ↔ t.state = .terminated := by
  unfold Thread.tick
  split
  · rfl
  · split
    · next h => simp [h.2]
    · rfl

namespace Machine

variable {p : Peripherals σ} {m : Machine σ}

theorem isFinished_iff :
    m.isFinished ↔ m.debugger = none ∧ m.engine.thread.state = .terminated := by
  simp [isFinished, isDebugging, Thread.isTerminated]

theorem conclude_alone (h : m.debugger = none) (result : Except Fault Outcome) :
    (m.conclude result).1.debugger = none := by
  unfold conclude finish
  split
  · simp [h]
  · exact h
  · exact h

theorem closing_alone (h : m.debugger = none) (run : Run σ) :
    (m.closing p run).debugger = none := by
  have hd : ({ m with engine := run.engine }.mapDevices p.frameEnd).debugger = none := h
  exact conclude_alone hd run.result

/-- Without a debugger a frame tick is over when its run is. -/
theorem endTick_alone (h : m.debugger = none) (run : Run σ) :
    (m.endTick p run).machine = m.closing p run := by
  show (m.closing p run).service.machine = _
  unfold service
  rw [closing_alone h]

/-- The thread is idle and will not wake up, and there is no debugger to start it again. -/
structure Resting (m : Machine σ) : Prop where
  alone : m.debugger = none
  terminated : m.engine.thread.state = .terminated
  paused : m.engine.thread.paused = 0

/-- `m.Kept m'`: the image, the thread and the results of the machine are still the same. -/
structure Kept (m m' : Machine σ) : Prop where
  image : m'.engine.image = m.engine.image
  thread : m'.engine.thread = m.engine.thread
  results : m'.results = m.results

theorem Kept.refl (m : Machine σ) : m.Kept m := ⟨rfl, rfl, rfl⟩

theorem Kept.trans {m' m'' : Machine σ} (h : m.Kept m') (h' : m'.Kept m'') : m.Kept m'' :=
  ⟨h'.image.trans h.image, h'.thread.trans h.thread, h'.results.trans h.results⟩

theorem Resting.of_kept {m' : Machine σ} (h : m.Resting) (hk : m.Kept m')
    (alone : m'.debugger = none) : m'.Resting :=
  ⟨alone, by rw [hk.thread, h.terminated], by rw [hk.thread, h.paused]⟩

theorem Resting.mapLink (h : m.Resting) (f : Link → Link) :
    (m.mapLink f).Resting ∧ m.Kept (m.mapLink f) := by
  have alone : (m.mapLink f).debugger = none := by simp [Machine.mapLink, h.alone]
  exact ⟨⟨alone, h.terminated, h.paused⟩, rfl, rfl, rfl⟩

/-- A frame tick of a machine at rest finds nothing to do. -/
theorem Resting.tick (h : m.Resting) (fuel : Nat) :
    ∃ u, m.tick p (fuel + 1) = some u ∧ u.result = .ok .idle ∧ u.machine.debugger = none ∧
      m.Kept u.machine := by
  have ht : m.engine.thread.tick = m.engine.thread := by rw [Thread.tick, if_pos h.paused]
  have hb : (m.beginTick p).engine.thread = m.engine.thread := ht
  have hx : (m.beginTick p).engine.thread.state ≠ .executing := by
    rw [hb, h.terminated]
    exact nofun
  have alone : (m.beginTick p).debugger = none := h.alone
  refine ⟨_, by rw [Machine.tick, Engine.run_idle hx]; rfl, rfl, ?_⟩
  rw [endTick_alone alone]
  exact ⟨alone, rfl, hb, rfl⟩

/-- A machine without a debugger that is not finished becomes so in a frame tick whose program
comes to its end or fails, and in no other. -/
theorem tick_finishes {fuel : Nat} {u : Ticked σ} (alone : m.debugger = none)
    (alive : m.engine.thread.state ≠ .terminated) (h : m.tick p fuel = some u) :
    u.machine.isFinished ↔
      (∃ vs, u.result = .ok (.terminated vs)) ∨ ∃ f, u.result = .error f := by
  obtain ⟨run, hrun, rfl⟩ := Option.map_eq_some_iff.mp h
  have hd : (m.beginTick p).debugger = none := alone
  have alive' : (m.beginTick p).engine.thread.state ≠ .terminated :=
    fun ht => alive ((Thread.tick_terminated _).mp ht)
  rw [isFinished_iff, endTick_alone hd, and_iff_right (closing_alone hd run), closing]
  show _ ↔ (∃ vs, run.result = _) ∨ ∃ f, run.result = _
  by_cases hx : (m.beginTick p).engine.thread.state = .executing
  · rcases Engine.run_leaves hx hrun with ⟨hr, hs⟩ | ⟨vs, hr, hs⟩ | ⟨f, hr, -⟩
    · rw [hr]
      simp [conclude, mapDevices, hs]
    · rw [hr]
      simp [conclude, finish, mapDevices, hs, hd]
    · rw [hr]
      simp [conclude, mapThread, Thread.stop]
  · cases fuel with
    | zero => cases hrun
    | succ fuel =>
      rw [Engine.run_idle hx, Option.some.injEq] at hrun
      rw [← hrun]
      simpa [conclude, mapDevices] using alive'

end Machine

namespace Transcript

variable {p : Peripherals σ} {t t' : Transcript σ}

theorem next_of_resting {turn : Turn} (h : t.machine.Resting) (hn : t.next p turn = some t') :
    t'.machine.Resting ∧ t.machine.Kept t'.machine := by
  cases turn with
  | tick fuel =>
    obtain ⟨u, run, hu, -, -, hm, -⟩ := next_tick hn
    rw [hm]
    cases fuel with
    | zero => cases hu
    | succ fuel =>
      obtain ⟨u', hu', -, alone, hk⟩ := h.tick (p := p) fuel
      rw [hu, Option.some.injEq] at hu'
      rw [hu']
      exact ⟨h.of_kept hk alone, hk⟩
  | receive bytes =>
    cases hn
    exact h.mapLink (·.push bytes)
  | service =>
    cases hn
    have hs : t.machine.service.machine = t.machine := by
      unfold Machine.service
      rw [h.alone]
    dsimp only
    rw [hs]
    exact ⟨h, .refl _⟩
  | collect =>
    cases hn
    exact h.mapLink fun l => l.take.2

theorem after_of_resting {turns : List Turn} (h : t.machine.Resting)
    (ha : t.after p turns = some t') : t'.machine.Resting ∧ t.machine.Kept t'.machine := by
  induction turns generalizing t with
  | nil =>
    cases ha
    exact ⟨h, .refl _⟩
  | cons turn more ih =>
    obtain ⟨t₁, hn, hrest⟩ := Option.bind_eq_some_iff.mp ha
    obtain ⟨h₁, hk⟩ := next_of_resting h hn
    obtain ⟨h', hk'⟩ := ih h₁ hrest
    exact ⟨h', hk.trans hk'⟩

/-- **The life of a thread.**  Whatever a machine comes to, also in the middle of its frame ticks,
its thread sleeps exactly while ticks are left to sleep.  A run from an executing thread that ends
tells by its result in which state it left the thread.  A machine without a debugger is finished
by a frame tick whose program comes to its end or fails; from then on all frame ticks are idle,
and image, thread and results stay as they are. -/
theorem thread_lifecycle (p : Peripherals σ) {m : Machine σ} (fresh : m.Fresh) (turns : List Turn)
    {t : Transcript σ} (h : Transcript.after p ⟨m, [], []⟩ turns = some t) :
    (t.machine.engine.thread.state = .suspended ↔ 0 < t.machine.engine.thread.paused) ∧
    (∀ e : Engine σ, e.Reachable p → (e.thread.state = .suspended ↔ 0 < e.thread.paused)) ∧
    (∀ (e : Engine σ) fuel log r, e.thread.state = .executing → e.run p fuel log = some r →
      (r.result = .ok .suspended ↔ r.engine.thread.state = .suspended) ∧
      ((∃ vs, r.result = .ok (.terminated vs)) ↔ r.engine.thread.state = .terminated) ∧
      ((∃ f, r.result = .error f) ↔ r.engine.thread.state = .executing) ∧
      r.result ≠ .ok .idle ∧ r.result ≠ .ok .running) ∧
    (t.machine.debugger = none → ¬ t.machine.isFinished →
      ∀ fuel u, t.machine.tick p fuel = some u → (u.machine.isFinished ↔
        (∃ vs, u.result = .ok (.terminated vs)) ∨ ∃ f, u.result = .error f)) ∧
    (t.machine.isFinished → ∀ more t', t.after p more = some t' →
      t'.machine.engine.image = t.machine.engine.image ∧
      t'.machine.engine.thread = t.machine.engine.thread ∧
      t'.machine.results = t.machine.results ∧
      ∀ fuel, ∃ u, t'.machine.tick p (fuel + 1) = some u ∧ u.result = .ok .idle) := by
  have hclock : t.machine.engine.thread.InTime := (after_reachable fresh h).inTime
  refine ⟨hclock, fun e he => he.inTime, ?_, ?_, ?_⟩
  · intro e fuel log r hx hr
    rcases Engine.run_leaves hx hr with ⟨hres, hs⟩ | ⟨vs, hres, hs⟩ | ⟨f, hres, hs⟩ <;>
      simp [hres, hs]
  · intro alone hn fuel u hu
    exact Machine.tick_finishes alone
      (fun ht => hn (Machine.isFinished_iff.mpr ⟨alone, ht⟩)) hu
  · intro hf more t' ha
    obtain ⟨alone, ht⟩ := Machine.isFinished_iff.mp hf
    have rest : t.machine.Resting :=
      ⟨alone, ht, hclock.paused_eq_zero (by rw [ht]; exact nofun)⟩
    obtain ⟨rest', hk⟩ := after_of_resting rest ha
    refine ⟨hk.image, hk.thread, hk.results, fun fuel => ?_⟩
    obtain ⟨u, hu, hr, -⟩ := rest'.tick (p := p) fuel
    exact ⟨u, hu, hr⟩

/-- A machine whose program sleeps for two ticks and returns what the pause gave. -/
def dozing : Machine Unit where
  engine :=
    { image := .ofParts [⟨0, 0, 0⟩] [] [0x00, 2, 0, 0xB3, 0x0D, 1] 0
      thread := { Thread.idle with state := .executing, routine := some 0 }
      devices := () }

theorem thread_lifecycle_dozing :
    dozing.Fresh ∧ ∃ t, Transcript.after Engine.silent ⟨dozing, [], []⟩
        [.tick 9, .tick 9, .tick 9] = some t ∧
      t.machine.isFinished ∧ t.machine.results = some [0] ∧
      ∃ u, t.machine.tick Engine.silent 1 = some u ∧ u.result = .ok .idle := by
  have fresh : dozing.Fresh := .load (rfl : Machine.load dozing.engine.image () = _)
  have h : (Transcript.after Engine.silent ⟨dozing, [], []⟩ [.tick 9, .tick 9, .tick 9]).map
      (fun t => (t.machine.isFinished, t.machine.results)) = some (true, some [0]) := by
    decide +kernel
  obtain ⟨t, ht, hr⟩ := Option.map_eq_some_iff.mp h
  obtain ⟨hf, hres⟩ := Prod.mk.inj hr
  obtain ⟨-, -, -, -, hrest⟩ := thread_lifecycle Engine.silent fresh _ ht
  obtain ⟨-, -, -, hidle⟩ := hrest hf [] t rfl
  exact ⟨fresh, t, ht, hf, hres, hidle 0⟩

end Transcript
end TickMachine
