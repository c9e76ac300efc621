import TickMachine.Machine
import TickMachine.Proofs.Atomic
import TickMachine.Proofs.Views

/-!
# Machines in lockstep

A debugger gives a program more room than it has in its file: the image of a debug machine holds
the same code, but behind the program's own routines and globals there are further ones.  A
program does not notice, unless it asks for a routine or a global that it does not have.

* `Image.Hosts`   an image with room for another one, and that one in it;
* `Engine.Alike`   engines that differ only so;
* `Exec.Follows`   an action that does the same on both, or asks for what is missing;
* `Exec.follows_execute`   every instruction is such an action;
* `Engine.Alike.step`, `Engine.Alike.run`   steps and runs;
* `Engine.Alike.lockstep`   any number of steps;
* `Machine.Paired.tick`, `Machine.Paired.ticked`   frame ticks, and any number of them.
-/

namespace TickMachine

variable {σ : Type}

/-! ## the same program with more room -/

/-- `host.Hosts img`: in `host` there is the program of `img`, and perhaps more. -/
structure Image.Hosts (host img : Image) : Prop where
  code : host.code = img.code
  routine : ∀ i r, img.routine? i = some r → host.routine? i = some r
  global : ∀ i v, img.global? i = some v → host.global? i = some v

theorem Image.Hosts.fetch {host img : Image} (h : host.Hosts img) : host.fetch = img.fetch := by
  funext pc
  rw [Image.fetch_eq_code, Image.fetch_eq_code, h.code]

theorem Image.Hosts.lt_globalCount {host img : Image} (h : host.Hosts img) {i : Nat}
    (hi : i < img.globalCount) : i < host.globalCount :=
  Nat.lt_of_lt_of_le hi (Image.globalCount_le_of_global? fun j v hv => ⟨v, h.global j v hv⟩)

theorem Image.Hosts.setGlobal {host img : Image} (h : host.Hosts img) {i : Nat}
    (hi : i < img.globalCount) (v : Value) : (host.setGlobal i v).Hosts (img.setGlobal i v) where
  code := h.code
  routine := h.routine
  global j w hw := by
    rw [Image.global?_setGlobal img v hi] at hw
    rw [Image.global?_setGlobal host v (h.lt_globalCount hi)]
    split
    · next hj => rwa [if_pos hj] at hw
    · next hj =>
      rw [if_neg hj] at hw
      exact h.global j w hw

/-- `e.Alike d`: the engine `d` runs the program of `e` on an image that hosts the one of `e`. -/
structure Engine.Alike (e d : Engine σ) : Prop where
  image : d.image.Hosts e.image
  thread : d.thread = e.thread
  devices : d.devices = e.devices

/-- A routine or a global is not there. -/
def Cause.IsMissing : Cause → Prop
  | .unknownRoutine _ => True
  | .globalOutOfRange _ _ => True
  | _ => False

/-- The result is a fault for want of a routine or a global. -/
def Missing (r : Except Fault Outcome) : Prop := ∃ f, r = .error f ∧ f.cause.IsMissing

theorem not_missing_ok (o : Outcome) : ¬ Missing (.ok o) := by
  rintro ⟨f, hf, -⟩
  cases hf

/-! ## actions -/

namespace Exec

variable {α β : Type}

/-- On engines that are alike the action does the same, unless it fails on the first for want of a
routine or a global. -/
def Follows (x : Exec σ α) : Prop :=
  ∀ e d : Engine σ, e.Alike d →
    (∃ a e' d', Returns x e a e' ∧ Returns x d a d' ∧ e'.Alike d') ∨
    (∃ c, Fails x e c ∧ (c.IsMissing ∨ Fails x d c))

theorem Follows.bind {x : Exec σ α} {f : α → Exec σ β} (hx : Follows x)
    (hf : ∀ a, Follows (f a)) : Follows (x >>= f) := by
  intro e d h
  rcases hx e d h with ⟨a, e₁, d₁, he, hd, h₁⟩ | ⟨c, he, hd⟩
  · rcases hf a e₁ d₁ h₁ with ⟨b, e₂, d₂, he₂, hd₂, h₂⟩ | ⟨c, he₂, hd₂⟩
    · exact .inl ⟨b, e₂, d₂, returns_bind.mpr ⟨a, e₁, he, he₂⟩,
        returns_bind.mpr ⟨a, d₁, hd, hd₂⟩, h₂⟩
    · exact .inr ⟨c, fails_bind.mpr (.inr ⟨a, e₁, he, he₂⟩),
        hd₂.imp_right fun hd₂ => fails_bind.mpr (.inr ⟨a, d₁, hd, hd₂⟩)⟩
  · exact .inr ⟨c, fails_bind.mpr (.inl he), hd.imp_right fun hd => fails_bind.mpr (.inl hd)⟩

theorem Follows.returns {x : Exec σ α} (hx : Follows x) {e d e' : Engine σ} (h : e.Alike d)
    {a : α} (hr : Returns x e a e') : ∃ d', Returns x d a d' ∧ e'.Alike d' := by
  rcases hx e d h with ⟨b, e₁, d₁, he, hd, h₁⟩ | ⟨c, hf, -⟩
  · cases he.symm.trans hr
    exact ⟨d₁, hd, h₁⟩
  · rw [Fails, hr] at hf
    cases hf

theorem Follows.fails {x : Exec σ α} (hx : Follows x) {e d : Engine σ} (h : e.Alike d)
    {c : Cause} (hf : Fails x e c) (hm : ¬ c.IsMissing) : Fails x d c := by
  rcases hx e d h with ⟨a, e₁, d₁, he, -⟩ | ⟨c', he, hd⟩
  · rw [Fails, he] at hf
    cases hf
  · cases he.symm.trans hf
    exact hd.resolve_left hm

theorem Follows.ite {P : Prop} [Decidable P] {x y : Exec σ α} (hx : Follows x)
    (hy : Follows y) : Follows (if P then x else y) := by
  by_cases h : P
  · rw [if_pos h]; exact hx
  · rw [if_neg h]; exact hy

theorem follows_pure (a : α) : Follows (pure a : Exec σ α) := fun e d h =>
  .inl ⟨a, e, d, returns_pure.mpr ⟨rfl, rfl⟩, returns_pure.mpr ⟨rfl, rfl⟩, h⟩

theorem follows_throw (c : Cause) : Follows (throw c : Exec σ α) := fun _ _ _ =>
  .inr ⟨c, fails_throw.mpr rfl, .inr (fails_throw.mpr rfl)⟩

/-- A check in front of an action, which depends on nothing but what is known by now. -/
theorem Follows.guarded {P : Prop} [Decidable P] {c : Cause} {f : Unit → Exec σ α}
    (hf : Follows (f ())) : Follows (if P then throw c >>= f else f ()) := by
  by_cases h : P
  · rw [if_pos h]
    exact (follows_throw c).bind fun _ => hf
  · rw [if_neg h]; exact hf

theorem follows_thread : Follows (thread (σ := σ)) := fun e d h =>
  .inl ⟨e.thread, e, d, returns_thread.mpr ⟨rfl, rfl⟩, returns_thread.mpr ⟨h.thread.symm, rfl⟩, h⟩

theorem follows_modifyThread (f : Thread → Thread) : Follows (modifyThread (σ := σ) f) := by
  intro e d h
  refine .inl ⟨(), _, _, returns_modifyThread.mpr rfl, returns_modifyThread.mpr rfl, h.image, ?_,
    h.devices⟩
  rw [h.thread]

theorem follows_proceed (pc : Nat) : Follows (proceed (σ := σ) pc) :=
  (follows_modifyThread _).bind fun _ => follows_pure _

theorem follows_ensure (n : Nat) : Follows (ensure (σ := σ) n) :=
  follows_thread.bind fun _ => Follows.ite (follows_throw _) (follows_pure _)

theorem follows_push (v : Value) : Follows (push (σ := σ) v) :=
  follows_thread.bind fun _ => Follows.ite (follows_modifyThread _) (follows_throw _)

/-! ### what depends on the image -/

theorem follows_routine (i : Nat) : Follows (routine (σ := σ) i) := by
  intro e d h
  cases hr : e.image.routine? i with
  | some r =>
    exact .inl ⟨r, e, d, returns_routine.mpr ⟨hr, rfl⟩,
      returns_routine.mpr ⟨h.image.routine i r hr, rfl⟩, h⟩
  | none => exact .inr ⟨_, fails_routine.mpr ⟨hr, rfl⟩, .inl trivial⟩

theorem follows_getGlobal (i : Nat) : Follows (getGlobal (σ := σ) i) := by
  intro e d h
  cases hv : e.image.global? i with
  | some v =>
    exact .inl ⟨v, e, d, returns_getGlobal.mpr ⟨hv, rfl⟩,
      returns_getGlobal.mpr ⟨h.image.global i v hv, rfl⟩, h⟩
  | none => exact .inr ⟨_, fails_getGlobal.mpr ⟨hv, rfl⟩, .inl trivial⟩

theorem follows_setGlobal (i : Nat) (v : Value) : Follows (setGlobal (σ := σ) i v) := by
  intro e d h
  by_cases hi : i < e.image.globalCount
  · exact .inl ⟨(), _, _, returns_setGlobal.mpr ⟨hi, rfl⟩,
      returns_setGlobal.mpr ⟨h.image.lt_globalCount hi, rfl⟩, h.image.setGlobal hi v, h.thread,
      h.devices⟩
  · exact .inr ⟨_, fails_setGlobal.mpr ⟨Nat.le_of_not_lt hi, rfl⟩, .inl trivial⟩

theorem follows_currentIndex : Follows (currentIndex (σ := σ)) := by
  refine follows_thread.bind fun t => ?_
  cases t.routine with
  | none => exact follows_throw _
  | some i => exact follows_pure i

theorem follows_current : Follows (current (σ := σ)) := follows_currentIndex.bind follows_routine

theorem follows_localSlot (k : Nat) : Follows (localSlot (σ := σ) k) :=
  follows_current.bind fun _ => follows_thread.bind fun _ => Follows.guarded (follows_pure _)

theorem follows_jumpTarget (next : Nat) (v : Value) : Follows (jumpTarget (σ := σ) next v) :=
  Follows.ite (follows_throw _) (follows_pure _)

/-! ### instructions -/

theorem follows_perform (p : Peripherals σ) (a : Action) : Follows (perform p a) := by
  intro e d h
  refine .inl ⟨(a.effect p e).1, (a.effect p e).2, (a.effect p d).2, returns_perform.mpr rfl,
    returns_perform.mpr ?_, ?_⟩
  · cases a with
    | yield v => rfl
    | ask r => simp [Action.effect, h.devices]
    | sleep count => rfl
  · cases a with
    | yield v => exact h
    | ask r => exact ⟨h.image, h.thread, by simp [Action.effect, h.devices]⟩
    | sleep count => exact ⟨h.image, by simp [Action.effect, h.thread], h.devices⟩

theorem follows_invoke (p : Peripherals σ) (b : Builtin) (args : Vector Value b.arity) :
    Follows (invoke p b args) := by
  unfold invoke
  cases b.action args with
  | ok a => exact follows_perform p a
  | error c => exact follows_throw c

theorem follows_call (k next : Nat) : Follows (call (σ := σ) k next) := by
  refine (follows_routine k).bind fun callee => follows_currentIndex.bind fun i => ?_
  refine (follows_routine i).bind fun caller => follows_thread.bind fun t => ?_
  refine Follows.guarded (Follows.guarded (Follows.guarded ?_))
  exact (follows_modifyThread _).bind fun _ => follows_pure _

theorem follows_ret (n : Nat) : Follows (ret (σ := σ) n) := by
  refine follows_current.bind fun r => (follows_ensure n).bind fun _ => ?_
  refine follows_thread.bind fun t => Follows.guarded ?_
  refine (follows_modifyThread _).bind fun _ => Follows.ite ?_ ?_
  · exact follows_thread.bind fun _ => (follows_modifyThread _).bind fun _ => follows_pure _
  · exact (follows_modifyThread _).bind fun _ => follows_pure _

theorem follows_builtin (p : Peripherals σ) (b : Builtin) (next : Nat) :
    Follows (builtin p b next) := by
  refine (follows_ensure b.arity).bind fun _ => follows_thread.bind fun t => Follows.guarded ?_
  refine (follows_invoke p b _).bind fun v => (follows_modifyThread _).bind fun _ => ?_
  exact follows_thread.bind fun _ => follows_pure _

theorem follows_execute (p : Peripherals σ) (i : Instruction) (next : Nat) :
    Follows (execute p i next) := by
  cases i with
  | pushConst v => exact (follows_push v).bind fun _ => follows_proceed next
  | zero => exact (follows_push 0).bind fun _ => follows_proceed next
  | drop =>
    exact (follows_ensure 1).bind fun _ => (follows_modifyThread _).bind fun _ =>
      follows_proceed next
  | getGlobal k =>
    exact (follows_getGlobal k.toNat).bind fun v => (follows_push v).bind fun _ =>
      follows_proceed next
  | setGlobal k =>
    refine (follows_ensure 1).bind fun _ => follows_thread.bind fun t => ?_
    exact (follows_setGlobal k.toNat t.top).bind fun _ => (follows_modifyThread _).bind fun _ =>
      follows_proceed next
  | getLocal k =>
    exact (follows_localSlot k.toNat).bind fun slot => follows_thread.bind fun t =>
      (follows_push _).bind fun _ => follows_proceed next
  | setLocal k =>
    refine (follows_localSlot k.toNat).bind fun slot => (follows_ensure 1).bind fun _ => ?_
    exact (follows_modifyThread _).bind fun _ => (follows_modifyThread _).bind fun _ =>
      follows_proceed next
  | call k => exact follows_call k.toNat next
  | ret n => exact follows_ret n.toNat
  | jmp v => exact (follows_jumpTarget next v).bind fun target => follows_proceed target
  | jz v =>
    refine (follows_ensure 1).bind fun _ => (follows_jumpTarget next v).bind fun target => ?_
    exact (follows_modifyThread _).bind fun _ => follows_thread.bind fun t => follows_proceed _
  | builtin b => exact follows_builtin p b next

end Exec

/-! ## steps and runs -/

namespace Engine

variable {p : Peripherals σ} {e d : Engine σ}

theorem Alike.decoded (h : e.Alike d) : d.decoded = e.decoded := by
  unfold Engine.decoded
  rw [h.image.fetch, h.thread]

theorem Alike.fault (h : e.Alike d) (opcode : Option UInt8) (c : Cause) :
    d.fault opcode c = e.fault opcode c := by
  unfold Engine.fault
  rw [h.thread]

theorem Alike.step_error (h : e.Alike d) {f : Fault} (hf : (e.step p).1 = .error f)
    (hm : ¬ f.cause.IsMissing) : (d.step p).1 = .error f := by
  obtain ⟨hx, hc⟩ := step_error_iff.mp hf
  refine step_error_iff.mpr ⟨by rw [h.thread, hx], ?_⟩
  rw [h.decoded, h.thread]
  simp only [h.fault]
  rcases hc with hc | hc | hc | ⟨i, c, hi, hc, rfl⟩
  · exact .inl hc
  · exact .inr (.inl hc)
  · exact .inr (.inr (.inl hc))
  · exact .inr (.inr (.inr ⟨i, c, hi, (Exec.follows_execute p i _).fails h hc hm, rfl⟩))

theorem Alike.step_ok (h : e.Alike d) {o : Outcome} {e' : Engine σ}
    (hs : e.step p = (.ok o, e')) : ∃ d', d.step p = (.ok o, d') ∧ e'.Alike d' := by
  rcases step_ok_iff.mp hs with ⟨hx, rfl, rfl⟩ | ⟨hx, i, hi, hp⟩
  · exact ⟨d, step_ok_iff.mpr (.inl ⟨by rwa [h.thread], rfl, rfl⟩), h⟩
  · obtain ⟨d', hd, h'⟩ := (Exec.follows_execute p i _).returns h (Exec.returns_execute.mpr hp)
    refine ⟨d', step_ok_iff.mpr (.inr ⟨by rw [h.thread, hx], i, h.decoded.trans hi, ?_⟩), h'⟩
    rw [h.thread]
    exact Exec.returns_execute.mp hd

/-- A step of engines that are alike has the same outcome and leaves them alike. -/
theorem Alike.step (h : e.Alike d) (hm : ¬ Missing (e.step p).1) :
    (d.step p).1 = (e.step p).1 ∧ (e.step p).2.Alike (d.step p).2 := by
  rcases hs : (e.step p).1 with f | o
  · have hf : ¬ f.cause.IsMissing := fun hf => hm ⟨f, hs, hf⟩
    have hd := h.step_error hs hf
    rw [step_error_engine hs, step_error_engine hd]
    exact ⟨hd, h⟩
  · obtain ⟨d', hd, h'⟩ := h.step_ok (Prod.ext hs rfl)
    rw [hd]
    exact ⟨rfl, h'⟩

/-- Engines that take the same steps: after each of them the outcomes have been the same and the
engines are alike, as long as the first has not failed for want of a routine or a global. -/
def Lockstep (p : Peripherals σ) (e d : Engine σ) : Prop :=
  ∀ n, (∀ k < n, ¬ Missing ((e.stepped p k).step p).1) →
    (∀ k < n, ((d.stepped p k).step p).1 = ((e.stepped p k).step p).1) ∧
      (e.stepped p n).Alike (d.stepped p n)

theorem Alike.lockstep (h : e.Alike d) : Lockstep p e d := by
  intro n
  induction n generalizing e d with
  | zero => exact fun _ => ⟨fun k hk => absurd hk (Nat.not_lt_zero k), h⟩
  | succ n ih =>
    intro hm
    obtain ⟨hs, h'⟩ := h.step (hm 0 (Nat.succ_pos n))
    obtain ⟨hrest, hlast⟩ := ih h' fun k hk => hm (k + 1) (Nat.succ_lt_succ hk)
    refine ⟨fun k hk => ?_, hlast⟩
    cases k with
    | zero => exact hs
    | succ k => exact hrest k (Nat.lt_of_succ_lt_succ hk)

/-- A run that comes to its end does so on both engines, with the same result. -/
theorem Alike.run (h : e.Alike d) {fuel : Nat} {log : Array Event} {r : Run σ}
    (hr : e.run p fuel log = some r) (hm : ¬ Missing r.result) (log' : Array Event) :
    ∃ r', d.run p fuel log' = some r' ∧ r'.result = r.result ∧ r.engine.Alike r'.engine := by
  induction fuel generalizing e d log log' with
  | zero => cases hr
  | succ fuel ih =>
    rcases hs : e.step p with ⟨result, e₁⟩
    rw [Engine.run, hs] at hr
    have hstep : ¬ Missing result → (d.step p).1 = result ∧ e₁.Alike (d.step p).2 := by
      intro hm
      have h' := h.step (p := p) (by rwa [hs])
      rwa [hs] at h'
    rw [Engine.run]
    rcases hd : d.step p with ⟨result', d₁⟩
    rw [hd] at hstep
    dsimp only at hr hstep ⊢
    split at hr
    · next heq =>
      cases heq
      obtain ⟨rfl, h'⟩ := hstep (not_missing_ok _)
      exact ih h' hr _
    · next result _ hne heq =>
      cases heq
      cases hr
      obtain ⟨rfl, h'⟩ := hstep hm
      split
      · next heq => cases heq; exact (hne rfl).elim
      · next heq => cases heq; exact ⟨_, rfl, rfl, h'⟩

end Engine

/-! ## frame ticks -/

namespace Machine

variable {p : Peripherals σ} {m d : Machine σ}

/-- A machine that was loaded and a debug machine that runs the same program, with a debugger who
has nothing more to say but listens. -/
structure Paired (m d : Machine σ) : Prop where
  engine : m.engine.Alike d.engine
  results : d.results = m.results
  ticks : d.ticks = m.ticks
  alone : m.debugger = none
  quiet : ∃ session link, d.debugger = some ⟨session, link⟩ ∧ link.incoming = [] ∧
    link.budget = none

theorem Paired.mapDevices (h : Paired m d) (f : σ → σ) : Paired (m.mapDevices f) (d.mapDevices f) :=
  { h with engine := ⟨h.engine.image, h.engine.thread, congrArg f h.engine.devices⟩ }

theorem Paired.mapThread (h : Paired m d) (f : Thread → Thread) :
    Paired (m.mapThread f) (d.mapThread f) :=
  { h with engine := ⟨h.engine.image, congrArg f h.engine.thread, h.engine.devices⟩ }

theorem Paired.beginTick (h : Paired m d) : Paired (m.beginTick p) (d.beginTick p) := by
  have ht : Paired { m with ticks := m.ticks + 1 } { d with ticks := d.ticks + 1 } :=
    { h with ticks := congrArg (· + 1) h.ticks }
  exact (ht.mapDevices p.frameStart).mapThread (·.tick)

theorem Paired.service (h : Paired m d) : Paired m.service.machine d.service.machine := by
  obtain ⟨session, link, hd, hin, hb⟩ := h.quiet
  unfold Machine.service
  rw [h.alone, hd]
  dsimp only
  rw [Session.poll, hin]
  exact ⟨h.engine, h.results, h.ticks, h.alone, session, _, rfl, rfl, hb⟩

theorem Paired.finish (h : Paired m d) (vs : List Value) :
    Paired (m.finish vs).1 (d.finish vs).1 := by
  obtain ⟨session, link, hd, hin, hb⟩ := h.quiet
  unfold Machine.finish
  dsimp only
  rw [h.alone, hd]
  dsimp only [Session.report]
  rw [Link.send, hb]
  exact ⟨h.engine, rfl, h.ticks, rfl, session, _, rfl, hin, rfl⟩

theorem Paired.conclude (h : Paired m d) (result : Except Fault Outcome) :
    Paired (m.conclude result).1 (d.conclude result).1 := by
  rcases result with f | o
  · exact h.mapThread _
  · cases o with
    | terminated vs => exact h.finish vs
    | idle => exact h
    | running => exact h
    | suspended => exact h

theorem Paired.endTick (h : Paired m d) {r r' : Run σ} (hresult : r'.result = r.result)
    (hengine : r.engine.Alike r'.engine) :
    Paired (m.endTick p r).machine (d.endTick p r').machine := by
  have hrun : Paired { m with engine := r.engine } { d with engine := r'.engine } :=
    { h with engine := hengine }
  have hc := (hrun.mapDevices p.frameEnd).conclude r.result
  unfold Machine.endTick
  rw [hresult]
  exact hc.service

/-- A frame tick that comes to its end does so on both machines, with the same result. -/
theorem Paired.tick (h : Paired m d) {fuel : Nat} {t : Ticked σ} (ht : m.tick p fuel = some t)
    (hm : ¬ Missing t.result) :
    ∃ t', d.tick p fuel = some t' ∧ t'.result = t.result ∧ Paired t.machine t'.machine := by
  unfold Machine.tick at ht ⊢
  obtain ⟨r, hr, rfl⟩ := Option.map_eq_some_iff.mp ht
  obtain ⟨r', hr', hresult, hengine⟩ := (h.beginTick (p := p)).engine.run hr hm #[]
  dsimp only
  rw [hr']
  exact ⟨_, rfl, hresult, h.beginTick.endTick hresult hengine⟩

/-- Frame ticks one after the other, each with the steps it may take: the results of all and the
machine after them, if all come to their end. -/
def ticked (p : Peripherals σ) (m : Machine σ) :
    List Nat → Option (List (Except Fault Outcome) × Machine σ)
  | [] => some ([], m)
  | fuel :: more => do
    let t ← m.tick p fuel
    let rest ← t.machine.ticked p more
    return (t.result :: rest.1, rest.2)

theorem Paired.ticked (h : Paired m d) {fuels : List Nat} {results : List (Except Fault Outcome)}
    {m' : Machine σ} (ht : m.ticked p fuels = some (results, m'))
    (hm : ∀ r ∈ results, ¬ Missing r) :
    ∃ d', d.ticked p fuels = some (results, d') ∧ Paired m' d' := by
  induction fuels generalizing m d results with
  | nil =>
    cases ht
    exact ⟨d, rfl, h⟩
  | cons fuel more ih =>
    unfold Machine.ticked at ht ⊢
    simp only [Option.bind_eq_bind, Option.bind_eq_some_iff, Option.pure_def, Option.some.injEq,
      Prod.mk.injEq] at ht
    obtain ⟨t, hfirst, ⟨rs, m₁⟩, hrest, rfl, rfl⟩ := ht
    obtain ⟨t', hd, hresult, h'⟩ := h.tick hfirst (hm _ List.mem_cons_self)
    obtain ⟨d', hmore, hlast⟩ := ih h' hrest fun r hr => hm r (List.mem_cons_of_mem _ hr)
    refine ⟨d', ?_, hlast⟩
    simp [hd, hmore, hresult]

end Machine
end TickMachine
