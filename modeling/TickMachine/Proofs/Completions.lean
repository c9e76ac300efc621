import Mathlib.Data.List.Induction
import TickMachine.Proofs.Pauses

/-!
# Completions

A debugger that starts a routine is told so, and when the program is done it is told the results.
It can tell from the replies alone which of them belong together: the results are those of the
routine that was started last, unless the thread has been reset or stopped since.

* `Begun`, `Answering`   what the replies tell about the program that is under way;
* `Answering.count`   there are no more completions than programs that were begun;
* `Owing`   the replies are answering, and a thread that is not terminated has been begun;
* `Owing.feedAll`, `Machine.owing_closing`, `Transcript.next_owing`   bytes, runs and turns keep it;
* `completions_answer`   so it is for every machine with a debugger.
-/

namespace TickMachine

variable {σ : Type}

/-! ## what the replies tell -/

/-- The reply tells of the end of a program: its thread is reset, or the program is completed. -/
def Reply.Ends (r : Reply) : Prop := r = .ack Command.resetOp ∨ ∃ vs, r = .completed vs

def Reply.isCompletion : Reply → Bool
  | .completed _ => true
  | _ => false

/-- By the replies, a program was begun, and its end has not been told of. -/
def Begun (replies : List Reply) : Prop :=
  ∃ earlier later, replies = earlier ++ .ack Command.beginExecOp :: later ∧ ∀ r ∈ later, ¬ r.Ends

/-- Each completion comes after the begin of a program whose end has not been told of before. -/
def Answering (replies : List Reply) : Prop :=
  ∀ earlier vs later, replies = earlier ++ .completed vs :: later → Begun earlier

theorem eq_concat_cases {α : Type} {xs ys zs : List α} {x z : α} (h : xs ++ [x] = ys ++ z :: zs) :
    ys = xs ∧ z = x ∨ ∃ more, xs = ys ++ z :: more ∧ zs = more ++ [x] := by
  rcases List.eq_nil_or_concat zs with rfl | ⟨more, last, rfl⟩
  · obtain ⟨rfl, hz⟩ := List.append_inj' h rfl
    exact .inl ⟨rfl, (List.singleton_inj.mp hz).symm⟩
  · rw [List.concat_eq_append, ← List.cons_append, ← List.append_assoc] at h
    obtain ⟨rfl, hx⟩ := List.append_inj' h rfl
    exact .inr ⟨more, rfl, by rw [List.concat_eq_append, hx]⟩

theorem begun_concat {rs : List Reply} {r : Reply} :
    Begun (rs ++ [r]) ↔ r = .ack Command.beginExecOp ∨ Begun rs ∧ ¬ r.Ends := by
  constructor
  · rintro ⟨earlier, later, heq, hends⟩
    rcases eq_concat_cases heq with ⟨-, h⟩ | ⟨more, rfl, rfl⟩
    · exact .inl h.symm
    · refine .inr ⟨⟨earlier, more, rfl, fun a ha => hends a (List.mem_append_left _ ha)⟩, ?_⟩
      exact hends r (List.mem_append_right _ (List.mem_singleton_self r))
  · rintro (rfl | ⟨⟨earlier, later, rfl, hends⟩, hr⟩)
    · exact ⟨rs, [], rfl, fun r hr => absurd hr List.not_mem_nil⟩
    · refine ⟨earlier, later ++ [r], by simp, fun a ha => ?_⟩
      rcases List.mem_append.mp ha with ha | ha
      · exact hends a ha
      · rw [List.mem_singleton.mp ha]
        exact hr

theorem answering_nil : Answering [] := by
  intro earlier vs later h
  simp at h

theorem answering_concat {rs : List Reply} {r : Reply} :
    Answering (rs ++ [r]) ↔ Answering rs ∧ ∀ vs, r = .completed vs → Begun rs := by
  constructor
  · intro h
    refine ⟨fun earlier vs later heq => h earlier vs (later ++ [r]) (by simp [heq]), ?_⟩
    rintro vs rfl
    exact h rs vs [] rfl
  · rintro ⟨h, hr⟩ earlier vs later heq
    rcases eq_concat_cases heq with ⟨rfl, h'⟩ | ⟨more, rfl, -⟩
    · exact hr vs h'.symm
    · exact h earlier vs more rfl

theorem Answering.of_prefix {rs sent : List Reply} (h : Answering rs) (hs : sent <+: rs) :
    Answering sent := by
  obtain ⟨more, rfl⟩ := hs
  intro earlier vs later heq
  exact h earlier vs (later ++ more) (by simp [heq])

/-- There are no more completions than begins, and one less while a program is under way. -/
theorem Answering.count {rs : List Reply} (h : Answering rs) :
    rs.countP Reply.isCompletion ≤ rs.count (.ack Command.beginExecOp) ∧
      (Begun rs → rs.countP Reply.isCompletion < rs.count (.ack Command.beginExecOp)) := by
  induction rs using List.reverseRecOn with
  | nil =>
    refine ⟨Nat.le_refl _, ?_⟩
    rintro ⟨earlier, later, heq, -⟩
    simp at heq
  | append_singleton rs r ih =>
    obtain ⟨hrs, hr⟩ := answering_concat.mp h
    obtain ⟨hle, hlt⟩ := ih hrs
    rw [begun_concat, List.countP_append, List.count_append, List.count_singleton]
    -- a begin raises the one count, a completion the other, and any other reply neither
    by_cases hbegin : r = .ack Command.beginExecOp
    · subst hbegin
      have hnone : [Reply.ack Command.beginExecOp].countP Reply.isCompletion = 0 := rfl
      rw [hnone, if_pos (beq_self_eq_true _)]
      omega
    · rw [if_neg (by simpa using hbegin)]
      by_cases hdone : ∃ vs, r = .completed vs
      · obtain ⟨vs, rfl⟩ := hdone
        have hone : [Reply.completed vs].countP Reply.isCompletion = 1 := rfl
        have hopen := hlt (hr vs rfl)
        rw [hone]
        refine ⟨hopen, ?_⟩
        rintro (h | ⟨-, h⟩)
        · exact absurd h hbegin
        · exact absurd (.inr ⟨vs, rfl⟩) h
      · have hnone : [r].countP Reply.isCompletion = 0 := by
          cases r with
          | completed vs => exact absurd ⟨vs, rfl⟩ hdone
          | _ => rfl
        rw [hnone]
        refine ⟨hle, ?_⟩
        rintro (h | ⟨h, -⟩)
        · exact absurd h hbegin
        · exact hlt h

/-! ## programs that are begun -/

/-- Each completion among the replies answers a begin, and if the thread has not terminated its
program has been begun and its end not told of. -/
structure Owing (replies : List Reply) (t : Thread) : Prop where
  answering : Answering replies
  begun : t.state ≠ .terminated → Begun replies

namespace Owing

variable {rs : List Reply} {t : Thread}

theorem of_state (h : Owing rs t) {t' : Thread}
    (hs : t'.state ≠ .terminated → t.state ≠ .terminated) : Owing rs t' :=
  ⟨h.answering, fun ht => h.begun (hs ht)⟩

theorem sways {q q' : Program} {r : Option Reply} (h : Owing rs q.thread)
    (hs : Session.Sways q r q') : Owing (rs ++ r.toList) q'.thread := by
  cases hs with
  | leaves thread plain =>
    cases r with
    | none =>
      rw [Option.toList_none, List.append_nil]
      exact h.of_state (by rw [thread]; exact id)
    | some a =>
      obtain ⟨hsteers, hdone⟩ := plain a rfl
      refine ⟨answering_concat.mpr ⟨h.answering, fun vs ha => absurd ha (hdone vs)⟩, fun ht => ?_⟩
      refine begun_concat.mpr (.inr ⟨h.begun (by rwa [← thread]), ?_⟩)
      rintro (ha | ⟨vs, ha⟩)
      · exact hsteers (.inl ha)
      · exact hdone vs ha
  | resets thread =>
    refine ⟨answering_concat.mpr ⟨h.answering, nofun⟩, fun ht => absurd ?_ ht⟩
    rw [thread]
    rfl
  | enters entered =>
    exact ⟨answering_concat.mpr ⟨h.answering, nofun⟩, fun _ => begun_concat.mpr (.inl rfl)⟩

theorem feedAll {s : Session} {q : Program} (h : Owing rs q.thread) (n : Nat) (bytes : List UInt8) :
    Owing (rs ++ (s.feedAll q n bytes).replies.map Prod.snd)
      (s.feedAll q n bytes).program.thread := by
  induction bytes generalizing s q n rs with
  | nil => simpa [Session.feedAll] using h
  | cons b bs ih =>
    have hb := h.sways (s.feed_sways q b)
    have hrest := ih (s := (s.feed q b).session) hb (n + 1)
    simp only [Session.feedAll, List.map_append, ← List.append_assoc]
    have hmap : ((s.feed q b).reply.map fun r => (n, r)).toList.map Prod.snd
        = (s.feed q b).reply.toList := by cases (s.feed q b).reply <;> rfl
    rw [hmap]
    exact hrest

end Owing

namespace Session

theorem Sways.not_completed {q q' : Program} {r : Option Reply} (h : Sways q r q') :
    ∀ a ∈ r, ∀ vs, a ≠ .completed vs := by
  intro a ha
  cases h with
  | leaves thread plain => exact (plain a ha).2
  | resets thread => cases ha; exact nofun
  | enters entered => cases ha; exact nofun

theorem feedAll_not_completed (s : Session) (q : Program) (n : Nat) (bytes : List UInt8) :
    ∀ r ∈ (s.feedAll q n bytes).replies.map Prod.snd, ∀ vs, r ≠ .completed vs := by
  induction bytes generalizing s q n with
  | nil => simp [feedAll]
  | cons b bs ih =>
    intro r hr
    simp only [feedAll, List.map_append, List.mem_append] at hr
    rcases hr with hr | hr
    · exact (s.feed_sways q b).not_completed r (by simpa using hr)
    · exact ih _ _ _ r hr

end Session

theorem mem_completion {result : Except Fault Outcome} {vs : List Value} :
    .completed vs ∈ completion result ↔ result = .ok (.terminated vs) := by
  unfold completion
  split
  · next vs' => simp [eq_comm]
  · next h => simpa using h vs

namespace Machine

variable {p : Peripherals σ} {m : Machine σ} {rs : List Reply}

theorem Listening.owing_service (hl : m.Listening) (h : Owing rs m.engine.thread) :
    Owing (rs ++ m.answers) m.service.machine.engine.thread := by
  obtain ⟨session, link, hd, hb⟩ := hl
  obtain ⟨log, hp⟩ := session.pollFrom_eq m.engine.toProgram hb 0 0 #[] link.incoming
  have hall := h.feedAll (s := session) 0 link.incoming
  unfold Machine.service answers
  rw [hd]
  dsimp only [Session.poll]
  rw [hp]
  exact hall

theorem answers_not_completed (m : Machine σ) : ∀ r ∈ m.answers, ∀ vs, r ≠ .completed vs := by
  unfold answers
  split
  · intro r hr
    cases hr
  · exact Session.feedAll_not_completed _ _ _ _

theorem owing_closing {fuel : Nat} {run : Run σ} (h : Owing rs m.engine.thread)
    (hrun : m.engine.run p fuel #[] = some run) :
    Owing (rs ++ completion run.result) (m.closing p run).engine.thread := by
  by_cases hx : m.engine.thread.state = .executing
  · have hbegun : Begun rs := h.begun (by rw [hx]; exact nofun)
    rcases Engine.run_leaves hx hrun with ⟨hr, hs⟩ | ⟨vs, hr, hs⟩ | ⟨f, hr, -⟩
    · have hnone : completion run.result = [] := by rw [hr]; rfl
      rw [hnone, List.append_nil]
      exact ⟨h.answering, fun _ => hbegun⟩
    · rw [closing_thread hr, hr]
      exact ⟨answering_concat.mpr ⟨h.answering, fun _ _ => hbegun⟩, fun ht => absurd hs ht⟩
    · -- the thread is stopped
      have hstop : (m.closing p run).engine.thread.state = .terminated := by
        unfold closing
        rw [hr]
        rfl
      have hnone : completion run.result = [] := by rw [hr]; rfl
      rw [hnone, List.append_nil]
      exact ⟨h.answering, fun ht => absurd hstop ht⟩
  · cases fuel with
    | zero => cases hrun
    | succ fuel =>
      rw [Engine.run_idle hx, Option.some.injEq] at hrun
      subst hrun
      rw [closing_thread rfl]
      exact (List.append_nil rs).symm ▸ h

theorem Listening.closing (hl : m.Listening) (run : Run σ) : (m.closing p run).Listening := by
  have hrun : ({ m with engine := run.engine }.mapDevices p.frameEnd).Listening := hl
  exact (hrun.conclude run.result).1

end Machine

namespace Transcript

variable {p : Peripherals σ} {t t' : Transcript σ}

theorem next_owing (hk : t.Kept) (h : Owing t.replies t.machine.engine.thread) {turn : Turn}
    (hn : t.next p turn = some t') : Owing t'.replies t'.machine.engine.thread := by
  cases turn with
  | tick fuel =>
    obtain ⟨u, run, -, hrun, rfl, hm, -, hr⟩ := next_tick hn
    have hbegin : Owing t.replies (t.machine.beginTick p).engine.thread :=
      h.of_state fun ht hs => ht ((Thread.tick_terminated _).mpr hs)
    have hlisten : (t.machine.beginTick p).Listening := hk.listening
    rw [hm, hr]
    exact (hlisten.closing run).owing_service (Machine.owing_closing hbegin hrun)
  | receive bytes =>
    cases hn
    exact h
  | service =>
    cases hn
    exact hk.listening.owing_service h
  | collect =>
    cases hn
    exact h

theorem after_owing (hk : t.Kept) (h : Owing t.replies t.machine.engine.thread)
    {turns : List Turn} (ha : t.after p turns = some t') :
    Owing t'.replies t'.machine.engine.thread := by
  induction turns generalizing t with
  | nil =>
    cases ha
    exact h
  | cons turn more ih =>
    obtain ⟨t₁, hn, hrest⟩ := Option.bind_eq_some_iff.mp ha
    exact ih (hk.next hn) (next_owing hk h hn) hrest

/-- A turn tells of completions only if it is a frame tick whose program comes to its end. -/
theorem next_completed {turn : Turn} (h : t.next p turn = some t') :
    ∃ sent, t'.replies = t.replies ++ sent ∧ ∀ vs, .completed vs ∈ sent ↔
      ∃ fuel u, turn = .tick fuel ∧ t.machine.tick p fuel = some u ∧
        u.result = .ok (.terminated vs) := by
  cases turn with
  | tick fuel =>
    obtain ⟨u, run, hu, -, rfl, -, -, hr⟩ := next_tick h
    refine ⟨_, hr.trans (List.append_assoc _ _ _), fun vs => ?_⟩
    rw [List.mem_append, mem_completion]
    constructor
    · rintro (hres | hans)
      · exact ⟨fuel, _, rfl, hu, hres⟩
      · exact absurd rfl (Machine.answers_not_completed _ _ hans vs)
    · rintro ⟨_, u', hfuel, hu', hres⟩
      cases hfuel
      cases hu.symm.trans hu'
      exact .inl hres
  | receive bytes =>
    cases h
    exact ⟨[], (List.append_nil _).symm, fun vs => by simp⟩
  | service =>
    cases h
    refine ⟨_, rfl, fun vs => ⟨fun hans => ?_, fun ⟨_, _, hturn, _⟩ => by cases hturn⟩⟩
    exact absurd rfl (Machine.answers_not_completed _ _ hans vs)
  | collect =>
    cases h
    exact ⟨[], (List.append_nil _).symm, fun vs => by simp⟩

/-- **Every completion answers its own begin.**  Of a machine that waits for a debugger, after any
frame ticks and any bytes, what was sent are the bytes of its replies.  As long as no routine was
started, the engine does nothing.  Before each completion, after the completions before it and the
resets, the debugger was told that a routine was started; there are never more completions than
that.  A completion is sent by a frame tick whose program comes to its end, and by nothing else. -/
theorem completions_answer (p : Peripherals σ) (devices : σ) (turns : List Turn)
    {t : Transcript σ}
    (h : Transcript.after p ⟨Machine.debug devices {}, [], []⟩ turns = some t) :
    t.bytes = t.replies.flatMap Reply.bytes ∧
    (.ack Command.beginExecOp ∉ t.replies → ∀ fuel,
      (t.machine.beginTick p).engine.run p (fuel + 1) #[] =
        some ⟨.ok .idle, (t.machine.beginTick p).engine, #[]⟩) ∧
    (∀ earlier vs later, t.replies = earlier ++ .completed vs :: later → Begun earlier) ∧
    (∀ sent, sent <+: t.replies →
      sent.countP Reply.isCompletion ≤ sent.count (.ack Command.beginExecOp)) ∧
    (∀ turn t', t.next p turn = some t' → ∃ sent, t'.replies = t.replies ++ sent ∧
      ∀ vs, .completed vs ∈ sent ↔ ∃ fuel u, turn = .tick fuel ∧
        t.machine.tick p fuel = some u ∧ u.result = .ok (.terminated vs)) := by
  have hbegin : Kept ⟨Machine.debug devices {}, [], []⟩ :=
    ⟨⟨{}, {}, rfl, rfl⟩, rfl, fun r hr => by cases hr⟩
  have howing := after_owing hbegin ⟨answering_nil, fun ht => absurd rfl ht⟩ h
  refine ⟨(hbegin.after h).bytes, ?_, howing.answering, ?_, fun turn t' hn => next_completed hn⟩
  · intro hnone fuel
    have hdead : t.machine.engine.thread.state = .terminated := by
      by_contra halive
      obtain ⟨earlier, later, hreplies, -⟩ := howing.begun halive
      rw [hreplies] at hnone
      exact hnone (List.mem_append_right _ List.mem_cons_self)
    have hbegun : (t.machine.beginTick p).engine.thread.state = .terminated :=
      (Thread.tick_terminated _).mpr hdead
    exact Engine.run_idle (by rw [hbegun]; exact nofun) fuel #[]
  · intro sent hsent
    exact (howing.answering.of_prefix hsent).count.1

/-- A debugger starts a program that sleeps for two ticks, resets it while it sleeps, and starts it
twice more, the second time while it sleeps. -/
def restarting : List Turn :=
  [.tick 1,
    .receive (frame ((Command.writeMem 0 0 6).body ++ [0, 2, 0, 0xB3, 0x0D, 1])),
    .receive (Command.beginExec 0 0).encode, .service, .tick 9,
    .receive Command.reset.encode, .tick 9, .tick 9,
    .receive (Command.beginExec 0 0).encode, .tick 9, .tick 9,
    .receive (Command.beginExec 0 0).encode, .tick 9, .tick 9, .tick 9, .tick 9]

theorem completions_answer_restarting :
    ∃ t, Transcript.after Engine.silent ⟨Machine.debug () {}, [], []⟩ restarting = some t ∧
      t.replies = [.ack 0x77, .ack 0x78, .ack 0x72, .ack 0x78, .ack 0x78, .completed [0]] ∧
      Begun [.ack 0x77, .ack 0x78, .ack 0x72, .ack 0x78, .ack 0x78] ∧
      t.replies.countP Reply.isCompletion ≤ t.replies.count (.ack Command.beginExecOp) := by
  have h : (Transcript.after Engine.silent ⟨Machine.debug () {}, [], []⟩ restarting).map
      Transcript.replies =
        some [.ack 0x77, .ack 0x78, .ack 0x72, .ack 0x78, .ack 0x78, .completed [0]] := by
    decide +kernel
  obtain ⟨t, ht, hr⟩ := Option.map_eq_some_iff.mp h
  obtain ⟨-, -, hanswer, hcount, -⟩ := completions_answer Engine.silent () restarting ht
  refine ⟨t, ht, hr, hanswer [.ack 0x77, .ack 0x78, .ack 0x72, .ack 0x78, .ack 0x78] [0] [] ?_,
    hcount _ (List.prefix_refl _)⟩
  rw [hr]
  rfl

end Transcript
end TickMachine
