import Mathlib.Data.List.Forall2
import TickMachine.Proofs.Atomic
import TickMachine.Proofs.Chunks
import TickMachine.Machine

/-!
# What a debugger is told

A debug machine sends short acknowledgements, which are neither framed nor stuffed, between
replies that are.  A receiver that has seen a delimiter still finds every reply in what was sent:
the letters of acknowledgements need no stuffing, and a frame's first delimiter ends a frame that
has nothing in it.

* `Session.pollFrom_eq`   over a link that does not break, what comes in is answered as a session
                       answers it;
* `Transcript`   a machine with the replies it has sent, through ticks and bytes in any order;
* `Transcript.Kept`   what was sent are the bytes of these replies, each of which can be told;
* `Reply.collect_bytes`   a receiver finds a reply that can be told;
* `Transcript.replies_found`   and so all of them.
-/

namespace TickMachine

variable {σ : Type}

/-! ## replies that can be told -/

/-- The letters that are acknowledged need no stuffing, and no count of results is cut off. -/
def Reply.Tellable : Reply → Prop
  | .ack op => op = Command.resetOp ∨ op = Command.beginExecOp ∨ op = Command.writeMemOp
  | .completed vs => vs.length < 256
  | _ => True

namespace Session

theorem onByte_reply (s : Session) (q : Program) (b : UInt8) : (s.onByte q b).reply = none := by
  unfold onByte
  split
  · split <;> rfl
  · split
    · rfl
    · dsimp only
      split <;> rfl
  · rfl
  · rfl
  · rfl

theorem dispatch_tellable (s : Session) (q : Program) (body : List UInt8) :
    ∀ r ∈ (s.dispatch q body).reply, r.Tellable := by
  unfold dispatch
  split
  · simp
  · simp [Reply.Tellable]
  · simp [Reply.Tellable]
  · dsimp only
    split <;> simp [Reply.Tellable]
  · simp

theorem onDone_tellable (s : Session) (q : Program) :
    ∀ r ∈ (s.onDone q).reply, r.Tellable := by
  unfold onDone
  dsimp only
  split
  · simp
  · simp
  · exact dispatch_tellable _ _ _
  · split <;> simp [Reply.Tellable]
  · simp [Reply.Tellable]

theorem feed_tellable (s : Session) (q : Program) (b : UInt8) :
    ∀ r ∈ (s.feed q b).reply, r.Tellable := by
  unfold feed
  dsimp only
  split
  · simp
  · rw [onByte_reply]
    simp
  · exact onDone_tellable _ q
  · simp [onAbort]

theorem feedAll_tellable (s : Session) (q : Program) (n : Nat) (bytes : List UInt8) :
    ∀ r ∈ (s.feedAll q n bytes).replies.map Prod.snd, r.Tellable := by
  induction bytes generalizing s q n with
  | nil => simp [feedAll]
  | cons b bs ih =>
    intro r hr
    simp only [feedAll, List.map_append, List.mem_append] at hr
    rcases hr with hr | hr
    · apply feed_tellable s q b r
      simpa using hr
    · exact ih _ _ _ r hr

theorem pollFrom_eq (s : Session) (q : Program) {l : Link} (hl : l.budget = none) (k n : Nat)
    (log : Array Event) (bytes : List UInt8) :
    let fed := s.feedAll q n bytes
    ∃ log', s.pollFrom q l k log bytes =
      ⟨fed.session, fed.program,
        { l with
          incoming := []
          outgoing := l.outgoing ++ (fed.replies.map Prod.snd).flatMap Reply.bytes },
        .ok (k + bytes.length), log'⟩ := by
  induction bytes generalizing s q l k n log with
  | nil => exact ⟨log, by simp [pollFrom, feedAll]⟩
  | cons b bs ih =>
    unfold pollFrom
    simp only [feedAll]
    cases hr : (s.feed q b).reply with
    | none =>
      obtain ⟨log', h⟩ := ih (s.feed q b).session (s.feed q b).program hl (k + 1) (n + 1)
        (log ++ (s.feed q b).events)
      refine ⟨log', ?_⟩
      dsimp only
      rw [h]
      simp [Nat.add_assoc, Nat.add_comm 1]
    | some r =>
      obtain ⟨log', h⟩ := ih (s.feed q b).session (s.feed q b).program
        (l := { l with outgoing := l.outgoing ++ r.bytes }) hl (k + 1) (n + 1)
        (log ++ (s.feed q b).events)
      refine ⟨log', ?_⟩
      have hsend : l.send r.bytes = .ok { l with outgoing := l.outgoing ++ r.bytes } := by
        rw [Link.send, hl]
      dsimp only
      rw [hsend]
      dsimp only
      rw [h]
      simp [Nat.add_assoc, Nat.add_comm 1]
      apply Array.toList_inj.mp
      simp

end Session

/-! ## transcripts -/

namespace Machine

def sent (m : Machine σ) : List UInt8 :=
  match m.debugger with
  | none => []
  | some d => d.link.outgoing.toList

def answers (m : Machine σ) : List Reply :=
  match m.debugger with
  | none => []
  | some d => (d.session.feedAll m.engine.toProgram 0 d.link.incoming).replies.map Prod.snd

/-- The machine as the run of a frame tick leaves it, before the debugger is heard. -/
def closing (p : Peripherals σ) (m : Machine σ) (run : Run σ) : Machine σ :=
  (({ m with engine := run.engine }.mapDevices p.frameEnd).conclude run.result).1

end Machine

def completion : Except Fault Outcome → List Reply
  | .ok (.terminated vs) => [.completed vs]
  | _ => []

inductive Turn where
  /-- A frame tick, whose run may take so many steps. -/
  | tick (fuel : Nat)
  /-- The debugger sends bytes. -/
  | receive (bytes : List UInt8)
  /-- The debugger is heard out between ticks. -/
  | service
  /-- The debugger takes what has been sent. -/
  | collect

/-- A machine with the replies it has sent so far, in their order, and the bytes the debugger has
taken. -/
structure Transcript (σ : Type) where
  machine : Machine σ
  replies : List Reply := []
  taken : List UInt8 := []

namespace Transcript

def bytes (t : Transcript σ) : List UInt8 := t.taken ++ t.machine.sent

/-- What becomes of a transcript, unless a tick takes more steps than it may. -/
def next (p : Peripherals σ) (t : Transcript σ) : Turn → Option (Transcript σ)
  | .tick fuel => do
    let ticked ← t.machine.tick p fuel
    let run ← (t.machine.beginTick p).engine.run p fuel #[]
    return { t with
      machine := ticked.machine
      replies := t.replies ++ completion ticked.result ++
        ((t.machine.beginTick p).closing p run).answers }
  | .receive bytes => some { t with machine := t.machine.mapLink (·.push bytes) }
  | .service => some { t with
      machine := t.machine.service.machine
      replies := t.replies ++ t.machine.answers }
  | .collect => some { t with
      machine := t.machine.mapLink fun l => l.take.2
      taken := t.taken ++ t.machine.sent }

def after (p : Peripherals σ) (t : Transcript σ) : List Turn → Option (Transcript σ)
  | [] => some t
  | turn :: more => (t.next p turn).bind fun t' => t'.after p more

end Transcript

/-! ## what is sent -/

namespace Machine

variable {p : Peripherals σ} {m : Machine σ}

/-- There is a debugger, on a link that does not break. -/
def Listening (m : Machine σ) : Prop :=
  ∃ session link, m.debugger = some ⟨session, link⟩ ∧ link.budget = none

theorem Listening.service (h : m.Listening) :
    m.service.machine.Listening ∧
      m.service.machine.sent = m.sent ++ m.answers.flatMap Reply.bytes := by
  obtain ⟨session, link, hd, hb⟩ := h
  obtain ⟨log, hp⟩ := session.pollFrom_eq m.engine.toProgram hb 0 0 #[] link.incoming
  have hs : m.service.machine.debugger = some
      ⟨(session.feedAll m.engine.toProgram 0 link.incoming).session,
        { link with
          incoming := []
          outgoing := link.outgoing ++ m.answers.flatMap Reply.bytes }⟩ := by
    unfold Machine.service answers
    rw [hd]
    dsimp only [Session.poll]
    rw [hp]
  refine ⟨⟨_, _, hs, hb⟩, ?_⟩
  unfold sent
  rw [hs, hd]
  exact Array.toList_appendList

theorem Listening.mapLink (h : m.Listening) {f : Link → Link}
    (hf : ∀ l : Link, (f l).budget = l.budget) : (m.mapLink f).Listening := by
  obtain ⟨session, link, hd, hb⟩ := h
  refine ⟨session, f link, ?_, (hf link).trans hb⟩
  unfold Machine.mapLink
  rw [hd]
  rfl

theorem sent_push (m : Machine σ) (bytes : List UInt8) :
    (m.mapLink (·.push bytes)).sent = m.sent := by
  unfold sent Machine.mapLink
  cases m.debugger <;> rfl

theorem sent_take (m : Machine σ) : (m.mapLink fun l => l.take.2).sent = [] := by
  unfold sent Machine.mapLink
  cases m.debugger <;> rfl

theorem Listening.conclude (h : m.Listening) (result : Except Fault Outcome) :
    (m.conclude result).1.Listening ∧
      (m.conclude result).1.sent = m.sent ++ (completion result).flatMap Reply.bytes := by
  rcases result with f | o
  · exact ⟨h, (List.append_nil _).symm⟩
  · cases o with
    | idle => exact ⟨h, (List.append_nil _).symm⟩
    | running => exact ⟨h, (List.append_nil _).symm⟩
    | suspended => exact ⟨h, (List.append_nil _).symm⟩
    | terminated vs =>
      obtain ⟨session, link, hd, hb⟩ := h
      have hsend : link.send (Reply.completed vs).bytes =
          .ok { link with outgoing := link.outgoing ++ (Reply.completed vs).bytes } := by
        rw [Link.send, hb]
      have hf : (m.finish vs).1.debugger = some
          ⟨session, { link with outgoing := link.outgoing ++ (Reply.completed vs).bytes }⟩ := by
        unfold Machine.finish
        dsimp only
        rw [hd]
        dsimp only [Session.report]
        rw [hsend]
      refine ⟨⟨session, _, hf, hb⟩, ?_⟩
      show (m.finish vs).1.sent = _
      unfold sent
      rw [hf, hd]
      simp [completion]

end Machine

/-! ## results are few -/

/-- A program finishes with as many results as its last return says, which is a byte. -/
theorem Performs.results_lt {p : Peripherals σ} {e e' : Engine σ} {next : Nat} {i : Instruction}
    {o : Outcome} (h : Performs p e next i o e') {vs : List Value} (ho : o = .terminated vs) :
    vs.length < 256 := by
  cases h with
  | @finish n _ _ runs values outer =>
    cases ho
    rw [Thread.length_slots]
    exact n.toNat_lt
  | builtin args room does effect =>
    split at ho <;> cases ho
  | push pushes room => cases ho
  | drop one => cases ho
  | setGlobal one found => cases ho
  | setLocal runs inFrame inStack one => cases ho
  | jmp reach => cases ho
  | jz one reach => cases ho
  | call found runs provided frames room => cases ho
  | back runs values inner => cases ho

theorem Engine.run_results_lt {p : Peripherals σ} {fuel : Nat} {e : Engine σ} {log : Array Event}
    {r : Run σ} (h : e.run p fuel log = some r) {vs : List Value}
    (hr : r.result = .ok (.terminated vs)) : vs.length < 256 := by
  induction fuel generalizing e log with
  | zero => cases h
  | succ fuel ih =>
    rcases hs : e.step p with ⟨result, e₁⟩
    rw [Engine.run, hs] at h
    split at h
    · exact ih h
    · next heq =>
      cases heq
      cases h
      cases hr
      rcases Engine.step_ok_iff.mp hs with ⟨-, ho, -⟩ | ⟨-, i, -, hp⟩
      · cases ho
      · exact hp.results_lt rfl

theorem completion_tellable {p : Peripherals σ} {fuel : Nat} {e : Engine σ} {log : Array Event}
    {run : Run σ} (h : e.run p fuel log = some run) :
    ∀ r ∈ completion run.result, r.Tellable := by
  intro r hr
  unfold completion at hr
  split at hr
  · next vs hvs =>
    rw [List.mem_singleton.mp hr]
    exact Engine.run_results_lt h hvs
  · cases hr

theorem Machine.answers_tellable (m : Machine σ) : ∀ r ∈ m.answers, r.Tellable := by
  unfold answers
  split
  · intro r hr
    cases hr
  · exact Session.feedAll_tellable _ _ _ _

/-! ## transcripts are kept -/

namespace Transcript

variable {p : Peripherals σ} {t t' : Transcript σ}

/-- What was sent are the bytes of the replies, and these can be told. -/
structure Kept (t : Transcript σ) : Prop where
  listening : t.machine.Listening
  bytes : t.bytes = t.replies.flatMap Reply.bytes
  tellable : ∀ r ∈ t.replies, r.Tellable

theorem Kept.more (h : t.Kept) {m : Machine σ} {rs : List Reply} (hl : m.Listening)
    (hs : m.sent = t.machine.sent ++ rs.flatMap Reply.bytes) (hr : ∀ r ∈ rs, r.Tellable) :
    Kept { t with machine := m, replies := t.replies ++ rs } where
  listening := hl
  bytes := by
    have hb := h.bytes
    unfold Transcript.bytes at hb ⊢
    rw [hs, ← List.append_assoc, hb, List.flatMap_append]
  tellable r hm := by
    rcases List.mem_append.mp hm with hm | hm
    · exact h.tellable r hm
    · exact hr r hm

theorem Kept.tick (h : t.Kept) {fuel : Nat} (ht : t.next p (.tick fuel) = some t') : t'.Kept := by
  simp only [next, Machine.tick, Option.bind_eq_bind, Option.bind_eq_some_iff,
    Option.map_eq_some_iff, Option.pure_def, Option.some.injEq] at ht
  obtain ⟨_, ⟨run, hrun, rfl⟩, run', hrun', rfl⟩ := ht
  cases hrun.symm.trans hrun'
  have hlistening : (({ t.machine.beginTick p with engine := run.engine } : Machine σ).mapDevices
      p.frameEnd).Listening := h.listening
  obtain ⟨hc, hcs⟩ := hlistening.conclude run.result
  obtain ⟨hl, hs⟩ := hc.service
  rw [List.append_assoc]
  refine h.more hl ?_ ?_
  · rw [List.flatMap_append, ← List.append_assoc]
    exact hs.trans (congrArg (· ++ _) hcs)
  · intro r hr
    rcases List.mem_append.mp hr with hr | hr
    · exact completion_tellable hrun r hr
    · exact Machine.answers_tellable _ r hr

theorem Kept.next (h : t.Kept) {turn : Turn} (ht : t.next p turn = some t') : t'.Kept := by
  cases turn with
  | tick fuel => exact h.tick ht
  | receive bytes =>
    cases ht
    refine ⟨h.listening.mapLink fun l => rfl, ?_, h.tellable⟩
    rw [← h.bytes]
    exact congrArg (t.taken ++ ·) (Machine.sent_push t.machine bytes)
  | service =>
    cases ht
    obtain ⟨hl, hs⟩ := h.listening.service
    exact h.more hl hs (Machine.answers_tellable _)
  | collect =>
    cases ht
    refine ⟨h.listening.mapLink fun l => rfl, ?_, h.tellable⟩
    rw [← h.bytes]
    show t.taken ++ t.machine.sent ++ _ = _
    rw [Machine.sent_take, List.append_nil]
    rfl

theorem Kept.after (h : t.Kept) {turns : List Turn} (ht : t.after p turns = some t') :
    t'.Kept := by
  induction turns generalizing t with
  | nil =>
    cases ht
    exact h
  | cons turn more ih =>
    obtain ⟨t₁, hn, hrest⟩ := Option.bind_eq_some_iff.mp ht
    exact ih (h.next hn) hrest

end Transcript

/-! ## what a receiver finds -/

/-- A receiver finds a reply that can be told, aborts nothing, and goes on after it. -/
theorem Reply.collect_bytes {r : Reply} (hr : r.Tellable) (rest : List UInt8) :
    collect [] (Decoder.inFrame.pushAll (r.bytes ++ rest)).2 =
        (r.body :: (collect [] (Decoder.inFrame.pushAll rest).2).1,
          (collect [] (Decoder.inFrame.pushAll rest).2).2) ∧
      (Signal.abort ∈ (Decoder.inFrame.pushAll (r.bytes ++ rest)).2 ↔
        Signal.abort ∈ (Decoder.inFrame.pushAll rest).2) := by
  cases r with
  | hello => exact ⟨Decoder.collect_pushAll_frame _ _ _, Decoder.abort_mem_pushAll_frame _ _⟩
  | refused op why =>
    exact ⟨Decoder.collect_pushAll_frame _ _ _, Decoder.abort_mem_pushAll_frame _ _⟩
  | completed vs =>
    exact ⟨Decoder.collect_pushAll_frame _ _ _, Decoder.abort_mem_pushAll_frame _ _⟩
  | ack op =>
    -- neither framed nor stuffed: the letter is received as it is, and the delimiter ends a frame
    have hsignals : (Decoder.inFrame.pushAll ((Reply.ack op).bytes ++ rest)).2 =
        .byte op :: .done :: (Decoder.inFrame.pushAll rest).2 := by
      rcases hr with rfl | rfl | rfl <;> rfl
    rw [hsignals]
    exact ⟨rfl, by simp⟩

theorem Reply.collect_flatMap_bytes {rs : List Reply} (hr : ∀ r ∈ rs, r.Tellable) :
    collect [] (Decoder.inFrame.pushAll (rs.flatMap Reply.bytes)).2 = (rs.map Reply.body, []) ∧
      Signal.abort ∉ (Decoder.inFrame.pushAll (rs.flatMap Reply.bytes)).2 := by
  induction rs with
  | nil => exact ⟨rfl, List.not_mem_nil⟩
  | cons r rs ih =>
    obtain ⟨hc, ha⟩ := ih fun r hm => hr r (List.mem_cons_of_mem _ hm)
    obtain ⟨hcr, har⟩ := Reply.collect_bytes (hr r List.mem_cons_self) (rs.flatMap Reply.bytes)
    rw [List.flatMap_cons, hcr, har, hc]
    exact ⟨rfl, ha⟩

inductive Reply.Spelled : Reply → List UInt8 → Prop where
  | hello : Spelled .hello [0x68, 0x53, 0x54, 0x41, 0x4B]
  | ack (op : UInt8) : Spelled (.ack op) [op]
  | refused (op : UInt8) (why : Refusal) : Spelled (.refused op why) [0x65, op, why.code]
  /-- The number of the results, and the results with the low byte of each first. -/
  | completed {vs : List Value} {k : UInt8} (count : k.toNat = vs.length)
    (values : Value.ofByteList (vs.flatMap Value.bytes) = vs) :
    Spelled (.completed vs) (0x63 :: k :: vs.flatMap Value.bytes)

theorem Reply.spelled_body {r : Reply} (hr : r.Tellable) : r.Spelled r.body := by
  cases r with
  | hello => exact .hello
  | ack op => exact .ack op
  | refused op why => exact .refused op why
  | completed vs =>
    refine .completed ?_ (Value.ofByteList_flatMap_bytes vs)
    rw [UInt8.toNat_ofNat', Nat.mod_eq_of_lt hr]

namespace Transcript

/-- **All replies are found.**  Whatever ticks and bytes come in whatever order, in the bytes that a
debug machine sends a receiver that has seen one delimiter finds, apart from empty frames, the
replies of the machine in their order and nothing else, and no frame is aborted.  A completed
program is told of with the number of its results and the results. -/
theorem replies_found (p : Peripherals σ) (devices : σ) (turns : List Turn) {t : Transcript σ}
    (h : Transcript.after p ⟨Machine.debug devices {}, [], []⟩ turns = some t) :
    let signals := (Decoder.inFrame.pushAll t.bytes).2
    Signal.abort ∉ signals ∧ (collect [] signals).2 = [] ∧
      List.Forall₂ Reply.Spelled t.replies (collect [] signals).1 := by
  have hbegin : Kept ⟨Machine.debug devices {}, [], []⟩ :=
    ⟨⟨{}, {}, rfl, rfl⟩, rfl, fun r hr => by cases hr⟩
  have hkept := hbegin.after h
  obtain ⟨hc, ha⟩ := Reply.collect_flatMap_bytes hkept.tellable
  rw [hkept.bytes]
  dsimp only
  rw [hc]
  refine ⟨ha, rfl, ?_⟩
  rw [List.forall₂_map_right_iff, List.forall₂_same]
  exact fun r hr => Reply.spelled_body (hkept.tellable r hr)

/-- A debugger says hello, loads a program that returns 0x7E7D, starts it, and then asks for a
routine with a wrong number of arguments.  In between it takes what it was told. -/
def chatting : List Turn :=
  [.receive Command.hello.encode, .service,
    .receive (frame ((Command.writeMem 0 0 5).body ++ [0, 0x7D, 0x7E, 0x0D, 1])),
    .receive (Command.beginExec 0 0).encode, .tick 1, .collect,
    .receive (Command.beginExec 255 1).encode, .tick 5, .tick 5]

theorem replies_found_chatting :
    ∃ t, Transcript.after Engine.silent ⟨Machine.debug () {}, [], []⟩ chatting = some t ∧
      t.replies = [.hello, .ack 0x77, .ack 0x78, .completed [0x7E7D],
        .refused 0x78 (.argumentCount 255 0 1)] ∧
      Signal.abort ∉ (Decoder.inFrame.pushAll t.bytes).2 ∧
      List.Forall₂ Reply.Spelled t.replies (collect [] (Decoder.inFrame.pushAll t.bytes).2).1 := by
  have h : (Transcript.after Engine.silent ⟨Machine.debug () {}, [], []⟩ chatting).map
      Transcript.replies = some [.hello, .ack 0x77, .ack 0x78, .completed [0x7E7D],
        .refused 0x78 (.argumentCount 255 0 1)] := by decide +kernel
  obtain ⟨t, ht, hr⟩ := Option.map_eq_some_iff.mp h
  obtain ⟨ha, -, hf⟩ := replies_found Engine.silent () chatting ht
  exact ⟨t, ht, hr, ha, hf⟩

end Transcript
end TickMachine
