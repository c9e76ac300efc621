import TickMachine.Engine
import TickMachine.Event
import TickMachine.Wire.Reply

/-!
# Debug sessions

A session is the machine's side of the talk with a debugger.  It takes the bytes of the stream
one at a time, collects them into commands, applies the commands to the program and answers.
The data of a memory write are stored as they come in; all else waits for the end of the frame.

* `Session.feed`   one byte;
* `Session.feedAll`   many;
* `Session.feedAll_append`   a stream may be fed in pieces;
* `Session.poll`   all that a link has received.
-/

namespace TickMachine

structure Write where
  segment : Segment
  /-- Where the next byte goes. -/
  cursor : Nat
  /-- Where the announced bytes end. -/
  stop : Nat
  announced : Nat
  /-- How many bytes came beyond those. -/
  excess : Nat
  deriving DecidableEq, Repr

inductive Phase where
  | idle
  | receiving (body : List UInt8)
  | writing (w : Write)
  /-- The command is refused; the rest of the frame is dropped, and its end brings the answer. -/
  | refused (op : UInt8) (why : Refusal)
  /-- The frame is dropped without an answer. -/
  | discarding
  deriving DecidableEq, Repr

structure Session where
  decoder : Decoder := .searching
  phase : Phase := .idle
  deriving DecidableEq, Repr

structure Fed where
  session : Session
  program : Program
  reply : Option Reply := none
  events : List Event := []

namespace Session

/-! ## payload bytes -/

/-- Begin the memory write whose header is complete. -/
def beginWrite (img : Image) (header : List UInt8) : Phase × Image × List Event :=
  match Command.parse? header with
  | some (.writeMem id offset count) =>
    let offset := offset.toNat
    let count := count.toNat
    let begun := Event.writeBegun id offset count
    let claimed := do
      let s ← Segment.ofId id
      let img ← img.reserve s offset count
      return (s, img)
    match claimed with
    | .ok (s, img) => (.writing ⟨s, offset, offset + count, count, 0⟩, img, [begun])
    | .error why => (.refused Command.writeMemOp why, img, [begun, .writeRefused why])
  | _ => (.discarding, img, [])

/-- Store a byte of a memory write; one beyond the announced number is only counted. -/
def store (w : Write) (img : Image) (b : UInt8) : Phase × Image :=
  if w.cursor < w.stop then
    match img.reserve w.segment w.cursor 1 with
    | .ok img => (.writing { w with cursor := w.cursor + 1 }, img.poke w.segment w.cursor b)
    | .error why => (.refused Command.writeMemOp why, img)
  else
    (.writing { w with excess := w.excess + 1 }, img)

def onByte (s : Session) (p : Program) (b : UInt8) : Fed :=
  match s.phase with
  | .idle =>
    if Command.isKnown b then
      ⟨{ s with phase := .receiving [b] }, p, none, []⟩
    else
      ⟨{ s with phase := .discarding }, p, none, [.frameDiscarded b]⟩
  | .receiving body =>
    if Command.bufferSize ≤ body.length then
      ⟨{}, p, none, [.commandOverflow Command.bufferSize]⟩
    else
      let body := body ++ [b]
      if body.head? = some Command.writeMemOp ∧ body.length = Command.writeMemHeaderSize then
        let (phase, img, events) := beginWrite p.image body
        ⟨{ s with phase := phase }, { p with image := img }, none, events⟩
      else
        ⟨{ s with phase := .receiving body }, p, none, []⟩
  | .writing w =>
    let (phase, img) := store w p.image b
    ⟨{ s with phase := phase }, { p with image := img }, none, []⟩
  | .refused .. | .discarding => ⟨s, p, none, []⟩

/-! ## the end of a frame -/

/-- Start a routine for the debugger, which has to name the right number of arguments. -/
def beginExec (p : Program) (index nargs : Nat) : Except Refusal Program :=
  match p.image.routine? index with
  | none => .error (.unknownRoutine index)
  | some r =>
    if r.argc.toNat = nargs then do
      return { p with thread := ← p.thread.enter p.image index }
    else
      .error (.argumentCount index r.argc.toNat nargs)

def dispatch (s : Session) (p : Program) (body : List UInt8) : Fed :=
  match Command.parse? body with
  | none => ⟨s, p, none, [.unrecognized (body.headD 0) body.length]⟩
  | some .hello => ⟨s, p, some .hello, [.hello]⟩
  | some .reset =>
    ⟨s, { p with thread := p.thread.reset }, some (.ack Command.resetOp), [.reset]⟩
  | some (.beginExec index nargs) =>
    let begun := Event.execBegun index nargs
    match beginExec p index.toNat nargs.toNat with
    | .ok p => ⟨s, p, some (.ack Command.beginExecOp), [begun]⟩
    | .error why =>
      ⟨s, p, some (.refused Command.beginExecOp why), [begun, .execRefused why]⟩
  | some (.writeMem ..) => ⟨s, p, none, []⟩

def onDone (s : Session) (p : Program) : Fed :=
  let idle := { s with phase := .idle }
  match s.phase with
  | .idle | .discarding => ⟨idle, p, none, []⟩
  | .receiving body => dispatch idle p body
  | .writing w =>
    if 0 < w.excess then
      let why := Refusal.payloadTooLong w.announced
      ⟨idle, p, some (.refused Command.writeMemOp why), [.writeTooLong why w.excess]⟩
    else
      ⟨idle, p, some (.ack Command.writeMemOp), [.writeDone w.cursor]⟩
  | .refused op why => ⟨idle, p, some (.refused op why), []⟩

def onAbort (s : Session) (p : Program) : Fed :=
  ⟨{ s with phase := .idle }, p, none, if s.phase = .idle then [] else [.frameAborted]⟩

/-! ## the stream -/

def feed (s : Session) (p : Program) (b : UInt8) : Fed :=
  let (decoder, signal) := s.decoder.push b
  let s := { s with decoder := decoder }
  match signal with
  | .none => ⟨s, p, none, []⟩
  | .byte b => s.onByte p b
  | .done => s.onDone p
  | .abort => s.onAbort p

end Session

/-- What a byte string led to: the answers with the number of the byte that brought each. -/
structure FedAll where
  session : Session
  program : Program
  replies : List (Nat × Reply) := []
  events : List Event := []

namespace Session

/-- Take bytes one after the other, numbered from `n`. -/
def feedAll (s : Session) (p : Program) (n : Nat) : List UInt8 → FedAll
  | [] => ⟨s, p, [], []⟩
  | b :: bs =>
    let fed := s.feed p b
    let rest := fed.session.feedAll fed.program (n + 1) bs
    { rest with
      replies := (fed.reply.map fun r => (n, r)).toList ++ rest.replies
      events := fed.events ++ rest.events }

/-- A stream may be fed in pieces. -/
theorem feedAll_append (s : Session) (p : Program) (n : Nat) (xs ys : List UInt8) :
    s.feedAll p n (xs ++ ys) =
      let first := s.feedAll p n xs
      let rest := first.session.feedAll first.program (n + xs.length) ys
      ⟨rest.session, rest.program, first.replies ++ rest.replies, first.events ++ rest.events⟩ := by
  induction xs generalizing s p n with
  | nil => rfl
  | cons x xs ih =>
    have e : n + (x :: xs).length = n + 1 + xs.length := by simp; omega
    rw [e]
    simp only [List.cons_append, feedAll, ih, List.append_assoc]

end Session

structure Polled where
  session : Session
  program : Program
  link : Link
  /-- The number of bytes read, unless an answer could not be sent. -/
  result : Except LinkError Nat
  events : Array Event

namespace Session

/-- Take the given bytes, which the link received, and send the answers.  When one cannot be
sent, the rest of the bytes stays on the link. -/
def pollFrom (s : Session) (p : Program) (l : Link) (consumed : Nat) (log : Array Event) :
    List UInt8 → Polled
  | [] => ⟨s, p, { l with incoming := [] }, .ok consumed, log⟩
  | b :: bs =>
    let fed := s.feed p b
    let log := log ++ fed.events
    match fed.reply with
    | none => fed.session.pollFrom fed.program l (consumed + 1) log bs
    | some r =>
      match l.send r.bytes with
      | .ok l => fed.session.pollFrom fed.program l (consumed + 1) log bs
      | .error why => ⟨fed.session, fed.program, { l with incoming := bs }, .error why, log⟩

def poll (s : Session) (p : Program) (l : Link) : Polled := s.pollFrom p l 0 #[] l.incoming

/-- Tell the debugger the results of a finished program. -/
def report (l : Link) (results : List Value) : Except LinkError Link × List Event :=
  (l.send (Reply.completed results).bytes, [.reporting results.length])

end Session
end TickMachine
