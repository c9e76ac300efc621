import TickMachine.Proofs.Confinement

/-!
# Commands in a buffer of fixed size

A session keeps what has come in of a command as a list.  A *buffered* session keeps it in a buffer
of fixed size, with the number of bytes in use, and reaches buffer and segments only within their
bounds: outside of them it traps.  It traps too where a session is prepared for what does not
happen, namely that a byte of a memory write has no place, that a complete header is none, and that
a memory write waits for the end of its frame.  On everything that can happen the two agree.  So no
session relies on how accesses out of bounds are defined, and none of the three ever happens.

* `Buffered`   the session with a buffer, and `Buffered.view`, the session it stands for;
* `Buffered.feed?`   one byte, with `body?`, `put?`, `Image.claim?` and `Image.poke?` as the only
                       ways to reach the stores;
* `Session.Regular`   what does not happen;
* `Buffered.feed?_agrees`, `Buffered.after?_agrees`   the buffered session does not trap, and does
                       what the session does;
* `Situation.writes_confined`   the bounds of sessions and of what they write.
-/

namespace TickMachine

variable {σ : Type}

/-! ## what can trap -/

namespace Image

/-- Claim a window, which then has to lie in the segment. -/
def claim? (img : Image) (s : Segment) (offset len : Nat) : Option (Except Refusal Image) :=
  match img.reserve s offset len with
  | .ok img' => if offset + len ≤ (img'.segment s).size then some (.ok img') else none
  | .error why => some (.error why)

def poke? (img : Image) (s : Segment) (i : Nat) (b : UInt8) : Option Image :=
  if i < (img.segment s).size then some (img.poke s i b) else none

theorem claim?_eq (img : Image) (s : Segment) (offset len : Nat) :
    img.claim? s offset len = some (img.reserve s offset len) := by
  unfold claim?
  cases hr : img.reserve s offset len with
  | error why => rfl
  | ok img' =>
    dsimp only
    rw [if_pos]
    rw [segment_reserve hr]
    exact le_of_reserve hr

theorem poke?_eq {img : Image} {s : Segment} {i : Nat} (h : i < (img.segment s).size) (b : UInt8) :
    img.poke? s i b = some (img.poke s i b) := if_pos h

end Image

/-- The phase of a buffered session.  The bytes of a command are in its buffer. -/
inductive Stage where
  | idle
  | receiving
  | writing (w : Write)
  | refused (op : UInt8) (why : Refusal)
  | discarding

/-- The phase of a session in this stage, which has collected `body`. -/
def Stage.phase (body : List UInt8) : Stage → Phase
  | .idle => .idle
  | .receiving => .receiving body
  | .writing w => .writing w
  | .refused op why => .refused op why
  | .discarding => .discarding

structure Buffered where
  decoder : Decoder := .searching
  stage : Stage := .idle
  bytes : Vector UInt8 Command.bufferSize := Vector.replicate Command.bufferSize 0
  /-- The number of bytes in use. -/
  used : Nat := 0

structure BufferedFed where
  session : Buffered
  program : Program
  reply : Option Reply := none
  events : List Event := []

namespace Buffered

def first (k : Buffered) : UInt8 := k.bytes.get ⟨0, by decide⟩

def body? (k : Buffered) : Option (List UInt8) :=
  if k.used ≤ Command.bufferSize then some (k.bytes.toList.take k.used) else none

def put? (k : Buffered) (b : UInt8) : Option Buffered :=
  if h : k.used < Command.bufferSize then
    some { k with bytes := k.bytes.set k.used b h, used := k.used + 1 }
  else
    none

/-! ## taking bytes -/

def beginWrite? (k : Buffered) (img : Image) : Option (Stage × Image × List Event) := do
  match Command.parse? (← k.body?) with
  | some (.writeMem id offset count) =>
    let begun := Event.writeBegun id offset.toNat count.toNat
    let refused := fun why =>
      (Stage.refused Command.writeMemOp why, img, [begun, .writeRefused why])
    match Segment.ofId id with
    | .error why => return refused why
    | .ok s =>
      match ← img.claim? s offset.toNat count.toNat with
      | .error why => return refused why
      | .ok img =>
        return (.writing ⟨s, offset.toNat, offset.toNat + count.toNat, count.toNat, 0⟩, img,
          [begun])
  | _ => none

def onByte? (k : Buffered) (p : Program) (b : UInt8) : Option BufferedFed :=
  match k.stage with
  | .idle =>
    if Command.isKnown b then
      some ⟨{ k with stage := .receiving, bytes := k.bytes.set 0 b (by decide), used := 1 }, p,
        none, []⟩
    else
      some ⟨{ k with stage := .discarding }, p, none, [.frameDiscarded b]⟩
  | .receiving =>
    if Command.bufferSize ≤ k.used then
      some ⟨{ k with decoder := .searching, stage := .idle, used := 0 }, p, none,
        [.commandOverflow Command.bufferSize]⟩
    else do
      let k ← k.put? b
      if k.first = Command.writeMemOp ∧ k.used = Command.writeMemHeaderSize then
        let (stage, img, events) ← k.beginWrite? p.image
        return ⟨{ k with stage := stage }, { p with image := img }, none, events⟩
      else
        return ⟨k, p, none, []⟩
  | .writing w =>
    if w.cursor < w.stop then do
      match ← p.image.claim? w.segment w.cursor 1 with
      | .error _ => none
      | .ok img =>
        return ⟨{ k with stage := .writing { w with cursor := w.cursor + 1 } },
          { p with image := ← img.poke? w.segment w.cursor b }, none, []⟩
    else
      some ⟨{ k with stage := .writing { w with excess := w.excess + 1 } }, p, none, []⟩
  | .refused .. | .discarding => some ⟨k, p, none, []⟩

/-- The session that a buffered one stands for. -/
def view (k : Buffered) : Session := ⟨k.decoder, k.stage.phase (k.bytes.toList.take k.used)⟩

/-- The buffered session after `fed`, in which its buffer has no part. -/
def follow (k : Buffered) (fed : Fed) : BufferedFed := ⟨k, fed.program, fed.reply, fed.events⟩

def dispatch? (k : Buffered) (p : Program) : Option BufferedFed := do
  let body ← k.body?
  match Command.parse? body, body with
  | some (.writeMem ..), _ => none
  -- what is no command is reported by its first byte
  | none, [] => none
  | _, _ => return k.follow (k.view.dispatch p body)

def onDone? (k : Buffered) (p : Program) : Option BufferedFed :=
  let idle := { k with stage := .idle }
  match k.stage with
  | .receiving => idle.dispatch? p
  | _ => some (idle.follow (k.view.onDone p))

def feed? (k : Buffered) (p : Program) (b : UInt8) : Option BufferedFed :=
  let (decoder, signal) := k.decoder.push b
  let k := { k with decoder := decoder }
  match signal with
  | .none => some ⟨k, p, none, []⟩
  | .byte b => k.onByte? p b
  | .done => k.onDone? p
  | .abort => some ({ k with stage := .idle }.follow (k.view.onAbort p))

end Buffered

def BufferedFed.view (t : BufferedFed) : Fed := ⟨t.session.view, t.program, t.reply, t.events⟩

/-! ## what does not happen -/

theorem Command.parse?_header {header : List UInt8} (hop : header.head? = some writeMemOp)
    (hlen : header.length = writeMemHeaderSize) :
    ∃ id offset count, parse? header = some (.writeMem id offset count) := by
  match header, hlen with
  | [a, id, o₀, o₁, n₀, n₁], _ =>
    cases hop
    exact ⟨id, word o₀ o₁, word n₀ n₁, rfl⟩

/-- Three things for which a session is prepared do not happen: that the next byte of a memory
write has no place in its segment, that a complete header is none, and that a memory write waits
for the end of its frame. -/
structure Session.Regular (s : Session) (img : Image) : Prop where
  placed : ∀ w, s.phase = .writing w → w.cursor < w.stop →
    ∃ img', img.reserve w.segment w.cursor 1 = .ok img'
  parsed : ∀ body b, s.phase = .receiving body →
    (body ++ [b]).head? = some Command.writeMemOp →
    (body ++ [b]).length = Command.writeMemHeaderSize →
    ∃ id offset count, Command.parse? (body ++ [b]) = some (.writeMem id offset count)
  dispatched : ∀ body, s.phase = .receiving body → ∀ id offset count,
    Command.parse? body ≠ some (.writeMem id offset count)

theorem Command.Partial.parse?_ne {body : List UInt8} (h : Command.Partial body) (id : UInt8)
    (offset count : UInt16) : Command.parse? body ≠ some (.writeMem id offset count) := by
  intro hc
  obtain ⟨-, -, op, hop, -, hlt⟩ := h
  have hbody := Command.body_of_parse? hc
  subst hbody
  cases hop
  exact absurd (hlt rfl) (Nat.lt_irrefl _)

theorem Write.Bounded.placed {w : Write} {img : Image} (h : w.Bounded img)
    (more : w.cursor < w.stop) :
    img.reserve w.segment w.cursor 1 = .ok (img.patch w.segment w.cursor 1 []) :=
  Image.reserve_eq img (Nat.le_trans more h.stop_le)

theorem Session.regular_of_bounded {s : Session} {img : Image} (h : s.phase.Bounded img) :
    s.Regular img where
  placed w hw more := by
    rw [hw] at h
    exact ⟨_, Write.Bounded.placed h more⟩
  parsed _ _ _ hop hlen := Command.parse?_header hop hlen
  dispatched body hbody := by
    rw [hbody] at h
    exact Command.Partial.parse?_ne h

/-! ## agreement -/

namespace Buffered

variable {k : Buffered} {p : Program}

/-- The buffered session has not trapped, and has done what the session did. -/
def Agrees (t? : Option BufferedFed) (fed : Fed) : Prop :=
  ∃ t, t? = some t ∧ t.view = fed ∧ t.session.used ≤ Command.bufferSize

theorem view_of_stage {stage : Stage} (h : k.stage = stage) :
    k.view = ⟨k.decoder, stage.phase (k.bytes.toList.take k.used)⟩ := by
  rw [← h]
  rfl

theorem body?_eq (h : k.used ≤ Command.bufferSize) :
    k.body? = some (k.bytes.toList.take k.used) := if_pos h

theorem length_take (h : k.used ≤ Command.bufferSize) :
    (k.bytes.toList.take k.used).length = k.used := by
  rw [List.length_take, Vector.length_toList, Nat.min_eq_left h]

theorem head?_take (h : 1 ≤ k.used) : (k.bytes.toList.take k.used).head? = some k.first := by
  rw [List.head?_take, if_neg (by omega), List.head?_eq_getElem?, Vector.getElem?_toList]
  rfl

theorem collecting {img : Image} (h : k.view.phase.Bounded img) (hu : k.used ≤ Command.bufferSize)
    (hs : k.stage = .receiving) :
    1 ≤ k.used ∧ Command.isKnown k.first ∧
      (k.first = Command.writeMemOp → k.used < Command.writeMemHeaderSize) := by
  rw [view_of_stage hs] at h
  obtain ⟨hpos, -, op, hop, hknown, hshort⟩ := h
  rw [length_take hu] at hpos hshort
  rw [head?_take hpos] at hop
  cases hop
  exact ⟨hpos, hknown, hshort⟩

theorem take_set (bytes : Vector UInt8 Command.bufferSize) {n : Nat} (h : n < Command.bufferSize)
    (b : UInt8) : (bytes.set n b h).toList.take (n + 1) = bytes.toList.take n ++ [b] := by
  have hlen : n < bytes.toList.length := by rw [Vector.length_toList]; exact h
  rw [Vector.toList_set, List.take_add_one, List.take_set_of_le (Nat.le_refl _),
    List.getElem?_set_self hlen]
  rfl

theorem put?_eq (h : k.used < Command.bufferSize) (b : UInt8) :
    ∃ k', k.put? b = some k' ∧ k'.decoder = k.decoder ∧ k'.stage = k.stage ∧
      k'.used = k.used + 1 ∧ k'.bytes.toList.take k'.used = k.bytes.toList.take k.used ++ [b] :=
  ⟨_, dif_pos h, rfl, rfl, rfl, take_set k.bytes h b⟩

theorem beginWrite?_eq (h : k.used ≤ Command.bufferSize) (img : Image) {id : UInt8}
    {offset count : UInt16}
    (hp : Command.parse? (k.bytes.toList.take k.used) = some (.writeMem id offset count)) :
    ∃ stage img' events, k.beginWrite? img = some (stage, img', events) ∧
      ∀ body, Session.beginWrite img (k.bytes.toList.take k.used) =
        (stage.phase body, img', events) := by
  unfold beginWrite? Session.beginWrite
  rw [body?_eq h]
  simp only [Option.bind_eq_bind, Option.bind_some, hp]
  cases hs : Segment.ofId id with
  | error why => exact ⟨_, _, _, rfl, fun _ => rfl⟩
  | ok s =>
    simp only [Image.claim?_eq, Option.bind_some, bind, Except.bind]
    cases hr : img.reserve s offset.toNat count.toNat with
    | error why => exact ⟨_, _, _, rfl, fun _ => rfl⟩
    | ok img' => exact ⟨_, _, _, rfl, fun _ => rfl⟩

/-! ### a payload byte -/

theorem onByte?_receiving (hs : k.stage = .receiving) (hu : k.used ≤ Command.bufferSize)
    (b : UInt8) : Agrees (k.onByte? p b) (k.view.onByte p b) := by
  rw [view_of_stage hs]
  unfold onByte? Session.onByte
  rw [hs]
  dsimp only [Stage.phase]
  rw [length_take hu]
  by_cases hfull : Command.bufferSize ≤ k.used
  · rw [if_pos hfull, if_pos hfull]
    exact ⟨_, rfl, rfl, Nat.zero_le _⟩
  rw [if_neg hfull, if_neg hfull]
  obtain ⟨k', hput, hd, hs', hused, htake⟩ := put?_eq (Nat.lt_of_not_le hfull) b
  have hu' : k'.used ≤ Command.bufferSize := by omega
  have hhead : (k.bytes.toList.take k.used ++ [b]).head? = some k'.first := by
    rw [← htake]
    exact head?_take (by omega)
  have hlen : (k.bytes.toList.take k.used ++ [b]).length = k'.used := by
    rw [← htake]
    exact length_take hu'
  rw [hput, Option.bind_eq_bind, Option.bind_some, hhead, hlen]
  by_cases hw : k'.first = Command.writeMemOp ∧ k'.used = Command.writeMemHeaderSize
  · rw [if_pos hw, if_pos ⟨congrArg some hw.1, hw.2⟩, ← htake]
    obtain ⟨id, offset, count, hp⟩ := Command.parse?_header
      (by rw [htake, hhead, hw.1]) ((length_take hu').trans hw.2)
    obtain ⟨stage, img', events, hbegin, hsame⟩ := beginWrite?_eq hu' p.image hp
    rw [hbegin, hsame (k'.bytes.toList.take k'.used), ← hd]
    exact ⟨_, rfl, rfl, hu'⟩
  · rw [if_neg hw, if_neg fun h => hw ⟨Option.some.inj h.1, h.2⟩, ← htake, ← hd]
    refine ⟨_, rfl, ?_, hu'⟩
    show (⟨k'.view, p, none, []⟩ : Fed) = _
    rw [view_of_stage (hs'.trans hs)]
    rfl

theorem onByte?_writing {w : Write} (hs : k.stage = .writing w) (hw : w.Bounded p.image)
    (hu : k.used ≤ Command.bufferSize) (b : UInt8) :
    Agrees (k.onByte? p b) (k.view.onByte p b) := by
  rw [view_of_stage hs]
  unfold onByte? Session.onByte Session.store
  rw [hs]
  dsimp only [Stage.phase]
  by_cases more : w.cursor < w.stop
  · have hplaced := hw.placed more
    have hin : w.cursor < ((p.image.patch w.segment w.cursor 1 []).segment w.segment).size := by
      rw [Image.size_segment_patch]
      exact Nat.lt_of_lt_of_le more hw.stop_le
    rw [if_pos more, if_pos more, Image.claim?_eq, hplaced]
    simp only [Option.bind_eq_bind, Option.bind_some, Image.poke?_eq hin]
    exact ⟨_, rfl, rfl, hu⟩
  · rw [if_neg more, if_neg more]
    exact ⟨_, rfl, rfl, hu⟩

theorem onByte?_agrees (h : k.view.phase.Bounded p.image) (hu : k.used ≤ Command.bufferSize)
    (b : UInt8) : Agrees (k.onByte? p b) (k.view.onByte p b) := by
  cases hs : k.stage with
  | receiving => exact onByte?_receiving hs hu b
  | writing w =>
    rw [view_of_stage hs] at h
    exact onByte?_writing hs h hu b
  | idle =>
    rw [view_of_stage hs]
    unfold onByte? Session.onByte
    rw [hs]
    dsimp only [Stage.phase]
    by_cases hk : Command.isKnown b
    · rw [if_pos hk, if_pos hk]
      have hone := take_set k.bytes (n := 0) (by decide) b
      refine ⟨_, rfl, ?_, Nat.succ_le_of_lt (by decide)⟩
      exact congrArg (fun body => Fed.mk ⟨k.decoder, .receiving body⟩ p none []) hone
    · rw [if_neg hk, if_neg hk]
      exact ⟨_, rfl, rfl, hu⟩
  | refused op why | discarding =>
    rw [view_of_stage hs]
    unfold onByte? Session.onByte
    rw [hs]
    refine ⟨_, rfl, ?_, hu⟩
    show (⟨k.view, p, none, []⟩ : Fed) = _
    rw [view_of_stage hs]
    rfl

/-! ### the end of a frame -/

theorem follow_agrees {fed : Fed} (h : fed.session = k.view) (hu : k.used ≤ Command.bufferSize) :
    Agrees (some (k.follow fed)) fed := by
  refine ⟨_, rfl, ?_, hu⟩
  show (⟨k.view, fed.program, fed.reply, fed.events⟩ : Fed) = fed
  rw [← h]

theorem dispatch?_agrees (h : Command.Partial (k.bytes.toList.take k.used))
    (hu : k.used ≤ Command.bufferSize) :
    Agrees (k.dispatch? p) (k.view.dispatch p (k.bytes.toList.take k.used)) := by
  unfold dispatch?
  rw [body?_eq hu, Option.bind_eq_bind, Option.bind_some]
  have hfollow := follow_agrees (Session.session_dispatch k.view p (k.bytes.toList.take k.used)) hu
  have hpos := h.1
  have hother := h.parse?_ne
  generalize k.bytes.toList.take k.used = body at hpos hother hfollow ⊢
  cases hc : Command.parse? body with
  | none =>
    cases body with
    | nil => cases hpos
    | cons b rest => exact hfollow
  | some c =>
    cases c with
    | writeMem id offset count => exact absurd hc (hother id offset count)
    | hello | reset | beginExec routine nargs => exact hfollow

theorem onDone?_agrees (h : k.view.phase.Bounded p.image) (hu : k.used ≤ Command.bufferSize) :
    Agrees (k.onDone? p) (k.view.onDone p) := by
  have hidle := Session.session_onDone k.view p
  cases hs : k.stage with
  | receiving =>
    rw [view_of_stage hs] at h ⊢
    unfold onDone? Session.onDone
    rw [hs]
    exact dispatch?_agrees (k := { k with stage := .idle }) h hu
  | idle | writing w | refused op why | discarding =>
    unfold onDone?
    rw [hs]
    exact follow_agrees hidle hu

/-- **A buffered session that keeps its bounds does not trap,** and does what the session does. -/
theorem feed?_agrees (h : k.view.phase.Bounded p.image) (hu : k.used ≤ Command.bufferSize)
    (b : UInt8) : Agrees (k.feed? p b) (k.view.feed p b) := by
  unfold feed? Session.feed
  rw [show k.view.decoder = k.decoder from rfl]
  rcases k.decoder.push b with ⟨decoder, signal⟩
  cases signal with
  | none => exact ⟨_, rfl, rfl, hu⟩
  | byte c => exact onByte?_agrees (k := { k with decoder := decoder }) h hu c
  | done => exact onDone?_agrees (k := { k with decoder := decoder }) h hu
  | abort => exact follow_agrees rfl hu

-- a window that reaches beyond the globals: the bounds are what keeps a session from traps
example : (feed? { decoder := .inFrame, stage := .writing ⟨.globals, 5, 9, 4, 0⟩ }
    ⟨.ofParts [] [0, 0] [] 0, Thread.idle⟩ 7).isNone := by decide +kernel

/-! ## along everything that can happen -/

/-- What happens to an engine with a buffered session.  Of the things that can happen only bytes
concern the session. -/
def next? (p : Peripherals σ) (x : Engine σ × Buffered) : Happening σ → Option (Engine σ × Buffered)
  | .byte b =>
    (x.2.feed? x.1.toProgram b).map fun fed => ({ x.1 with toProgram := fed.program }, fed.session)
  | a => some ((Situation.next p ⟨x.1, x.2.view⟩ a).engine, x.2)

def after? (p : Peripherals σ) (x : Engine σ × Buffered) (hs : List (Happening σ)) :
    Option (Engine σ × Buffered) :=
  hs.foldlM (next? p) x

theorem next?_agrees (p : Peripherals σ) {e : Engine σ} {k : Buffered}
    (h : k.view.phase.Bounded e.image) (hu : k.used ≤ Command.bufferSize) (a : Happening σ) :
    ∃ k', next? p (e, k) a = some (((Situation.mk e k.view).next p a).engine, k') ∧
      k'.view = ((Situation.mk e k.view).next p a).session ∧ k'.used ≤ Command.bufferSize := by
  cases a with
  | byte b =>
    obtain ⟨t, ht, hview, hused⟩ := feed?_agrees h hu b
    have hprogram : t.program = (k.view.feed e.toProgram b).program := congrArg Fed.program hview
    refine ⟨t.session, ?_, congrArg Fed.session hview, hused⟩
    show (k.feed? e.toProgram b).map _ = some ({ e with toProgram := _ }, _)
    rw [ht, ← hprogram]
    rfl
  | step | tick | stop | devices d => exact ⟨k, rfl, rfl, hu⟩

theorem after?_agrees (p : Peripherals σ) {img : Image} {stream : List UInt8} {e : Engine σ}
    {k : Buffered} (h : Situation.Tracks img stream ⟨e, k.view⟩) (hu : k.used ≤ Command.bufferSize)
    (hs : List (Happening σ)) :
    ∃ k', after? p (e, k) hs = some (((Situation.mk e k.view).after p hs).engine, k') ∧
      k'.view = ((Situation.mk e k.view).after p hs).session ∧ k'.used ≤ Command.bufferSize := by
  induction hs generalizing e k stream with
  | nil => exact ⟨k, rfl, rfl, hu⟩
  | cons a hs ih =>
    obtain ⟨k₁, hnext, hview, hused⟩ := next?_agrees p h.bounded hu a
    have htracks := h.next (p := p) a
    have hsituation : (Situation.mk e k.view).next p a =
        ⟨((Situation.mk e k.view).next p a).engine, k₁.view⟩ := by rw [hview]
    rw [hsituation] at htracks
    have hrest := ih htracks hused
    rw [← hsituation] at hrest
    unfold after? at hrest ⊢
    rw [List.foldlM_cons, hnext]
    exact hrest

end Buffered

/-! ## bounds -/

namespace Situation

/-- **Where sessions stay, and where they write.**  Let anything happen to an engine with a fresh
session.  A session with a buffer of fixed size comes along without a trap, and while it collects a
command the buffer holds some bytes of a known command that is not a complete header.  The session
keeps its bounds, and three things for which it is prepared do not happen.  Of the image, main
routine and sizes of the segments are what they were, and the code is no shorter and within the
bytecode.  And the next byte, whatever it is, changes at most one byte of the image, which lies in
the segment and in the window that the frame has announced. -/
theorem writes_confined (p : Peripherals σ) (e : Engine σ) (hs : List (Happening σ)) :
    let s := (Situation.mk e {}).after p hs
    let img := s.engine.image
    (∃ k, Buffered.after? p (e, {}) hs = some (s.engine, k) ∧ k.view = s.session ∧
      (k.stage = .receiving → 1 ≤ k.used ∧ k.used ≤ 32 ∧ Command.isKnown k.first ∧
        (k.first = Command.writeMemOp → k.used < 6))) ∧
    s.session.phase.Bounded img ∧ s.session.Regular img ∧ e.image.Grown img ∧
    img.length ≤ (e.image.segment .bytecode).size ∧
    ∀ b : UInt8,
      let img' := (s.session.feed s.engine.toProgram b).program.image
      img.Grown img' ∧
      (∀ seg i seg' i', img.DiffersAt img' seg i → img.DiffersAt img' seg' i' →
        seg = seg' ∧ i = i') ∧
      ∀ seg i, img.DiffersAt img' seg i →
        ∃ before raw id offset count data, received hs = before ++ delimiter :: raw ∧
          delimiter ∉ raw ∧ (unstuff raw).1 = (Command.writeMem id offset count).body ++ data ∧
          Segment.ofId id = .ok seg ∧ offset.toNat ≤ i ∧ i < offset.toNat + count.toNat := by
  intro s img
  have htracks : Tracks e.image (received hs) s := (tracks_fresh e).after hs
  have hbounded := htracks.bounded
  obtain ⟨k, hrun, hview, hused⟩ := Buffered.after?_agrees (k := {}) p (tracks_fresh e)
    (Nat.zero_le _) hs
  refine ⟨⟨k, hrun, hview, fun hstage => ?_⟩, hbounded, Session.regular_of_bounded hbounded,
    htracks.grown, ?_, fun b => ?_⟩
  · have hk : k.view.phase.Bounded img := by rw [hview]; exact hbounded
    obtain ⟨hpos, hknown, hshort⟩ := Buffered.collecting hk hused hstage
    exact ⟨hpos, hused, hknown, hshort⟩
  · rw [← htracks.grown.size]
    exact img.length_le
  · have htakes := Session.feed_takes s.session s.engine.toProgram b
    refine ⟨htakes.grown, fun seg i seg' i' hne hne' => ?_, fun seg i => htracks.confined⟩
    obtain ⟨w, hw, -, hseg, hi⟩ := htakes.changed hne
    obtain ⟨w', hw', -, hseg', hi'⟩ := htakes.changed hne'
    rw [hw] at hw'
    cases hw'
    exact ⟨hseg.trans hseg'.symm, hi.trans hi'.symm⟩

/-- A routine about to write the first of two globals. -/
def marking : Engine Unit where
  image := .ofParts [⟨0, 0, 0⟩] [0, 0] [0x00, 1, 0, 0x04, 0, 0x0D, 0] 0
  thread := { Thread.idle with state := .executing, routine := some 0 }
  devices := ()

/-- Between its steps, a memory write of two bytes comes in, up to the first of them. -/
def interrupting : List (Happening Unit) :=
  .byte delimiter :: ((Command.writeMem 2 1 2).body ++ [4]).flatMap fun b => [.byte b, .step]

theorem writes_confined_marking :
    let s := (Situation.mk marking {}).after Engine.silent interrupting
    let img := s.engine.image
    let img' := (s.session.feed s.engine.toProgram 5).program.image
    img.window .globals 0 4 = [1, 4, 0, 0] ∧ img.DiffersAt img' .globals 2 ∧
      (∀ seg i, img.DiffersAt img' seg i → seg = .globals ∧ i = 2) ∧
      ∃ k, Buffered.after? Engine.silent (marking, {}) interrupting = some (s.engine, k) ∧
        k.view = s.session := by
  intro s img img'
  obtain ⟨⟨k, hrun, hview, -⟩, -, -, -, -, hnext⟩ :=
    writes_confined Engine.silent marking interrupting
  obtain ⟨-, hone, -⟩ := hnext 5
  have hbyte : img.DiffersAt img' .globals 2 := by
    unfold Image.DiffersAt
    decide +kernel
  exact ⟨by decide +kernel, hbyte, fun seg i hne => hone seg i .globals 2 hne hbyte, k, hrun, hview⟩

end Situation
end TickMachine
