import TickMachine.Proofs.Effects
import TickMachine.Proofs.MemoryWrites

/-!
# Where a debugger can write

A memory write is checked once, when its header is complete, and relied on while its data come in.
Between two of them anything may happen: the engine runs, frames are broken off, commands grow too
long.  How a session stands is nevertheless told by the bytes since the last delimiter and by the
sizes of the segments, which nothing ever changes.  So the bounds that were checked still hold, and
every byte that is stored lies in the window that the frame announced.

* `Image.Grown`   what may become of an image: the sizes stay, and the code gets no shorter;
* `Session.Takes`, `Session.feed_takes`   what one byte does to phase and image;
* `Session.Stands`, `Session.Stands.feed`   how a session stands after a stream, whatever happened
                       to the program meanwhile;
* `Situation.Tracks`, `Situation.Tracks.after`   all of it, along everything that can happen;
* `Phase.Bounded`, `Situation.Tracks.bounded`   the bounds of a session;
* `Situation.Tracks.confined`   a byte that changes lies in the announced window.
-/

namespace TickMachine

variable {σ : Type}

/-! ## sizes stay -/

namespace Image

/-- `img.Grown img'`: the segments of `img'` are as large as those of `img`, its main routine is the
same, and its code is no shorter. -/
structure Grown (img img' : Image) : Prop where
  size : ∀ s, (img'.segment s).size = (img.segment s).size
  main : img'.main = img.main
  length : img.length ≤ img'.length

namespace Grown

variable {img img' img'' : Image}

theorem refl (img : Image) : img.Grown img := ⟨fun _ => rfl, rfl, Nat.le_refl _⟩

theorem trans (h : img.Grown img') (h' : img'.Grown img'') : img.Grown img'' where
  size s := (h'.size s).trans (h.size s)
  main := h'.main.trans h.main
  length := Nat.le_trans h.length h'.length

end Grown

variable {img img' : Image} {s : Segment} {offset len : Nat}

theorem grown_setGlobal (img : Image) (i : Nat) (v : Value) : img.Grown (img.setGlobal i v) :=
  ⟨size_segment_setGlobal img i v, rfl, Nat.le_refl _⟩

theorem grown_poke (img : Image) (s : Segment) (i : Nat) (b : UInt8) :
    img.Grown (img.poke s i b) where
  size s' := size_segment_pokeAll img s s' i [b]
  main := by cases s <;> rfl
  length := Nat.le_of_eq (length_poke img s i b).symm

theorem le_of_reserve (h : img.reserve s offset len = .ok img') :
    offset + len ≤ (img.segment s).size := by
  unfold reserve at h
  split at h
  · assumption
  · cases h

theorem patch_of_reserve (h : img.reserve s offset len = .ok img') :
    img' = img.patch s offset len [] := by
  rw [reserve_eq img (le_of_reserve h)] at h
  exact (Except.ok.inj h).symm

theorem grown_reserve (h : img.reserve s offset len = .ok img') : img.Grown img' := by
  have hlength := length_patch img s offset len [] (le_of_reserve h)
  rw [← patch_of_reserve h] at hlength
  refine ⟨fun s' => by rw [segment_reserve h], ?_, ?_⟩
  · rw [patch_of_reserve h, main_patch]
  · rw [hlength]
    split
    · exact Nat.le_max_left ..
    · exact Nat.le_refl _

theorem le_length_of_reserve (h : img.reserve .bytecode offset len = .ok img') :
    offset + len ≤ img'.length := by
  rw [patch_of_reserve h, length_patch _ _ _ _ _ (le_of_reserve h), if_pos rfl]
  exact Nat.le_max_right ..

/-- Byte `i` of a segment is not the same in both images. -/
def DiffersAt (img img' : Image) (s : Segment) (i : Nat) : Prop :=
  (img'.segment s)[i]? ≠ (img.segment s)[i]?

theorem not_differsAt_of_eq {i : Nat} (h : img'.segment s = img.segment s) :
    ¬ img.DiffersAt img' s i := by
  intro hne
  unfold DiffersAt at hne
  rw [h] at hne
  exact hne rfl

theorem differsAt_poke {s' : Segment} {i j : Nat} {b : UInt8}
    (h : img.DiffersAt (img.poke s i b) s' j) : s' = s ∧ j = i := by
  by_cases hs : s = s'
  · subst hs
    refine ⟨rfl, ?_⟩
    by_cases hj : i = j
    · exact hj.symm
    · unfold DiffersAt at h
      rw [segment_poke, Array.getElem?_setIfInBounds_ne hj] at h
      exact absurd rfl h
  · exact absurd h (not_differsAt_of_eq (segment_poke_of_ne _ _ _ hs))

end Image

/-- A step of the engine changes nothing but the values of globals. -/
theorem Engine.step_grown (p : Peripherals σ) (e : Engine σ) :
    e.image.Grown (e.step p).2.image := by
  rcases hs : e.step p with ⟨result, e'⟩
  cases result with
  | error f =>
    have he := step_error_engine (p := p) (e := e) (f := f) (by rw [hs])
    rw [hs] at he
    rw [show e' = e from he]
    exact .refl _
  | ok o =>
    rcases step_ok_iff.mp hs with ⟨-, -, rfl⟩ | ⟨-, i, -, hp⟩
    · exact .refl _
    · rcases hp.image with ⟨himage, -⟩ | ⟨k, -, -, himage⟩
      · rw [himage]
        exact .refl _
      · rw [himage]
        exact Image.grown_setGlobal _ _ _

namespace Session

/-! ## what a byte does to phase and image -/

/-- `Takes phase img phase' img'`: how one byte may lead on.  It claims the bytes of a memory write
whose header it completes, stores a byte of one, counts a byte too many, or leaves the image alone
and begins no memory write. -/
inductive Takes : Phase → Image → Phase → Image → Prop where
  | claims {phase : Phase} {img img' : Image} {s : Segment} {offset count : Nat}
    (claimed : img.reserve s offset count = .ok img') :
    Takes phase img (.writing ⟨s, offset, offset + count, count, 0⟩) img'
  | stores {w : Write} {img img' : Image} (b : UInt8) (more : w.cursor < w.stop)
    (claimed : img.reserve w.segment w.cursor 1 = .ok img') :
    Takes (.writing w) img (.writing { w with cursor := w.cursor + 1 })
      (img'.poke w.segment w.cursor b)
  | counts {w : Write} {img : Image} :
    Takes (.writing w) img (.writing { w with excess := w.excess + 1 }) img
  | keeps {phase phase' : Phase} {img : Image}
    (begun : ∀ w, phase' = .writing w → phase = .writing w) : Takes phase img phase' img

namespace Takes

variable {phase phase' : Phase} {img img' : Image}

theorem grown (h : Takes phase img phase' img') : img.Grown img' := by
  cases h with
  | claims claimed => exact Image.grown_reserve claimed
  | stores b more claimed => exact (Image.grown_reserve claimed).trans (Image.grown_poke _ _ _ _)
  | counts => exact .refl _
  | keeps begun => exact .refl _

/-- The announced bytecode is code as long as the write lasts. -/
theorem covered (h : Takes phase img phase' img')
    (hc : ∀ w, phase = .writing w → w.segment = .bytecode → w.stop ≤ img.length) :
    ∀ w, phase' = .writing w → w.segment = .bytecode → w.stop ≤ img'.length := by
  have hlength := h.grown.length
  rintro w hw hs
  cases h with
  | claims claimed =>
    cases hw
    cases hs
    exact Image.le_length_of_reserve claimed
  | @stores w₀ _ _ b more claimed =>
    cases hw
    exact Nat.le_trans (hc w₀ rfl hs) hlength
  | @counts w₀ =>
    cases hw
    exact hc w₀ rfl hs
  | keeps begun => exact hc w (begun w hw) hs

theorem changed (h : Takes phase img phase' img') {s : Segment} {i : Nat}
    (hne : img.DiffersAt img' s i) :
    ∃ w, phase = .writing w ∧ w.cursor < w.stop ∧ s = w.segment ∧ i = w.cursor := by
  cases h with
  | claims claimed => exact absurd hne (Image.not_differsAt_of_eq (Image.segment_reserve claimed s))
  | stores b more claimed =>
    unfold Image.DiffersAt at hne
    rw [← Image.segment_reserve claimed] at hne
    obtain ⟨hs, hi⟩ := Image.differsAt_poke hne
    exact ⟨_, rfl, more, hs, hi⟩
  | counts => exact absurd hne (Image.not_differsAt_of_eq rfl)
  | keeps begun => exact absurd hne (Image.not_differsAt_of_eq rfl)

end Takes

theorem beginWrite_takes (phase : Phase) (img : Image) (header : List UInt8) :
    Takes phase img (beginWrite img header).1 (beginWrite img header).2.1 := by
  unfold beginWrite
  split
  · next id offset count _ =>
    cases hs : Segment.ofId id with
    | error why => exact .keeps nofun
    | ok s =>
      cases hr : img.reserve s offset.toNat count.toNat with
      | error why =>
        simp only [bind, Except.bind, hr]
        exact .keeps nofun
      | ok img' =>
        simp only [bind, Except.bind, hr, pure, Except.pure]
        exact .claims hr
  · exact .keeps nofun

theorem store_takes (w : Write) (img : Image) (b : UInt8) :
    Takes (.writing w) img (store w img b).1 (store w img b).2 := by
  unfold store
  split
  · next more =>
    cases hr : img.reserve w.segment w.cursor 1 with
    | error why => exact .keeps nofun
    | ok img' => exact .stores b more hr
  · exact .counts

theorem onByte_takes (s : Session) (p : Program) (b : UInt8) :
    Takes s.phase p.image (s.onByte p b).session.phase (s.onByte p b).program.image := by
  unfold onByte
  split
  · split <;> exact .keeps nofun
  · split
    · exact .keeps nofun
    · dsimp only
      split
      · exact beginWrite_takes _ _ _
      · exact .keeps nofun
  · next w hw =>
    rw [hw]
    exact store_takes _ _ _
  · next hp => exact .keeps fun w hw => hw
  · next hp => exact .keeps fun w hw => hw

theorem image_dispatch (s : Session) (p : Program) (body : List UInt8) :
    (s.dispatch p body).program.image = p.image := by
  unfold dispatch
  split
  · rfl
  · rfl
  · rfl
  · dsimp only
    split
    · next h =>
      unfold beginExec at h
      split at h
      · cases h
      · split at h
        · obtain ⟨t, -, ht⟩ := bind_eq_ok_iff.mp h
          cases ht
          rfl
        · cases h
    · rfl
  · rfl

theorem image_onDone (s : Session) (p : Program) : (s.onDone p).program.image = p.image := by
  unfold onDone
  dsimp only
  split
  · rfl
  · rfl
  · exact image_dispatch _ _ _
  · split <;> rfl
  · rfl

theorem feed_takes (s : Session) (p : Program) (b : UInt8) :
    Takes s.phase p.image (s.feed p b).session.phase (s.feed p b).program.image := by
  unfold feed
  dsimp only
  split
  · exact .keeps fun w hw => hw
  · exact onByte_takes { s with decoder := (s.decoder.push b).1 } p _
  · rw [session_onDone, image_onDone]
    exact .keeps nofun
  · exact .keeps nofun

/-! ## only the sizes of an image matter to a session -/

theorem phase_beginWrite {img img' : Image}
    (h : ∀ s, (img'.segment s).size = (img.segment s).size) (header : List UInt8) :
    (beginWrite img' header).1 = (beginWrite img header).1 := by
  unfold beginWrite
  split
  · next id offset count _ =>
    cases hs : Segment.ofId id with
    | error why => rfl
    | ok s =>
      simp only [bind, Except.bind, Image.reserve, h s]
      by_cases hfit : offset.toNat + count.toNat ≤ (img.segment s).size
      · simp only [if_pos hfit]
        rfl
      · simp only [if_neg hfit]
  · rfl

theorem phase_store {img img' : Image} (h : ∀ s, (img'.segment s).size = (img.segment s).size)
    (w : Write) (b : UInt8) : (store w img' b).1 = (store w img b).1 := by
  unfold store
  split
  · simp only [Image.reserve, h w.segment]
    by_cases hfit : w.cursor + 1 ≤ (img.segment w.segment).size
    · simp only [if_pos hfit]
    · simp only [if_neg hfit]
  · rfl

theorem session_onByte_congr {p q : Program}
    (h : ∀ s, (q.image.segment s).size = (p.image.segment s).size) (s : Session) (b : UInt8) :
    (s.onByte q b).session = (s.onByte p b).session := by
  unfold onByte
  split
  · split <;> rfl
  · split
    · rfl
    · dsimp only
      split
      · exact congrArg (Session.mk s.decoder) (phase_beginWrite h _)
      · rfl
  · exact congrArg (Session.mk s.decoder) (phase_store h _ _)
  · rfl
  · rfl

theorem session_feed_congr {p q : Program}
    (h : ∀ s, (q.image.segment s).size = (p.image.segment s).size) (s : Session) (b : UInt8) :
    (s.feed q b).session = (s.feed p b).session := by
  unfold feed
  dsimp only
  split
  · rfl
  · exact session_onByte_congr h _ _
  · rw [session_onDone, session_onDone]
  · rfl

/-! ## how a session stands -/

/-- `Stands img stream s`: how a fresh session stands after `stream`, on an image with segments as
large as those of `img`.  It searches for the first delimiter, or is in the middle of the chunk
that the last one began. -/
inductive Stands (img : Image) (stream : List UInt8) : Session → Prop where
  | searching (none : delimiter ∉ stream) : Stands img stream {}
  | within {before raw : List UInt8} (cut : stream = before ++ delimiter :: raw)
    (inside : delimiter ∉ raw) : Stands img stream (amid img raw)

theorem size_written (p : Program) (body : List UInt8) (s : Segment) :
    ((p.written body).image.segment s).size = (p.image.segment s).size := by
  cases hu : Upload.ofBody? body with
  | none => rw [Program.written_of_none hu]
  | some u =>
    rw [Program.written_of_some hu]
    show ((u.result p.image).segment s).size = _
    unfold Upload.result
    split
    · rfl
    · exact Image.size_segment_patch _ _ _ _ _ _

/-- Whatever has happened to the program, the next byte leads a session to where the stream with
that byte does. -/
theorem Stands.feed {img : Image} {stream : List UInt8} {s : Session} (h : Stands img stream s)
    {p : Program} (hp : ∀ seg, (p.image.segment seg).size = (img.segment seg).size) (b : UInt8) :
    Stands img (stream ++ [b]) (s.feed p b).session := by
  cases h with
  | searching none =>
    by_cases hb : b = delimiter
    · subst hb
      exact .within rfl List.not_mem_nil
    · have hfed : (({} : Session).feed p b).session = {} := by simp [Session.feed, Decoder.push, hb]
      rw [hfed]
      refine .searching fun hm => ?_
      rcases List.mem_append.mp hm with hm | hm
      · exact none hm
      · exact hb (List.mem_singleton.mp hm).symm
  | @within before raw cut inside =>
    -- the session cannot tell the program from one that only this chunk has changed
    let q : Program := ⟨img, p.thread⟩
    have hq : ∀ seg, ((q.written (unstuff raw).1).image.segment seg).size =
        (p.image.segment seg).size := fun seg => (size_written q _ seg).trans (hp seg).symm
    rw [← session_feed_congr hq]
    by_cases hb : b = delimiter
    · subst hb
      obtain ⟨reply, events, hfed, -⟩ := feed_delimiter q raw
      rw [show amid img raw = amid q.image raw from rfl, hfed]
      exact .within rfl List.not_mem_nil
    · obtain ⟨events, hfed⟩ := feed_amid q raw hb
      rw [show amid img raw = amid q.image raw from rfl, hfed]
      have cut' : stream ++ [b] = before ++ delimiter :: (raw ++ [b]) := by
        rw [cut, List.append_assoc]
        rfl
      refine .within cut' fun hm => ?_
      rcases List.mem_append.mp hm with hm | hm
      · exact inside hm
      · exact hb (List.mem_singleton.mp hm).symm

end Session

/-! ## the bounds of a session -/

/-- The bytes of a command that has not ended fit the buffer, begin with a known letter, and are
not yet the header of a memory write. -/
def Command.Partial (body : List UInt8) : Prop :=
  1 ≤ body.length ∧ body.length ≤ Command.bufferSize ∧
    ∃ op, body.head? = some op ∧ Command.isKnown op ∧
      (op = Command.writeMemOp → body.length < Command.writeMemHeaderSize)

/-- A memory write is somewhere in its window, which lies in its segment and, of the bytecode, in
the code; and bytes are too many only after the last of the window. -/
structure Write.Bounded (w : Write) (img : Image) : Prop where
  cursor_le : w.cursor ≤ w.stop
  stop_le : w.stop ≤ (img.segment w.segment).size
  excess : 0 < w.excess → w.cursor = w.stop
  covered : w.segment = .bytecode → w.stop ≤ img.length

def Phase.Bounded (img : Image) : Phase → Prop
  | .receiving body => Command.Partial body
  | .writing w => w.Bounded img
  | _ => True

namespace Session

theorem heard_receiving {img : Image} {heardBody body : List UInt8}
    (h : heard img heardBody = some (.receiving body)) : Command.Partial body := by
  cases heardBody with
  | nil => cases h
  | cons a rest =>
    by_cases hk : Command.isKnown a
    · cases hu : Upload.ofBody? (a :: rest) with
      | some u =>
        rw [heard_of_upload hu] at h
        unfold Upload.phase at h
        split at h <;> cases h
      | none =>
        rw [heard_of_none hk hu] at h
        split at h
        · next hl =>
          cases h
          refine ⟨Nat.le_add_left 1 _, hl, a, rfl, hk, fun ha => ?_⟩
          have hr := (Upload.ofBody?_eq_none_iff.mp hu).resolve_left fun hne => hne ha
          exact Nat.succ_lt_succ hr
        · cases h
    · rw [heard_of_unknown img hk] at h
      cases h

theorem heard_writing {img : Image} {body : List UInt8} {w : Write}
    (h : heard img body = some (.writing w)) :
    ∃ u, Upload.ofBody? body = some u ∧ u.errorCode? img = none ∧
      w = ⟨u.segment, u.offset + min u.data.length u.count, u.offset + u.count, u.count,
        u.data.length - u.count⟩ := by
  cases hu : Upload.ofBody? body with
  | some u =>
    rw [heard_of_upload hu] at h
    cases hc : u.errorCode? img with
    | some code =>
      rw [Upload.phase_refused hc] at h
      cases h
    | none =>
      rw [Upload.phase_accepted hc] at h
      cases h
      exact ⟨u, rfl, hc, rfl⟩
  | none =>
    cases body with
    | nil => cases h
    | cons a rest =>
      by_cases hk : Command.isKnown a
      · rw [heard_of_none hk hu] at h
        split at h <;> cases h
      · rw [heard_of_unknown img hk] at h
        cases h

namespace Stands

variable {img : Image} {stream : List UInt8} {s : Session}

theorem heard (h : Stands img stream s) (hp : s.phase ≠ .idle) :
    ∃ before raw, stream = before ++ delimiter :: raw ∧ delimiter ∉ raw ∧
      Session.heard img (unstuff raw).1 = some s.phase := by
  cases h with
  | searching none => exact absurd rfl hp
  | @within before raw cut inside =>
    refine ⟨before, raw, cut, inside, ?_⟩
    unfold amid at hp ⊢
    cases hh : Session.heard img (unstuff raw).1 with
    | none =>
      rw [hh] at hp
      exact absurd rfl hp
    | some phase => rfl

theorem receiving (h : Stands img stream s) {body : List UInt8}
    (hp : s.phase = .receiving body) : Command.Partial body := by
  obtain ⟨-, raw, -, -, hh⟩ := h.heard (by rw [hp]; exact nofun)
  rw [hp] at hh
  exact heard_receiving hh

theorem writing (h : Stands img stream s) {w : Write} (hp : s.phase = .writing w) :
    ∃ before raw u, stream = before ++ delimiter :: raw ∧ delimiter ∉ raw ∧
      Upload.ofBody? (unstuff raw).1 = some u ∧ u.errorCode? img = none ∧
      w = ⟨u.segment, u.offset + min u.data.length u.count, u.offset + u.count, u.count,
        u.data.length - u.count⟩ := by
  obtain ⟨before, raw, cut, inside, hh⟩ := h.heard (by rw [hp]; exact nofun)
  rw [hp] at hh
  obtain ⟨u, hu⟩ := heard_writing hh
  exact ⟨before, raw, u, cut, inside, hu⟩

end Stands
end Session

/-! ## along everything that can happen -/

def Happening.byte? : Happening σ → Option UInt8
  | .byte b => some b
  | _ => none

def received (hs : List (Happening σ)) : List UInt8 := hs.filterMap Happening.byte?

namespace Situation

/-- The situation has come from an image `img` by the bytes `stream`, and by other things. -/
structure Tracks (img : Image) (stream : List UInt8) (s : Situation σ) : Prop where
  stands : Session.Stands img stream s.session
  grown : img.Grown s.engine.image
  covered : ∀ w, s.session.phase = .writing w → w.segment = .bytecode →
    w.stop ≤ s.engine.image.length

variable {p : Peripherals σ} {img : Image} {stream : List UInt8} {s : Situation σ}

theorem tracks_fresh (e : Engine σ) : Tracks e.image [] ⟨e, {}⟩ where
  stands := .searching List.not_mem_nil
  grown := .refl _
  covered := nofun

/-- What leaves the session alone and lets the image grow leads on. -/
theorem Tracks.grow (h : Tracks img stream s) {e : Engine σ}
    (hg : s.engine.image.Grown e.image) : Tracks img stream { s with engine := e } where
  stands := h.stands
  grown := h.grown.trans hg
  covered w hw hs := Nat.le_trans (h.covered w hw hs) hg.length

theorem Tracks.next (h : Tracks img stream s) (a : Happening σ) :
    Tracks img (stream ++ a.byte?.toList) (s.next p a) := by
  cases a with
  | byte b =>
    have hb := Session.feed_takes s.session s.engine.toProgram b
    exact ⟨h.stands.feed h.grown.size b, h.grown.trans hb.grown, hb.covered h.covered⟩
  | step =>
    show Tracks img (stream ++ []) _
    rw [List.append_nil]
    exact h.grow (Engine.step_grown p s.engine)
  | tick | stop | devices d =>
    show Tracks img (stream ++ []) _
    rw [List.append_nil]
    exact h.grow (.refl _)

theorem Tracks.after (h : Tracks img stream s) (hs : List (Happening σ)) :
    Tracks img (stream ++ received hs) (s.after p hs) := by
  induction hs generalizing stream s with
  | nil =>
    rw [show received ([] : List (Happening σ)) = [] from rfl, List.append_nil]
    exact h
  | cons a hs ih =>
    have hr : received (a :: hs) = a.byte?.toList ++ received hs := by
      unfold received
      rw [List.filterMap_cons]
      cases a.byte? <;> rfl
    rw [hr, ← List.append_assoc]
    exact ih (h.next a)

theorem Tracks.bounded (h : Tracks img stream s) : s.session.phase.Bounded s.engine.image := by
  cases hp : s.session.phase with
  | receiving body => exact h.stands.receiving hp
  | writing w =>
    obtain ⟨-, -, u, -, -, -, hc, rfl⟩ := h.stands.writing hp
    obtain ⟨-, hfit⟩ := Upload.fits hc
    refine ⟨?_, ?_, ?_, h.covered _ hp⟩
    · show u.offset + min u.data.length u.count ≤ u.offset + u.count
      omega
    · rw [h.grown.size]
      exact hfit
    · show 0 < u.data.length - u.count →
        u.offset + min u.data.length u.count = u.offset + u.count
      omega
  | idle | refused _ _ | discarding => exact trivial

/-- A byte of the image that changes lies in the window, and in the segment, that the chunk
announces. -/
theorem Tracks.confined (h : Tracks img stream s) {b : UInt8} {seg : Segment} {i : Nat}
    (hne : s.engine.image.DiffersAt (s.session.feed s.engine.toProgram b).program.image seg i) :
    ∃ before raw id offset count data, stream = before ++ delimiter :: raw ∧ delimiter ∉ raw ∧
      (unstuff raw).1 = (Command.writeMem id offset count).body ++ data ∧
      Segment.ofId id = .ok seg ∧ offset.toNat ≤ i ∧ i < offset.toNat + count.toNat := by
  obtain ⟨w, hw, hlt, rfl, rfl⟩ := (Session.feed_takes _ _ b).changed hne
  obtain ⟨before, raw, u, cut, inside, hu, hc, rfl⟩ := h.stands.writing hw
  obtain ⟨offset, count, hbody, ho, hn⟩ := Upload.body_of_ofBody? hu
  obtain ⟨seg, hseg, -⟩ := Upload.errorCode?_eq_none_iff.mp hc
  have hnumber : u.segment = seg := Segment.numbered_of_ofId hseg
  refine ⟨before, raw, u.id, offset, count, u.data, cut, inside, hbody, hnumber ▸ hseg, ?_, ?_⟩
  · rw [ho]
    exact Nat.le_add_right ..
  · rw [ho, hn]
    exact hlt

end Situation
end TickMachine
