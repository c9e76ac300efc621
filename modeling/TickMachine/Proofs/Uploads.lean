import TickMachine.Peripherals.Recorded
import TickMachine.Proofs.FrameByFrame
import TickMachine.Proofs.ImageFiles
import TickMachine.Proofs.Lockstep
import TickMachine.Proofs.Transcripts

/-!
# Loading through the debugger

A debugger can load a program into a debug machine: it writes the segments of the program's image,
in any order, and then starts the main routine.  The machine acknowledges frame by frame, and from
there runs the program as a machine does that has loaded it from a file.

* `Program.answerAll`   payloads one after the other;
* `Session.feedAll_frames`   frames are answered as their payloads are;
* `Image.loading`   the payloads that load an image;
* `Image.Holds`   some segments of an image have been written into another one;
* `Image.Holds.hosts`   and when all have, the program is there;
* `Machine.loading_equals_load`   the debug machine stays in lockstep with the one that has loaded
                       the file.
-/

namespace TickMachine

variable {σ : Type}

/-! ## one payload after the other -/

/-- What payloads do to a program when their frames end one after the other, and the answers. -/
def Program.answerAll (p : Program) : List (List UInt8) → Program × List (List UInt8)
  | [] => (p, [])
  | body :: more =>
    let answered := p.answer body
    let rest := answered.1.answerAll more
    (rest.1, answered.2.toList ++ rest.2)

namespace Program

theorem answerAll_append (p : Program) (xs ys : List (List UInt8)) :
    p.answerAll (xs ++ ys) =
      (((p.answerAll xs).1.answerAll ys).1,
        (p.answerAll xs).2 ++ ((p.answerAll xs).1.answerAll ys).2) := by
  induction xs generalizing p with
  | nil => rfl
  | cons x xs ih => simp only [List.cons_append, answerAll, ih, List.append_assoc]

theorem length_answerAll_le (p : Program) (bodies : List (List UInt8)) :
    (p.answerAll bodies).2.length ≤ bodies.length := by
  induction bodies generalizing p with
  | nil => exact Nat.le_refl 0
  | cons body more ih =>
    have hrest := ih (p.answer body).1
    have hfirst : (p.answer body).2.toList.length ≤ 1 := by
      cases (p.answer body).2 <;> simp
    simp only [answerAll, List.length_append, List.length_cons]
    omega

theorem answerAll_take {p : Program} {bodies : List (List UInt8)}
    (h : (p.answerAll bodies).2.length = bodies.length) (k : Nat) :
    (p.answerAll (bodies.take k)).2 = (p.answerAll bodies).2.take k := by
  by_cases hk : bodies.length ≤ k
  · rw [List.take_of_length_le hk, List.take_of_length_le (by omega)]
  · have happ := congrArg Prod.snd (p.answerAll_append (bodies.take k) (bodies.drop k))
    rw [List.take_append_drop] at happ
    -- neither part can have more answers than payloads, so neither has fewer
    have hfirst := p.length_answerAll_le (bodies.take k)
    have hrest := (p.answerAll (bodies.take k)).1.length_answerAll_le (bodies.drop k)
    have hsum := congrArg List.length happ
    rw [h, List.length_append] at hsum
    rw [List.length_take] at hfirst
    rw [List.length_drop] at hrest
    rw [happ, List.take_left' (by omega)]

theorem close_nil (p : Program) : p.close [] = (p, none) := rfl

theorem close_stuff (p : Program) (body : List UInt8) : p.close (stuff body) = p.answer body := by
  unfold close
  rw [unstuff_stuff]
  rfl

theorem byFrames_cons {p : Program} {chunk : List UInt8} {more : List (List UInt8)}
    (h : more ≠ []) :
    p.byFrames (chunk :: more) =
      (((p.close chunk).1.byFrames more).1,
        (p.close chunk).2.toList ++ ((p.close chunk).1.byFrames more).2) := by
  cases more with
  | nil => exact absurd rfl h
  | cons c cs => rfl

/-- Between two frames there is an empty chunk, which does nothing. -/
theorem byFrames_frames (p : Program) (bodies : List (List UInt8)) :
    p.byFrames ((bodies.flatMap frame).splitOn delimiter) = p.answerAll bodies := by
  induction bodies generalizing p with
  | nil => rfl
  | cons body more ih =>
    have hsplit : ((body :: more).flatMap frame).splitOn delimiter =
        [] :: stuff body :: (more.flatMap frame).splitOn delimiter := by
      rw [List.flatMap_cons, frame, List.cons_append, List.append_assoc, List.singleton_append]
      rw [← List.nil_append (delimiter :: _), splitOn_append_delimiter List.not_mem_nil,
        splitOn_append_delimiter (stuff_no_delimiter body)]
    rw [hsplit, byFrames_cons (List.cons_ne_nil _ _), close_nil,
      byFrames_cons (List.splitOn_ne_nil _ _), close_stuff, ih]
    rfl

end Program

theorem Session.feedAll_frames (p : Program) (n : Nat) (bodies : List (List UInt8)) :
    let fed := ({} : Session).feedAll p n (bodies.flatMap frame)
    fed.program = (p.answerAll bodies).1 ∧
      fed.replies.map (fun r => r.2.bytes) = (p.answerAll bodies).2 := by
  cases bodies with
  | nil => exact ⟨rfl, rfl⟩
  | cons body more =>
    -- the first delimiter only tells a fresh session where the first frame begins
    have hfed : ({} : Session).feed p delimiter = ⟨amid p.image [], p, none, []⟩ := rfl
    obtain ⟨hp, hr⟩ := feedAll_amid p [] (stuff body ++ delimiter :: more.flatMap frame)
      List.not_mem_nil (n + 1)
    rw [List.nil_append, splitOn_append_delimiter (stuff_no_delimiter body),
      Program.byFrames_cons (List.splitOn_ne_nil _ _), Program.close_stuff,
      Program.byFrames_frames] at hp hr
    rw [List.flatMap_cons, frame, List.cons_append, List.append_assoc, List.singleton_append]
    simp only [feedAll, hfed]
    exact ⟨hp, hr⟩

/-! ## the frames that load an image -/

def Segment.id : Segment → UInt8
  | .bytecode => 0
  | .routines => 1
  | .globals => 2

theorem Segment.id_le (s : Segment) : ¬ 2 < s.id := by cases s <;> decide

theorem Segment.numbered_id (s : Segment) : Segment.numbered s.id = s := by cases s <;> rfl

namespace Image

/-- The payload that writes a whole segment: a memory write at its beginning, with all its bytes. -/
def uploading (img : Image) (s : Segment) : List UInt8 :=
  (Command.writeMem s.id 0 (UInt16.ofNat (img.segment s).size)).body ++ (img.segment s).toList

/-- The payloads that load an image: the segments in some order, and then the start of the main
routine with `argc` arguments. -/
def loading (img : Image) (order : List Segment) (argc : UInt8) : List (List UInt8) :=
  order.map img.uploading ++ [(Command.beginExec (UInt8.ofNat img.main) argc).body]

def loaded (order : List Segment) : List (List UInt8) :=
  (order.map fun _ => [0x77, 0x7E]) ++ [[0x78, 0x7E]]

end Image

/-! ## segment by segment -/

theorem Upload.ofBody?_uploading {img : Image} {s : Segment} (h : (img.segment s).size < 65536) :
    Upload.ofBody? (img.uploading s) =
      some ⟨s.id, 0, (img.segment s).size, (img.segment s).toList⟩ := by
  have hsize : (UInt16.ofNat (img.segment s).size).toNat = (img.segment s).size := by
    rw [UInt16.toNat_ofNat', Nat.mod_eq_of_lt h]
  simp [Image.uploading, Command.body, Command.writeMemOp, Upload.ofBody?, hsize]

theorem Program.answer_uploading (p : Program) {img : Image} {s : Segment}
    (h : (img.segment s).size < 65536)
    (hroom : (img.segment s).size ≤ (p.image.segment s).size) :
    p.answer (img.uploading s) =
      ({ p with image := p.image.patch s 0 (img.segment s).size (img.segment s).toList },
        some (accepted 0x77)) := by
  have hu := Upload.ofBody?_uploading h
  have hseg := s.numbered_id
  have hcode : (Upload.mk s.id 0 (img.segment s).size (img.segment s).toList).errorCode? p.image =
      none := by
    unfold Upload.errorCode? Upload.segment
    rw [if_neg s.id_le, hseg, if_neg (by dsimp only; omega)]
  unfold answer
  rw [hu]
  dsimp only
  rw [written_of_some hu, Upload.result_accepted hcode, hcode]
  dsimp only
  rw [if_pos (Nat.le_of_eq Array.length_toList)]
  unfold Upload.segment
  rw [hseg]

theorem Program.answer_beginExec (p : Program) {index : Nat} {r : Routine} {t : Thread}
    (hi : index < 256) (hr : p.image.routine? index = some r)
    (ht : p.thread.enter p.image index = .ok t) :
    p.answer (Command.beginExec (UInt8.ofNat index) r.argc).body =
      ({ p with thread := t }, some (accepted 0x78)) := by
  have hindex : (UInt8.ofNat index).toNat = index := by
    rw [UInt8.toNat_ofNat', Nat.mod_eq_of_lt hi]
  show (p.start (UInt8.ofNat index) r.argc).map id some = _
  unfold start
  rw [hindex, hr, ht]
  dsimp only
  rw [if_pos rfl]
  rfl

namespace Image

variable {host img : Image} {done : List Segment}

/-- In `host` there is room for all of `img`, and the segments `done` of it have been written. -/
structure Holds (host img : Image) (done : List Segment) : Prop where
  room : ∀ s, (img.segment s).size ≤ (host.segment s).size
  written : ∀ s ∈ done, ∀ (k : Nat) (b : UInt8), (img.segment s)[k]? = some b →
    (host.segment s)[k]? = some b
  length_le : host.length ≤ img.length
  le_length : .bytecode ∈ done → img.length ≤ host.length

theorem Holds.of_subset {less : List Segment} (h : host.Holds img done)
    (hs : ∀ s ∈ less, s ∈ done) : host.Holds img less :=
  ⟨h.room, fun s hm => h.written s (hs s hm), h.length_le, fun hm => h.le_length (hs _ hm)⟩

theorem Holds.patch (h : host.Holds img done) (hwhole : img.length = img.bytecode.size)
    (s : Segment) :
    (host.patch s 0 (img.segment s).size (img.segment s).toList).Holds img (s :: done) where
  room s' := by
    rw [size_segment_patch]
    exact h.room s'
  written s' hm k b hb := by
    by_cases hs : s = s'
    · subst hs
      obtain ⟨hk, -⟩ := Array.getElem?_eq_some_iff.mp hb
      have hroom := h.room s
      rw [segment_patch, getElem?_splice, if_pos]
      · simpa [List.take_of_length_le] using hb
      · simp
        omega
    · rw [segment_patch_of_ne _ _ _ _ hs]
      exact h.written s' ((List.mem_cons.mp hm).resolve_left (Ne.symm hs)) k b hb
  length_le := by
    rw [length_patch _ _ _ _ _ (by rw [Nat.zero_add]; exact h.room s)]
    split
    · next hs =>
      subst hs
      have hl := h.length_le
      show max host.length (0 + img.bytecode.size) ≤ img.length
      omega
    · exact h.length_le
  le_length hm := by
    rw [length_patch _ _ _ _ _ (by rw [Nat.zero_add]; exact h.room s)]
    split
    · next hs =>
      subst hs
      show img.length ≤ max host.length (0 + img.bytecode.size)
      omega
    · next hs => exact h.le_length ((List.mem_cons.mp hm).resolve_left (Ne.symm hs))

theorem Holds.hosts (h : host.Holds img done) (hall : ∀ s, s ∈ done) : host.Hosts img where
  code := by
    have hlength : host.length = img.length :=
      Nat.le_antisymm h.length_le (h.le_length (hall _))
    apply List.ext_getElem?
    intro k
    rw [← fetch_eq_code, ← fetch_eq_code, fetch, fetch, hlength]
    split
    · next hk =>
      have hlt : k < img.bytecode.size := Nat.lt_of_lt_of_le hk img.length_le
      have hb := Array.getElem?_eq_getElem hlt
      rw [hb]
      exact h.written .bytecode (hall _) k _ hb
    · rfl
  routine i r hr := routine?_of_agree (h.written .routines (hall _)) hr
  global i v hv := global?_of_agree (h.written .globals (hall _)) hv

theorem Holds.answerAll {p : Program} (h : p.image.Holds img done)
    (hwhole : img.length = img.bytecode.size) (hsize : ∀ s, (img.segment s).size < 65536)
    (order : List Segment) :
    ∃ host, host.Holds img (order ++ done) ∧
      p.answerAll (order.map img.uploading) =
        ({ p with image := host }, order.map fun _ => Program.accepted 0x77) := by
  induction order generalizing p done with
  | nil => exact ⟨p.image, h, rfl⟩
  | cons s more ih =>
    obtain ⟨host, hh, ha⟩ := ih (h.patch hwhole s)
      (p := { p with image := p.image.patch s 0 (img.segment s).size (img.segment s).toList })
    refine ⟨host, hh.of_subset ?_, ?_⟩
    · intro s' hm
      simp only [List.mem_append, List.mem_cons] at hm ⊢
      tauto
    · rw [List.map_cons, Program.answerAll, p.answer_uploading (hsize s) (h.room s)]
      dsimp only
      rw [ha]
      rfl

/-! ## images from files -/

section
variable {bytes : List UInt8}

theorem length_of_ofBytes (h : ofBytes bytes = .ok img) : img.length = img.bytecode.size := by
  obtain ⟨l₀, l₁, n, g, main, p₀, p₁, p₂, rest, -, -, -, rfl, -⟩ := ofBytes_eq_ok_iff.mp h
  exact List.size_toArray.symm

theorem blank_holds (h : ofBytes bytes = .ok img) (hlength : img.length ≤ 16384) :
    blank.Holds img [] := by
  obtain ⟨l₀, l₁, n, g, main, p₀, p₁, p₂, rest, -, hfit, -, rfl, -⟩ := ofBytes_eq_ok_iff.mp h
  refine ⟨fun s => ?_, fun s hs => (by cases hs), Nat.zero_le _, fun hs => (by cases hs)⟩
  cases s with
  | bytecode =>
    rw [length_of_ofBytes h] at hlength
    show _ ≤ (Array.replicate 16384 (0 : UInt8)).size
    rwa [Array.size_replicate]
  | routines =>
    have hn := n.toNat_lt
    show (rest.take (4 * n.toNat)).toArray.size ≤ (Array.replicate 1024 (0 : UInt8)).size
    rw [List.size_toArray, List.length_take, Array.size_replicate]
    omega
  | globals =>
    have hg := g.toNat_lt
    show ((rest.drop (4 * n.toNat)).take (2 * g.toNat)).toArray.size ≤
      (Array.replicate 1024 (0 : UInt8)).size
    rw [List.size_toArray, List.length_take, Array.size_replicate]
    omega

theorem size_lt_of_holds_blank (h : blank.Holds img []) (s : Segment) :
    (img.segment s).size < 65536 := by
  have hroom := h.room s
  have hblank : (blank.segment s).size < 65536 := by
    cases s <;> simp [blank, segment, blankCapacity]
  omega

theorem main_of_ofBytes (h : ofBytes bytes = .ok img) :
    img.main < 256 ∧ ∃ r, img.routine? img.main = some r := by
  obtain ⟨l₀, l₁, n, g, main, p₀, p₁, p₂, rest, -, hfit, hmain, rfl, -⟩ := ofBytes_eq_ok_iff.mp h
  refine ⟨main.toNat_lt, exists_routine? ?_⟩
  rw [routineCount_content hfit]
  exact hmain

end
end Image

/-! ## the machine that was told -/

namespace Machine

/-- A debug machine that has been sent frames and has heard them. -/
def told (devices : σ) (frames : List (List UInt8)) : Machine σ :=
  (debug devices { incoming := frames.flatten }).service.machine

theorem told_frames (devices : σ) (bodies : List (List UInt8)) :
    let answered := Program.answerAll ⟨.blank, .idle⟩ bodies
    (told devices (bodies.map frame)).engine = ⟨answered.1, devices⟩ ∧
      (told devices (bodies.map frame)).sent = answered.2.flatten ∧
      (told devices (bodies.map frame)).results = none ∧
      (told devices (bodies.map frame)).ticks = 0 ∧
      ∃ session link, (told devices (bodies.map frame)).debugger = some ⟨session, link⟩ ∧
        link.incoming = [] ∧ link.budget = none := by
  obtain ⟨hprogram, hreplies⟩ := Session.feedAll_frames ⟨.blank, .idle⟩ 0 bodies
  obtain ⟨log, hp⟩ := Session.pollFrom_eq {} ⟨.blank, .idle⟩
    (l := { incoming := bodies.flatMap frame }) rfl 0 0 #[] (bodies.flatMap frame)
  have ht : told devices (bodies.map frame) =
      { engine := ⟨(Program.answerAll ⟨.blank, .idle⟩ bodies).1, devices⟩
        debugger := some
          ⟨(({} : Session).feedAll ⟨.blank, .idle⟩ 0 (bodies.flatMap frame)).session,
            { outgoing := (#[] : Array UInt8) ++
              (Program.answerAll ⟨.blank, .idle⟩ bodies).2.flatten }⟩ } := by
    unfold told service debug
    rw [← List.flatMap_def]
    dsimp only [Session.poll]
    rw [hp, ← hprogram, ← hreplies]
    dsimp only
    rw [List.flatMap_map, ← List.flatMap_def]
  rw [ht]
  exact ⟨rfl, by simp [sent], rfl, rfl, _, _, rfl, rfl, rfl⟩

theorem told_loading {img : Image} {order : List Segment} {main : Routine} {t : Thread}
    (devices : σ) (hblank : Image.blank.Holds img []) (hwhole : img.length = img.bytecode.size)
    (hall : ∀ s, s ∈ order) (hm : img.main < 256) (hmain : img.routine? img.main = some main)
    (ht : Thread.ofImage img = .ok t) :
    Paired { engine := ⟨⟨img, t⟩, devices⟩ }
        (told devices ((img.loading order main.argc).map frame)) ∧
      ∀ k, (told devices (((img.loading order main.argc).map frame).take k)).sent =
        ((Image.loaded order).take k).flatten := by
  obtain ⟨host, hholds, hwrites⟩ := hblank.answerAll hwhole (Image.size_lt_of_holds_blank hblank)
    order (p := ⟨.blank, .idle⟩)
  have hhosts : host.Hosts img := hholds.hosts fun s => List.mem_append_left _ (hall s)
  have henter : Thread.idle.enter host img.main = .ok t := by
    unfold Thread.ofImage Thread.enter at ht
    unfold Thread.enter
    rw [hhosts.routine _ _ hmain]
    rwa [hmain] at ht
  have hanswers : Program.answerAll ⟨.blank, .idle⟩ (img.loading order main.argc) =
      (⟨host, t⟩, Image.loaded order) := by
    unfold Image.loading
    rw [Program.answerAll_append, hwrites]
    dsimp only [Program.answerAll]
    rw [Program.answer_beginExec ⟨host, .idle⟩ hm (hhosts.routine _ _ hmain) henter]
    rfl
  have hlength : (Program.answerAll ⟨.blank, .idle⟩ (img.loading order main.argc)).2.length =
      (img.loading order main.argc).length := by
    rw [hanswers]
    simp [Image.loaded, Image.loading]
  refine ⟨?_, fun k => ?_⟩
  · obtain ⟨hengine, -, hresults, hticks, hquiet⟩ :=
      told_frames devices (img.loading order main.argc)
    rw [hanswers] at hengine
    refine ⟨?_, hresults, hticks, rfl, hquiet⟩
    rw [hengine]
    exact ⟨hhosts, rfl, rfl⟩
  · rw [← List.map_take, (told_frames devices _).2.1, Program.answerAll_take hlength, hanswers]

/-- **Loading through the debugger is loading the file.**  Take an image that is read from a file
and whose code is no longer than a debug machine has room for.  A debug machine that is sent its
segments in any order, and the start of its main routine, acknowledges one frame after the other;
it then has the code of the image and the thread that a machine has which loaded the image.  From
there on the ticks of both have the same results and leave engines that are alike: with the same
thread, with the same values in the globals of the image, and with the same state of the
peripherals, whatever these keep of the calls they get (`Recorded` ones keep a list).  Within the
next tick they go on in lockstep, step by step, even if it never ends.  This holds until the machine
that loaded the file fails for want of a routine or a global. -/
theorem loading_equals_load {bytes : List UInt8} {img : Image}
    (hread : Image.ofBytes bytes = .ok img) (hlength : img.code.length ≤ 16384)
    {order : List Segment} (hall : ∀ s, s ∈ order) (p : Peripherals σ) (devices : σ) :
    ∃ main m, img.routine? img.main = some main ∧ load img devices = .ok m ∧
      let frames := (img.loading order main.argc).map frame
      let d := told devices frames
      (∀ k, (told devices (frames.take k)).sent = ((Image.loaded order).take k).flatten) ∧
      d.engine.image.code = img.code ∧ Thread.ofImage img = .ok d.engine.thread ∧
      ∀ fuels results m', m.ticked p fuels = some (results, m') → (∀ r ∈ results, ¬ Missing r) →
        ∃ d', d.ticked p fuels = some (results, d') ∧ d'.results = m'.results ∧
          m'.engine.Alike d'.engine ∧
          Engine.Lockstep p (m'.beginTick p).engine (d'.beginTick p).engine := by
  rw [Image.length_code] at hlength
  obtain ⟨hm, main, hmain⟩ := Image.main_of_ofBytes hread
  obtain ⟨t, ht⟩ : ∃ t, Thread.ofImage img = .ok t := by
    unfold Thread.ofImage Thread.enter
    rw [hmain]
    exact ⟨_, rfl⟩
  have hload : load img devices = .ok { engine := ⟨⟨img, t⟩, devices⟩ } := by
    unfold load
    rw [ht]
    rfl
  obtain ⟨hpaired, hacks⟩ := told_loading devices (Image.blank_holds hread hlength)
    (Image.length_of_ofBytes hread) hall hm hmain ht
  refine ⟨main, _, hmain, hload, hacks, hpaired.engine.image.code, ?_, ?_⟩
  · rw [hpaired.engine.thread]
    exact ht
  · intro fuels results m' hticked hpresent
    obtain ⟨d', hd, hp⟩ := hpaired.ticked hticked hpresent
    exact ⟨d', hd, hp.results, hp.engine, hp.beginTick.engine.lockstep⟩

/-- A file with a program that adds 126 and a random number to its global, which is 5, sleeps for a
tick and returns the sum. -/
def adding : List UInt8 :=
  [19, 0, 1, 1, 0, 0, 0, 0, 0, 0, 0, 0, 5, 0,
    0x03, 0, 0x00, 126, 0, 0x80, 0xD0, 0x80, 0x04, 0, 0x00, 1, 0, 0xB3, 0x02, 0x03, 0, 0x0D, 1]

theorem loading_equals_load_adding :
    ∃ img main d, Image.ofBytes adding = .ok img ∧ img.routine? img.main = some main ∧
      let frames := (img.loading [.globals, .bytecode, .routines] main.argc).map frame
      let told := told (Recorded.mk () #[]) frames
      told.sent = [0x77, 0x7E, 0x77, 0x7E, 0x77, 0x7E, 0x78, 0x7E] ∧
      told.ticked (Recorded.peripherals Engine.silent) [9, 9] =
        some ([.ok .suspended, .ok (.terminated [131])], d) ∧
      d.engine.image.global? 0 = some 131 ∧
      d.engine.devices.calls =
        #[.frameStart, .request .random, .frameEnd, .frameStart, .frameEnd] := by
  have hrooted : (Image.content 1 1 0 19 (adding.drop 8)).Rooted :=
    Image.firstStray?_eq_none_iff.mp (by decide)
  have hread : Image.ofBytes adding = .ok (Image.content 1 1 0 19 (adding.drop 8)) :=
    Image.ofBytes_header_eq_ok_iff.mpr ⟨by decide, by decide, rfl, hrooted⟩
  have hall : ∀ s, s ∈ [Segment.globals, .bytecode, .routines] := by
    intro s
    cases s <;> decide
  obtain ⟨main, m, hmain, hload, hsent, -, -, hticks⟩ :=
    loading_equals_load hread (by decide) hall (Recorded.peripherals Engine.silent)
      (Recorded.mk () #[])
  -- how the machine that has loaded the file goes on
  have hfile : ((load (Image.content 1 1 0 19 (adding.drop 8)) (Recorded.mk () #[])).toOption.bind
      fun m => (m.ticked (Recorded.peripherals Engine.silent) [9, 9]).map fun r =>
        (r.1, r.2.engine.image.global? 0, r.2.engine.devices.calls)) =
      some ([.ok .suspended, .ok (.terminated [131])], some 131,
        #[.frameStart, .request .random, .frameEnd, .frameStart, .frameEnd]) := by
    decide +kernel
  rw [hload] at hfile
  obtain ⟨⟨results, m'⟩, hticked, hr⟩ := Option.map_eq_some_iff.mp hfile
  obtain ⟨rfl, hrest⟩ := Prod.mk.inj hr
  obtain ⟨hglobal, hcalls⟩ := Prod.mk.inj hrest
  obtain ⟨d, hd, -, halike, -⟩ := hticks [9, 9] _ m' hticked (by
    intro r hr
    simp only [List.mem_cons, List.not_mem_nil, or_false] at hr
    rcases hr with rfl | rfl <;> exact not_missing_ok _)
  refine ⟨_, main, d, hread, hmain, hsent 4, hd, halike.image.global _ _ hglobal, ?_⟩
  rw [halike.devices]
  exact hcalls

end Machine
end TickMachine
