import TickMachine.Proofs.Uploads

/-!
# Memory writes, finished and broken off

The data of a memory write are stored while its frame is still coming in.  So the end of the frame
only tells whether too many came: a frame that ends early is acknowledged like one that brought all
it announced, and one that is broken off leaves behind what had been stored by then.

* `Image.Stored`   the image after a write, against the one before it;
* `Session.Reachable.feed_delimiter`   after a delimiter every session is ready for a fresh frame;
* `Session.feedAll_chunk`   from there, a whole chunk with the delimiter that ends it;
* `Session.write_acknowledged_iff`   which writes are acknowledged, and what they store;
* `Session.short_write_acknowledged`   fewer data than announced are enough;
* `Session.aborted_leaves_stored`   what is left of a frame that was broken off;
* `Session.aborted_write_stays`   that may be something.
-/

namespace TickMachine

/-! ## the image after a write -/

theorem extract_splice (xs : Array UInt8) {offset : Nat} {data : List UInt8}
    (h : offset + data.length ≤ xs.size) :
    ((splice xs offset data).extract offset (offset + data.length)).toList = data := by
  apply List.ext_getElem?
  intro i
  rw [Array.getElem?_toList, Array.getElem?_extract, size_splice, getElem?_splice,
    Nat.min_eq_left h, Nat.add_sub_cancel_left]
  by_cases hi : i < data.length
  · rw [if_pos hi, if_pos (by omega), Nat.add_sub_cancel_left]
  · rw [if_neg hi, List.getElem?_eq_none (by omega)]

namespace Image

/-- `img'` is `img` after a write that claimed the bytes from `offset` to `stop` of a segment and
stored `data` in the first of them. -/
structure Stored (img img' : Image) (s : Segment) (offset stop : Nat) (data : List UInt8) :
    Prop where
  window : img'.window s offset data.length = data
  elsewhere : ∀ s' i, (s' = s → i < offset ∨ offset + data.length ≤ i) →
    (img'.segment s')[i]? = (img.segment s')[i]?
  length : img'.length = if s = .bytecode then max img.length stop else img.length
  main : img'.main = img.main

theorem main_patch (img : Image) (s : Segment) (offset count : Nat) (data : List UInt8) :
    (img.patch s offset count data).main = img.main := by
  cases s <;> rfl

theorem stored_patch (img : Image) {s : Segment} {offset count : Nat}
    (h : offset + count ≤ (img.segment s).size) (data : List UInt8) :
    img.Stored (img.patch s offset count data) s offset (offset + count) (data.take count) where
  window := by
    have hlen : (data.take count).length ≤ count := List.length_take_le ..
    rw [window, segment_patch]
    exact extract_splice _ (by omega)
  elsewhere s' i hi := by
    by_cases hs : s = s'
    · subst hs
      have hout := hi rfl
      rw [segment_patch, getElem?_splice, if_neg (by omega)]
    · rw [segment_patch_of_ne _ _ _ _ hs]
  length := length_patch img s offset count data h
  main := main_patch img s offset count data

end Image

theorem Segment.numbered_of_ofId {id : UInt8} {s : Segment} (h : Segment.ofId id = .ok s) :
    Segment.numbered id = s := by
  rw [Segment.ofId_eq] at h
  split at h
  · cases h
  · exact Except.ok.inj h

namespace Upload

variable {u : Upload} {img : Image}

theorem ofBody?_writeMem (id : UInt8) (offset count : UInt16) (data : List UInt8) :
    ofBody? ((Command.writeMem id offset count).body ++ data) =
      some ⟨id, offset.toNat, count.toNat, data⟩ := by
  simp [Command.body, Command.writeMemOp, ofBody?]

theorem errorCode?_eq_none_iff :
    u.errorCode? img = none ↔
      ∃ s, Segment.ofId u.id = .ok s ∧ u.offset + u.count ≤ (img.segment s).size := by
  rw [Segment.ofId_eq]
  constructor
  · intro h
    obtain ⟨hid, hs⟩ := fits h
    exact ⟨u.segment, if_neg hid, hs⟩
  · rintro ⟨s, hs, hfit⟩
    by_cases hid : 2 < u.id
    · rw [if_pos hid] at hs
      cases hs
    · rw [if_neg hid] at hs
      cases hs
      exact (if_neg hid).trans (if_neg (Nat.not_lt.mpr hfit))

theorem body_of_ofBody? {body : List UInt8} (h : ofBody? body = some u) :
    ∃ offset count : UInt16, body = (Command.writeMem u.id offset count).body ++ u.data ∧
      offset.toNat = u.offset ∧ count.toNat = u.count := by
  unfold ofBody? at h
  split at h
  · next a id o₀ o₁ n₀ n₁ data =>
    split at h
    · next ha =>
      cases h
      exact ⟨word o₀ o₁, word n₀ n₁, by simp [Command.body, Command.writeMemOp, ha], rfl, rfl⟩
    · cases h
  · cases h

end Upload

namespace Session

/-! ## right after a delimiter -/

/-- Some bytes have led a fresh session to `s`, whatever the program was at each of them. -/
inductive Reachable : Session → Prop where
  | fresh : Reachable {}
  | feed {s : Session} (reached : Reachable s) (p : Program) (b : UInt8) :
    Reachable (s.feed p b).session

section
variable {s : Session} {p : Program} {b : UInt8}

theorem session_dispatch (s : Session) (p : Program) (body : List UInt8) :
    (s.dispatch p body).session = s := by
  unfold dispatch
  split
  · rfl
  · rfl
  · rfl
  · dsimp only
    split <;> rfl
  · rfl

theorem session_onDone (s : Session) (p : Program) :
    (s.onDone p).session = { s with phase := .idle } := by
  unfold onDone
  dsimp only
  split
  · rfl
  · rfl
  · exact session_dispatch _ _ _
  · split <;> rfl
  · rfl

theorem session_onByte (s : Session) (p : Program) (b : UInt8) :
    (s.onByte p b).session = {} ∨ (s.onByte p b).session.decoder = s.decoder := by
  unfold onByte
  split
  · split <;> exact .inr rfl
  · split
    · exact .inl rfl
    · dsimp only
      split <;> exact .inr rfl
  · exact .inr rfl
  · exact .inr rfl
  · exact .inr rfl

/-- A receiver inside a frame searches again only when its session starts afresh. -/
theorem feed_within (h : s.decoder ≠ .searching) :
    (s.feed p b).session = {} ∨ (s.feed p b).session.decoder ≠ .searching := by
  have hpush : (s.decoder.push b).1 ≠ .searching := by
    unfold Decoder.push
    split
    · next hd => exact absurd hd h
    · split
      · exact nofun
      · split <;> exact nofun
    · split <;> exact nofun
  unfold feed
  dsimp only
  split
  · exact .inr hpush
  · next c _ =>
    rcases session_onByte { s with decoder := (s.decoder.push b).1 } p c with hf | hd
    · exact .inl hf
    · exact .inr (hd ▸ hpush)
  · rw [session_onDone]
    exact .inr hpush
  · exact .inr hpush

theorem Reachable.idle (h : s.Reachable) (hd : s.decoder = .searching) : s.phase = .idle := by
  induction h with
  | fresh => rfl
  | @feed s _ p b ih =>
    by_cases hs : s.decoder = .searching
    · by_cases hb : b = delimiter
      · simp [Session.feed, Decoder.push, hs, hb] at hd
      · simpa [Session.feed, Decoder.push, hs, hb] using ih hs
    · rcases feed_within (p := p) (b := b) hs with hf | hne
      · rw [hf]
      · exact absurd hd hne

theorem Reachable.feed_delimiter (h : s.Reachable) (p : Program) :
    (s.feed p delimiter).session = ⟨.inFrame, .idle⟩ := by
  unfold Session.feed
  cases hd : s.decoder with
  | searching =>
    show Session.mk .inFrame s.phase = _
    rw [h.idle hd]
  | inFrame => exact session_onDone _ _
  | escaped => rfl

end

/-! ## a chunk at once -/

/-- Bytes without a delimiter lead from within a chunk to within it, and bring no answer. -/
theorem feedAll_within (p : Program) (raw : List UInt8) {more : List UInt8}
    (h : delimiter ∉ more) (n : Nat) :
    ∃ events, (amid p.image raw).feedAll (p.written (unstuff raw).1) n more =
      ⟨amid p.image (raw ++ more), p.written (unstuff (raw ++ more)).1, [], events⟩ := by
  induction more generalizing raw n with
  | nil =>
    rw [List.append_nil]
    exact ⟨[], rfl⟩
  | cons b more ih =>
    have hb : b ≠ delimiter := fun hb => h (hb ▸ List.mem_cons_self)
    have hmore : delimiter ∉ more := fun hm => h (List.mem_cons_of_mem b hm)
    obtain ⟨first, hfirst⟩ := feed_amid p raw hb
    obtain ⟨rest, hrest⟩ := ih (raw ++ [b]) hmore (n + 1)
    rw [List.append_assoc, List.singleton_append] at hrest
    refine ⟨first ++ rest, ?_⟩
    simp only [feedAll, hfirst, hrest]
    rfl

theorem feedAll_chunk (p : Program) {chunk : List UInt8} (h : delimiter ∉ chunk) (n : Nat) :
    let fed := (Session.mk .inFrame .idle).feedAll p n (chunk ++ [delimiter])
    fed.session = ⟨.inFrame, .idle⟩ ∧ fed.program = (p.close chunk).1 ∧
      fed.replies.map (fun r => r.2.bytes) = (p.close chunk).2.toList := by
  obtain ⟨events, hwithin⟩ := feedAll_within p [] h n
  obtain ⟨reply, last, hlast, hbytes⟩ := feed_delimiter p chunk
  have hstart : (Session.mk .inFrame .idle).feedAll p n chunk =
      ⟨amid p.image chunk, p.written (unstuff chunk).1, [], events⟩ := hwithin
  rw [feedAll_append, hstart]
  simp only [feedAll, hlast]
  refine ⟨trivial, trivial, ?_⟩
  rw [← hbytes]
  cases reply <;> rfl

theorem feedAll_delimiters (p : Program) (k n : Nat) :
    (Session.mk .inFrame .idle).feedAll p n (List.replicate k delimiter) =
      ⟨⟨.inFrame, .idle⟩, p, [], []⟩ := by
  induction k generalizing n with
  | zero => rfl
  | succ k ih =>
    have hone : (Session.mk .inFrame .idle).feed p delimiter =
        ⟨⟨.inFrame, .idle⟩, p, none, []⟩ := rfl
    rw [List.replicate_succ, feedAll, hone]
    dsimp only
    rw [ih]
    rfl

theorem feedAll_payload (p : Program) (k n : Nat) (body : List UInt8) :
    let fed := (Session.mk .inFrame .idle).feedAll p n
      (List.replicate k delimiter ++ (stuff body ++ [delimiter]))
    fed.program = (p.answer body).1 ∧
      fed.replies.map (fun r => r.2.bytes) = (p.answer body).2.toList := by
  obtain ⟨-, hprogram, hreplies⟩ := feedAll_chunk p (stuff_no_delimiter body)
    (n + (List.replicate k delimiter).length)
  rw [Program.close_stuff] at hprogram hreplies
  rw [feedAll_append, feedAll_delimiters]
  exact ⟨hprogram, hreplies⟩

end Session

namespace Program

variable {p : Program} {body : List UInt8} {u : Upload}

theorem thread_written (p : Program) (body : List UInt8) : (p.written body).thread = p.thread := by
  unfold written
  split <;> rfl

theorem written_stored {seg : Segment} (hu : Upload.ofBody? body = some u)
    (hseg : Segment.ofId u.id = .ok seg) (hfit : u.offset + u.count ≤ (p.image.segment seg).size) :
    p.image.Stored (p.written body).image seg u.offset (u.offset + u.count)
      (u.data.take u.count) := by
  have hc : u.errorCode? p.image = none := Upload.errorCode?_eq_none_iff.mpr ⟨seg, hseg, hfit⟩
  rw [written_of_some hu, Upload.result_accepted hc, Upload.segment, Segment.numbered_of_ofId hseg]
  exact p.image.stored_patch hfit u.data

theorem image_written_of_not_stored (h : ∀ u, Upload.ofBody? body = some u →
    u.errorCode? p.image ≠ none) : (p.written body).image = p.image := by
  cases hu : Upload.ofBody? body with
  | none => rw [written_of_none hu]
  | some u =>
    obtain ⟨code, hc⟩ := Option.ne_none_iff_exists'.mp (h u hu)
    rw [written_of_some hu, Upload.result_refused hc]

theorem answer_upload (hu : Upload.ofBody? body = some u) :
    (u.errorCode? p.image = none ∧ u.data.length ≤ u.count ∧
      p.answer body = (p.written body, some (accepted 0x77))) ∨
    (¬ (u.errorCode? p.image = none ∧ u.data.length ≤ u.count) ∧
      ∃ code, p.answer body = (p.written body, some (rejected 0x77 code))) := by
  unfold answer
  rw [hu]
  dsimp only
  cases hc : u.errorCode? p.image with
  | some code => exact .inr ⟨fun h => (nomatch h.1), code, rfl⟩
  | none =>
    by_cases hd : u.data.length ≤ u.count
    · exact .inl ⟨rfl, hd, by rw [if_pos hd]⟩
    · exact .inr ⟨fun h => hd h.2, 3, by rw [if_neg hd]⟩

end Program

namespace Session

/-! ## writes that end -/

/-- **Which memory writes are acknowledged.**  Right after a delimiter, and after any number of
further ones, a memory write is acknowledged if and only if its segment exists, the bytes that it
announces lie in the segment, and no more data come than were announced.  Then the data are in the
segment from the offset on, and nothing else has changed but that announced bytecode counts as
code.  Every other memory write is answered with an error. -/
theorem write_acknowledged_iff {s : Session} (h : s.Reachable) (p₀ p : Program) (k n : Nat)
    (id : UInt8) (offset count : UInt16) (data : List UInt8) :
    let fed := (s.feed p₀ delimiter).session.feedAll p n (List.replicate k delimiter ++
      (stuff ((Command.writeMem id offset count).body ++ data) ++ [delimiter]))
    let replies := fed.replies.map fun r => r.2.bytes
    (replies = [[0x77, 0x7E]] ↔ ∃ seg, Segment.ofId id = .ok seg ∧
      offset.toNat + count.toNat ≤ (p.image.segment seg).size ∧ data.length ≤ count.toNat) ∧
    (replies = [[0x77, 0x7E]] → ∀ seg, Segment.ofId id = .ok seg →
      p.image.Stored fed.program.image seg offset.toNat (offset.toNat + count.toNat) data) ∧
    (replies ≠ [[0x77, 0x7E]] → ∃ code, replies = [[0x7E, 0x65, 0x77, code, 0x7E]]) := by
  rw [h.feed_delimiter p₀]
  intro fed replies
  obtain ⟨hprogram, hreplies⟩ := feedAll_payload p k n
    ((Command.writeMem id offset count).body ++ data)
  have hu := Upload.ofBody?_writeMem id offset count data
  have hplaced : (Upload.mk id offset.toNat count.toNat data).errorCode? p.image = none ↔ _ :=
    Upload.errorCode?_eq_none_iff
  rcases Program.answer_upload (p := p) hu with ⟨hc, hd, hanswer⟩ | ⟨hflaw, code, hanswer⟩
  · rw [hanswer] at hprogram hreplies
    obtain ⟨seg, hseg, hfit⟩ := hplaced.mp hc
    have hack : replies = [[0x77, 0x7E]] := hreplies
    refine ⟨iff_of_true hack ⟨seg, hseg, hfit, hd⟩, fun _ seg' hseg' => ?_,
      fun hnot => absurd hack hnot⟩
    cases hseg.symm.trans hseg'
    have hstored := Program.written_stored (p := p) hu hseg hfit
    rw [List.take_of_length_le hd] at hstored
    exact hprogram ▸ hstored
  · rw [hanswer] at hreplies
    have hr : replies = [[0x7E, 0x65, 0x77, code, 0x7E]] := hreplies
    have hnot : replies ≠ [[0x77, 0x7E]] := by rw [hr]; exact nofun
    refine ⟨iff_of_false hnot ?_, fun hack => absurd hack hnot, fun _ => ⟨code, hr⟩⟩
    rintro ⟨seg, hseg, hfit, hd⟩
    exact hflaw ⟨hplaced.mpr ⟨seg, hseg, hfit⟩, hd⟩

def vacant : Program := ⟨.ofParts [⟨0, 0, 0⟩] [0, 0] [0x0D, 0] 0, .idle⟩

theorem write_acknowledged_iff_vacant :
    let fed := (({} : Session).feed vacant delimiter).session.feedAll vacant 0
      (List.replicate 1 delimiter ++ (stuff ((Command.writeMem 2 1 2).body ++ [0x7E, 5]) ++
        [delimiter]))
    Reachable {} ∧ fed.replies.map (fun r => r.2.bytes) = [[0x77, 0x7E]] ∧
      fed.program.image.window .globals 1 2 = [0x7E, 5] := by
  obtain ⟨hiff, hstored, -⟩ := write_acknowledged_iff .fresh vacant vacant 1 0 2 1 2 [0x7E, 5]
  have hack := hiff.mpr ⟨.globals, rfl, by decide, by decide⟩
  exact ⟨.fresh, hack, (hstored hack .globals rfl).window⟩

/-- Of two bytes announced only one comes.  The write is acknowledged all the same, and the second
byte is what it was. -/
theorem short_write_acknowledged :
    let data : List UInt8 := [1]
    let fed := (({} : Session).feed vacant delimiter).session.feedAll vacant 0
      (stuff ((Command.writeMem 2 0 2).body ++ data) ++ [delimiter])
    let replies := fed.replies.map fun r => r.2.bytes
    replies = [[0x77, 0x7E]] ∧ fed.program.image.window .globals 0 2 = [1, 0] ∧
      ¬ (replies = [[0x77, 0x7E]] ↔ ∃ seg, Segment.ofId 2 = .ok seg ∧
        0 + 2 ≤ (vacant.image.segment seg).size ∧ data.length = 2) ∧
      ¬ (replies = [[0x77, 0x7E]] → fed.program.image.window .globals 0 2 = data) := by
  intro data fed replies
  have hack : replies = [[0x77, 0x7E]] := by decide +kernel
  have hwindow : fed.program.image.window .globals 0 2 = [1, 0] := by decide +kernel
  refine ⟨hack, hwindow, fun hiff => ?_, fun hstored => ?_⟩
  · obtain ⟨-, -, -, hlen⟩ := hiff.mp hack
    exact absurd hlen (by decide)
  · rw [hwindow] at hstored
    exact absurd (hstored hack) (by decide)

/-! ## frames that are broken off -/

/-- **What is left of a frame that was broken off.**  Right after a delimiter let a chunk come that
breaks off after an escape mark, and then the delimiter that aborts it.  No answer is given, the
thread is as it was, and the session is ready for a fresh frame.  The image is as it was too, unless
the header of a memory write was complete and its bytes lie in the segment: then the data that came,
up to the announced number, are in the segment from the offset on, announced bytecode counts as
code, and nothing else has changed. -/
theorem aborted_leaves_stored {s : Session} (h : s.Reachable) (p₀ p : Program)
    {chunk : List UInt8} (inside : delimiter ∉ chunk) (dangling : (unstuff chunk).2 = true)
    (n : Nat) :
    let fed := (s.feed p₀ delimiter).session.feedAll p n (chunk ++ [delimiter])
    fed.replies = [] ∧ fed.program.thread = p.thread ∧ fed.session = ⟨.inFrame, .idle⟩ ∧
    ((¬ ∃ id offset count data seg,
        (unstuff chunk).1 = (Command.writeMem id offset count).body ++ data ∧
        Segment.ofId id = .ok seg ∧
        offset.toNat + count.toNat ≤ (p.image.segment seg).size) →
      fed.program.image = p.image) ∧
    (∀ id offset count data seg,
      (unstuff chunk).1 = (Command.writeMem id offset count).body ++ data →
      Segment.ofId id = .ok seg → offset.toNat + count.toNat ≤ (p.image.segment seg).size →
      p.image.Stored fed.program.image seg offset.toNat (offset.toNat + count.toNat)
        (data.take count.toNat)) := by
  rw [h.feed_delimiter p₀]
  intro fed
  obtain ⟨hsession, hprogram, hreplies⟩ := feedAll_chunk p inside n
  have hclose : p.close chunk = (p.written (unstuff chunk).1, none) := if_pos dangling
  rw [hclose] at hprogram hreplies
  have hwritten : fed.program = p.written (unstuff chunk).1 := hprogram
  rw [hwritten]
  refine ⟨List.map_eq_nil_iff.mp hreplies, p.thread_written _, hsession, fun none => ?_, ?_⟩
  · refine Program.image_written_of_not_stored fun u hu hc => none ?_
    obtain ⟨seg, hseg, hfit⟩ := Upload.errorCode?_eq_none_iff.mp hc
    obtain ⟨offset, count, hbody, ho, hn⟩ := Upload.body_of_ofBody? hu
    exact ⟨u.id, offset, count, u.data, seg, hbody, hseg, by rw [ho, hn]; exact hfit⟩
  · intro id offset count data seg hbody hseg hfit
    rw [hbody]
    exact Program.written_stored (Upload.ofBody?_writeMem id offset count data) hseg hfit

theorem aborted_leaves_stored_vacant :
    let chunk : List UInt8 := (Command.writeMem 2 1 2).body ++ [9, escapeMark]
    let fed := (({} : Session).feed vacant delimiter).session.feedAll vacant 0
      (chunk ++ [delimiter])
    Reachable {} ∧ delimiter ∉ chunk ∧ (unstuff chunk).2 = true ∧ fed.replies = [] ∧
      fed.session = ⟨.inFrame, .idle⟩ ∧ fed.program.image.window .globals 1 1 = [9] ∧
      (fed.program.image.segment .globals)[2]? = some 0 := by
  intro chunk fed
  have inside : delimiter ∉ chunk := by decide
  have dangling : (unstuff chunk).2 = true := by decide
  obtain ⟨hreplies, -, hsession, -, hstored⟩ := aborted_leaves_stored .fresh vacant vacant inside
    dangling 0
  have hs := hstored 2 1 2 [9] .globals (by decide) rfl (by decide)
  exact ⟨.fresh, inside, dangling, hreplies, hsession, hs.window,
    hs.elsewhere .globals 2 fun _ => .inr (by decide)⟩

/-- A memory write is broken off after the first of its two bytes.  The first byte stays. -/
theorem aborted_write_stays :
    let chunk : List UInt8 := (Command.writeMem 2 0 2).body ++ [1, escapeMark]
    let fed := (({} : Session).feed vacant delimiter).session.feedAll vacant 0
      (chunk ++ [delimiter])
    delimiter ∉ chunk ∧ (unstuff chunk).2 = true ∧ vacant.image.global? 0 = some 0 ∧
      fed.program.image.global? 0 = some 1 ∧ fed.program.image ≠ vacant.image := by
  intro chunk fed
  have hbefore : vacant.image.global? 0 = some 0 := by decide +kernel
  have hafter : fed.program.image.global? 0 = some 1 := by decide +kernel
  refine ⟨by decide, by decide, hbefore, hafter, fun hsame => ?_⟩
  rw [hsame, hbefore] at hafter
  exact absurd hafter (by decide)

end Session
end TickMachine
