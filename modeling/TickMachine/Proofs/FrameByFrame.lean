import TickMachine.Session
import TickMachine.Proofs.Chunks
import TickMachine.Proofs.Patches

/-!
# Sessions, frame by frame

A session takes its stream byte by byte: a receiver undoes the stuffing, payload bytes are kept
until the frame ends, those of a memory write are stored at once, and a command that grows too
long sends the receiver back to searching.  All that comes to the same as cutting the stream into
chunks and answering one payload after the other.

* `Program.answer`   what a whole payload does, and the bytes that answer it;
* `Program.byFrames`   a cut stream, one chunk after the other;
* `Session.heard`, `Session.amid`   how a session stands in the middle of a chunk, as a function
                       of the chunk alone;
* `Session.feed_amid`   a further byte of the chunk leads from there to there;
* `Session.feed_delimiter`   the delimiter after it brings the answer;
* `Session.feedAll_eq_byFrames`   both together, for every stream.
-/

namespace TickMachine

/-! ## whole payloads -/

/-- The segment with the number `id`, which is at most two. -/
def Segment.numbered (id : UInt8) : Segment :=
  if id = 0 then .bytecode else if id = 1 then .routines else .globals

/-- A memory write, as its payload spells it out. -/
structure Upload where
  id : UInt8
  offset : Nat
  count : Nat
  data : List UInt8

namespace Upload

def ofBody? : List UInt8 → Option Upload
  | a :: id :: o₀ :: o₁ :: n₀ :: n₁ :: data =>
    if a = 0x77 then some ⟨id, (word o₀ o₁).toNat, (word n₀ n₁).toNat, data⟩ else none
  | _ => none

def segment (u : Upload) : Segment := .numbered u.id

def errorCode? (u : Upload) (img : Image) : Option UInt8 :=
  if 2 < u.id then some 1
  else if (img.segment u.segment).size < u.offset + u.count then some 2
  else none

def result (u : Upload) (img : Image) : Image :=
  match u.errorCode? img with
  | some _ => img
  | none => img.patch u.segment u.offset u.count u.data

end Upload

namespace Program

def accepted (op : UInt8) : List UInt8 := [op, delimiter]

def rejected (op code : UInt8) : List UInt8 := [delimiter, 0x65, op, code, delimiter]

/-- What a payload does to a program before its frame ends. -/
def written (p : Program) (body : List UInt8) : Program :=
  match Upload.ofBody? body with
  | some u => { p with image := u.result p.image }
  | none => p

/-- Start a routine that takes `nargs` arguments, and the answer. -/
def start (p : Program) (index nargs : UInt8) : Program × List UInt8 :=
  match p.image.routine? index.toNat, p.thread.enter p.image index.toNat with
  | some r, .ok thread =>
    if r.argc = nargs then ({ p with thread := thread }, accepted 0x78) else (p, rejected 0x78 5)
  | _, _ => (p, rejected 0x78 4)

/-- What a payload does to a program when its frame ends, and the answer. -/
def answer (p : Program) (body : List UInt8) : Program × Option (List UInt8) :=
  match Upload.ofBody? body with
  | some u =>
    (p.written body, some <| match u.errorCode? p.image with
      | some code => rejected 0x77 code
      | none => if u.data.length ≤ u.count then accepted 0x77 else rejected 0x77 3)
  | none =>
    match body with
    | [0x68] => (p, some [delimiter, 0x68, 0x53, 0x54, 0x41, 0x4B, delimiter])
    | [0x72] => ({ p with thread := p.thread.reset }, some (accepted 0x72))
    | [0x78, index, nargs] => (p.start index nargs).map id some
    | _ => (p, none)

/-- What a chunk does when the delimiter after it has come.  One that breaks off after an escape
mark is aborted: it gets no answer, and what a memory write in it has stored stays. -/
def close (p : Program) (chunk : List UInt8) : Program × Option (List UInt8) :=
  if (unstuff chunk).2 then (p.written (unstuff chunk).1, none) else p.answer (unstuff chunk).1

/-- The chunks of a stream one after the other.  The last one has no end yet, and so no answer. -/
def byFrames (p : Program) : List (List UInt8) → Program × List (List UInt8)
  | [] => (p, [])
  | [last] => (p.written (unstuff last).1, [])
  | chunk :: more =>
    let closed := p.close chunk
    let rest := closed.1.byFrames more
    (rest.1, closed.2.toList ++ rest.2)

end Program

/-! ## memory writes -/

theorem Segment.ofId_eq (id : UInt8) :
    Segment.ofId id = if 2 < id then .error (.invalidSegment id) else .ok (.numbered id) := by
  unfold Segment.ofId
  split
  · rfl
  · rfl
  · rfl
  · next h0 h1 h2 =>
    have hid : 2 < id := by
      rw [UInt8.lt_iff_toNat_lt]
      have h0' : id.toNat ≠ 0 := fun h => h0 (UInt8.toNat_inj.mp h)
      have h1' : id.toNat ≠ 1 := fun h => h1 (UInt8.toNat_inj.mp h)
      have h2' : id.toNat ≠ 2 := fun h => h2 (UInt8.toNat_inj.mp h)
      show 2 < id.toNat
      omega
    rw [if_pos hid]

theorem Command.body_of_parse? {b : List UInt8} {c : Command} (h : Command.parse? b = some c) :
    c.body = b := by
  unfold Command.parse? at h
  split at h
  · split at h
    · next ha => cases h; rw [ha]; rfl
    · split at h
      · next ha => cases h; rw [ha]; rfl
      · cases h
  · split at h
    · next ha => cases h; rw [ha]; rfl
    · cases h
  · split at h
    · next ha => cases h; simp [Command.body, ha]
    · cases h
  · cases h

namespace Upload

variable {u : Upload} {img : Image} {body : List UInt8} {b : UInt8}

theorem ofBody?_eq_none_iff {a : UInt8} {rest : List UInt8} :
    ofBody? (a :: rest) = none ↔ a ≠ 0x77 ∨ rest.length < 5 := by
  rcases rest with _ | ⟨id, _ | ⟨o₀, _ | ⟨o₁, _ | ⟨n₀, _ | ⟨n₁, data⟩⟩⟩⟩⟩
  -- a header that is not complete
  iterate 5 exact iff_of_true rfl (.inr (by simp))
  have hl : ¬ (id :: o₀ :: o₁ :: n₀ :: n₁ :: data).length < 5 := by
    simp only [List.length_cons]
    omega
  refine ⟨fun h => .inl fun ha => ?_, fun h => if_neg (h.resolve_right hl)⟩
  rw [ofBody?, if_pos ha] at h
  cases h

theorem letter {a : UInt8} {rest : List UInt8} (h : ofBody? (a :: rest) = some u) : a = 0x77 := by
  by_cases ha : a = 0x77
  · exact ha
  · rw [ofBody?_eq_none_iff.mpr (.inl ha)] at h
    cases h

theorem ofBody?_concat (h : ofBody? body = some u) (b : UInt8) :
    ofBody? (body ++ [b]) = some { u with data := u.data ++ [b] } := by
  unfold ofBody? at h
  split at h
  · split at h
    · next ha =>
      cases h
      simp [ofBody?, ha]
    · cases h
  · cases h

def why (u : Upload) (img : Image) : Refusal :=
  if 2 < u.id then .invalidSegment u.id
  else .outOfBounds u.offset u.count (img.segment u.segment).size

theorem code_why {code : UInt8} (h : u.errorCode? img = some code) : (u.why img).code = code := by
  unfold errorCode? at h
  unfold why
  split at h
  · next hid =>
    cases h
    rw [if_pos hid]
    rfl
  · next hid =>
    rw [if_neg hid]
    split at h
    · cases h
      rfl
    · cases h

theorem fits (h : u.errorCode? img = none) :
    ¬ 2 < u.id ∧ u.offset + u.count ≤ (img.segment u.segment).size := by
  unfold errorCode? at h
  split at h
  · cases h
  · next hid =>
    split at h
    · cases h
    · next hs => exact ⟨hid, Nat.le_of_not_lt hs⟩

/-- The phase of a session in the middle of a memory write. -/
def phase (u : Upload) (img : Image) : Phase :=
  match u.errorCode? img with
  | some _ => .refused Command.writeMemOp (u.why img)
  | none => .writing ⟨u.segment, u.offset + min u.data.length u.count, u.offset + u.count, u.count,
      u.data.length - u.count⟩

theorem phase_refused {code : UInt8} (h : u.errorCode? img = some code) :
    u.phase img = .refused Command.writeMemOp (u.why img) := by
  unfold phase
  rw [h]

theorem phase_accepted (h : u.errorCode? img = none) :
    u.phase img = .writing ⟨u.segment, u.offset + min u.data.length u.count, u.offset + u.count,
      u.count, u.data.length - u.count⟩ := by
  unfold phase
  rw [h]

theorem result_refused {code : UInt8} (h : u.errorCode? img = some code) : u.result img = img := by
  unfold result
  rw [h]

theorem result_accepted (h : u.errorCode? img = none) :
    u.result img = img.patch u.segment u.offset u.count u.data := by
  unfold result
  rw [h]

theorem errorCode?_data (u : Upload) (img : Image) (data : List UInt8) :
    { u with data := data }.errorCode? img = u.errorCode? img := rfl

theorem store_phase (h : u.errorCode? img = none) (b : UInt8) :
    Session.store ⟨u.segment, u.offset + min u.data.length u.count, u.offset + u.count, u.count,
        u.data.length - u.count⟩ (img.patch u.segment u.offset u.count u.data) b =
      ({ u with data := u.data ++ [b] }.phase img,
        img.patch u.segment u.offset u.count (u.data ++ [b])) := by
  obtain ⟨-, hs⟩ := fits h
  have hp : { u with data := u.data ++ [b] }.phase img = .writing ⟨u.segment,
      u.offset + min (u.data ++ [b]).length u.count, u.offset + u.count, u.count,
      (u.data ++ [b]).length - u.count⟩ := phase_accepted ((errorCode?_data u img _).trans h)
  rw [hp, List.length_append, List.length_singleton]
  unfold Session.store
  by_cases hd : u.data.length < u.count
  · rw [Nat.min_eq_left (Nat.le_of_lt hd), if_pos (by dsimp only; omega)]
    dsimp only
    rw [Image.reserve_patch img hs hd]
    dsimp only
    rw [Image.poke_patch _ _ _ hd, Nat.min_eq_left (by omega), Nat.sub_eq_zero_of_le (by omega),
      Nat.sub_eq_zero_of_le (by omega), Nat.add_assoc]
  · have hd' : u.count ≤ u.data.length := by omega
    rw [Nat.min_eq_right hd', if_neg (Nat.lt_irrefl _), Image.patch_append_of_le _ _ _ hd',
      Nat.min_eq_right (by omega), Nat.sub_add_comm hd']

theorem beginWrite_eq (img : Image) (id o₀ o₁ n₀ n₁ : UInt8) :
    ∃ events, Session.beginWrite img [0x77, id, o₀, o₁, n₀, n₁] =
      ((Upload.mk id (word o₀ o₁).toNat (word n₀ n₁).toNat []).phase img,
        (Upload.mk id (word o₀ o₁).toNat (word n₀ n₁).toNat []).result img, events) := by
  generalize hu : Upload.mk id (word o₀ o₁).toNat (word n₀ n₁).toNat [] = u
  have hid : id = u.id := by rw [← hu]
  have ho : (word o₀ o₁).toNat = u.offset := by rw [← hu]
  have hn : (word n₀ n₁).toNat = u.count := by rw [← hu]
  have hdata : u.data = [] := by rw [← hu]
  have hparse : Command.parse? [0x77, id, o₀, o₁, n₀, n₁] =
      some (.writeMem id (word o₀ o₁) (word n₀ n₁)) := rfl
  unfold Session.beginWrite
  rw [hparse]
  dsimp only
  rw [ho, hn, hid, Segment.ofId_eq]
  by_cases hbad : 2 < u.id
  · have hcode : u.errorCode? img = some 1 := if_pos hbad
    have hwhy : u.why img = .invalidSegment u.id := if_pos hbad
    rw [phase_refused hcode, result_refused hcode, hwhy, if_pos hbad]
    exact ⟨_, rfl⟩
  rw [if_neg hbad]
  by_cases hfit : (img.segment u.segment).size < u.offset + u.count
  · have hcode : u.errorCode? img = some 2 := (if_neg hbad).trans (if_pos hfit)
    have hwhy : u.why img = .outOfBounds u.offset u.count (img.segment u.segment).size :=
      if_neg hbad
    have hres := Image.reserve_refuses img hfit
    unfold segment at hres
    rw [phase_refused hcode, result_refused hcode, hwhy]
    simp only [bind, Except.bind, hres]
    exact ⟨_, rfl⟩
  · have hcode : u.errorCode? img = none := (if_neg hbad).trans (if_neg hfit)
    have hres := Image.reserve_eq img (Nat.le_of_not_lt hfit)
    unfold segment at hres
    rw [phase_accepted hcode, result_accepted hcode, hdata, List.length_nil, Nat.zero_min,
      Nat.zero_sub]
    simp only [bind, Except.bind, hres, pure, Except.pure]
    exact ⟨_, rfl⟩

end Upload

theorem Program.written_of_some {p : Program} {body : List UInt8} {u : Upload}
    (h : Upload.ofBody? body = some u) :
    p.written body = { p with image := u.result p.image } := by
  unfold written
  rw [h]

theorem Program.written_of_none {p : Program} {body : List UInt8}
    (h : Upload.ofBody? body = none) : p.written body = p := by
  unfold written
  rw [h]

namespace Session

/-! ## in the middle of a chunk -/

/-- The phase of a session that has received `body` of a payload, and none when it has given the
payload up. -/
def heard (img : Image) : List UInt8 → Option Phase
  | [] => some .idle
  | a :: rest =>
    if Command.isKnown a then
      match Upload.ofBody? (a :: rest) with
      | some u => some (u.phase img)
      | none =>
        if (a :: rest).length ≤ Command.bufferSize then some (.receiving (a :: rest)) else none
    else
      some .discarding

/-- A session whose receiver is at `d`, unless it has given the payload up. -/
def standing (d : Decoder) : Option Phase → Session
  | some phase => ⟨d, phase⟩
  | none => {}

/-- A session on an image that was `img` when the chunk began of which `raw` has come in. -/
def amid (img : Image) (raw : List UInt8) : Session :=
  standing (.within (unstuff raw).2) (heard img (unstuff raw).1)

variable {p : Program} {body : List UInt8} {phase : Phase}

theorem heard_of_unknown (img : Image) {a : UInt8} (h : ¬ Command.isKnown a) (rest : List UInt8) :
    heard img (a :: rest) = some .discarding := by
  rw [heard, if_neg h]

theorem heard_of_upload {img : Image} {u : Upload} (h : Upload.ofBody? body = some u) :
    heard img body = some (u.phase img) := by
  cases body with
  | nil => cases h
  | cons a rest =>
    have ha := Upload.letter h
    subst ha
    have hk : Command.isKnown 0x77 := rfl
    rw [heard, if_pos hk, h]

theorem heard_of_none {img : Image} {a : UInt8} {rest : List UInt8} (hk : Command.isKnown a)
    (h : Upload.ofBody? (a :: rest) = none) :
    heard img (a :: rest) =
      if rest.length < Command.bufferSize then some (.receiving (a :: rest)) else none := by
  rw [heard, if_pos hk, h]
  rfl

theorem heard_concat_of_none {img : Image} (h : heard img body = none) (b : UInt8) :
    heard img (body ++ [b]) = none := by
  cases body with
  | nil => cases h
  | cons a rest =>
    by_cases hk : Command.isKnown a
    · cases hu : Upload.ofBody? (a :: rest) with
      | some u =>
        rw [heard_of_upload hu] at h
        cases h
      | none =>
        rw [heard_of_none hk hu] at h
        by_cases hl : rest.length < Command.bufferSize
        · rw [if_pos hl] at h
          cases h
        -- a memory write would not have grown so long without its header being complete
        have ha : a ≠ 0x77 := by
          rcases Upload.ofBody?_eq_none_iff.mp hu with ha | hr
          · exact ha
          · exact absurd (Nat.lt_trans hr (by decide)) hl
        rw [List.cons_append, heard_of_none hk (Upload.ofBody?_eq_none_iff.mpr (.inl ha)), if_neg]
        rw [List.length_append]
        omega
    · rw [heard_of_unknown img hk] at h
      cases h

/-! ### a further byte of the payload -/

theorem onByte_first (p : Program) (b : UInt8) :
    ∃ events, (Session.mk .inFrame .idle).onByte p b =
      ⟨standing .inFrame (heard p.image [b]), p, none, events⟩ := by
  unfold onByte
  dsimp only
  by_cases hk : Command.isKnown b
  · rw [if_pos hk, heard_of_none hk rfl]
    exact ⟨_, rfl⟩
  · rw [if_neg hk, heard_of_unknown _ hk]
    exact ⟨_, rfl⟩

theorem onByte_upload (p : Program) {u : Upload} (h : Upload.ofBody? body = some u) (b : UInt8) :
    ∃ events, (Session.mk .inFrame (u.phase p.image)).onByte (p.written body) b =
      ⟨standing .inFrame (heard p.image (body ++ [b])), p.written (body ++ [b]), none, events⟩ := by
  have h' := Upload.ofBody?_concat h b
  rw [heard_of_upload h', Program.written_of_some h, Program.written_of_some h']
  cases hc : u.errorCode? p.image with
  | some code =>
    have hc' := (Upload.errorCode?_data u p.image (u.data ++ [b])).trans hc
    rw [Upload.result_refused hc, Upload.result_refused hc', Upload.phase_refused hc,
      Upload.phase_refused hc']
    exact ⟨_, rfl⟩
  | none =>
    have hc' := (Upload.errorCode?_data u p.image (u.data ++ [b])).trans hc
    rw [Upload.result_accepted hc, Upload.result_accepted hc', Upload.phase_accepted hc]
    unfold onByte
    dsimp only
    rw [Upload.store_phase hc]
    exact ⟨_, rfl⟩

theorem onByte_receiving (p : Program) {a : UInt8} {rest : List UInt8} (hk : Command.isKnown a)
    (hu : Upload.ofBody? (a :: rest) = none) (hl : rest.length < Command.bufferSize) (b : UInt8) :
    ∃ events, (Session.mk .inFrame (.receiving (a :: rest))).onByte p b =
      ⟨standing .inFrame (heard p.image (a :: rest ++ [b])), p.written (a :: rest ++ [b]), none,
        events⟩ := by
  have hu' := Upload.ofBody?_eq_none_iff.mp hu
  unfold onByte
  dsimp only
  rw [List.cons_append, List.length_cons]
  by_cases hfull : Command.bufferSize ≤ rest.length + 1
  · -- the buffer is full: what is in it is no memory write, whose header is shorter
    have hfull' : 32 ≤ rest.length + 1 := hfull
    have hn : Upload.ofBody? (a :: (rest ++ [b])) = none := by
      rw [Upload.ofBody?_eq_none_iff]
      left
      rcases hu' with ha | hr
      · exact ha
      · omega
    rw [if_pos hfull, heard_of_none hk hn, Program.written_of_none hn, if_neg]
    · exact ⟨_, rfl⟩
    · rw [List.length_append, List.length_singleton]
      omega
  rw [if_neg hfull]
  by_cases hw : a = 0x77 ∧ rest.length = 4
  · -- the header of a memory write is complete
    obtain ⟨rfl, hr⟩ := hw
    obtain ⟨id, o₀, o₁, n₀, rfl⟩ : ∃ id o₀ o₁ n₀, rest = [id, o₀, o₁, n₀] := by
      match rest, hr with
      | [id, o₀, o₁, n₀], _ => exact ⟨id, o₀, o₁, n₀, rfl⟩
    have hs : Upload.ofBody? ([0x77, id, o₀, o₁, n₀, b]) =
        some ⟨id, (word o₀ o₁).toNat, (word n₀ b).toNat, []⟩ := rfl
    obtain ⟨events, hb⟩ := Upload.beginWrite_eq p.image id o₀ o₁ n₀ b
    simp only [List.cons_append, List.nil_append]
    rw [if_pos ⟨rfl, rfl⟩, heard_of_upload hs, Program.written_of_some hs, hb]
    exact ⟨_, rfl⟩
  · have hn : Upload.ofBody? (a :: (rest ++ [b])) = none := by
      rw [Upload.ofBody?_eq_none_iff, List.length_append, List.length_singleton]
      by_cases ha : a = 0x77
      · right
        have hr : rest.length ≠ 4 := fun hr => hw ⟨ha, hr⟩
        rcases hu' with ha' | hr'
        · exact absurd ha ha'
        · omega
      · exact .inl ha
    rw [heard_of_none hk hn, Program.written_of_none hn, if_neg, if_pos]
    · exact ⟨_, rfl⟩
    · rw [List.length_append, List.length_singleton]
      omega
    · rintro ⟨ha, hr⟩
      rw [List.length_cons, List.length_append, List.length_singleton] at hr
      exact hw ⟨Option.some.inj ha, Nat.succ.inj (Nat.succ.inj hr)⟩

theorem onByte_heard (h : heard p.image body = some phase) (b : UInt8) :
    ∃ events, (Session.mk .inFrame phase).onByte (p.written body) b =
      ⟨standing .inFrame (heard p.image (body ++ [b])), p.written (body ++ [b]), none, events⟩ := by
  cases body with
  | nil =>
    cases h
    exact onByte_first p b
  | cons a rest =>
    cases hu : Upload.ofBody? (a :: rest) with
    | some u =>
      rw [heard_of_upload hu] at h
      cases h
      exact onByte_upload p hu b
    | none =>
      rw [Program.written_of_none hu]
      by_cases hk : Command.isKnown a
      · rw [heard_of_none hk hu] at h
        by_cases hl : rest.length < Command.bufferSize
        · rw [if_pos hl] at h
          cases h
          exact onByte_receiving p hk hu hl b
        · rw [if_neg hl] at h
          cases h
      · rw [heard_of_unknown _ hk] at h
        cases h
        have hn : Upload.ofBody? (a :: (rest ++ [b])) = none := by
          apply Upload.ofBody?_eq_none_iff.mpr
          left
          rintro rfl
          exact hk rfl
        rw [List.cons_append, heard_of_unknown _ hk, Program.written_of_none hn]
        exact ⟨_, rfl⟩

/-! ### the end of the payload -/

theorem parse?_unknown {a : UInt8} (h : ¬ Command.isKnown a) (rest : List UInt8) :
    Command.parse? (a :: rest) = none := by
  cases hc : Command.parse? (a :: rest) with
  | none => rfl
  | some c =>
    have hb := Command.body_of_parse? hc
    cases c <;> cases hb <;> exact absurd rfl h

theorem answer_of_parse?_none (hu : Upload.ofBody? body = none)
    (hc : Command.parse? body = none) : p.answer body = (p, none) := by
  unfold Program.answer
  rw [hu]
  dsimp only
  split
  · cases hc
  · cases hc
  · cases hc
  · rfl

theorem beginExec_start (p : Program) (index nargs : UInt8) :
    (∃ p', beginExec p index.toNat nargs.toNat = .ok p' ∧
      p.start index nargs = (p', Program.accepted 0x78)) ∨
    (∃ why, beginExec p index.toNat nargs.toNat = .error why ∧
      p.start index nargs = (p, Program.rejected 0x78 why.code)) := by
  unfold Program.start beginExec
  cases hr : p.image.routine? index.toNat with
  | none => exact .inr ⟨_, rfl, rfl⟩
  | some r =>
    obtain ⟨t, he⟩ : ∃ t, p.thread.enter p.image index.toNat = .ok t := by
      unfold Thread.enter
      rw [hr]
      exact ⟨_, rfl⟩
    rw [he]
    dsimp only
    by_cases hn : r.argc = nargs
    · have hn' : r.argc.toNat = nargs.toNat := by rw [hn]
      rw [if_pos hn, if_pos hn']
      exact .inl ⟨_, rfl, rfl⟩
    · have hn' : r.argc.toNat ≠ nargs.toNat := fun h => hn (UInt8.toNat_inj.mp h)
      rw [if_neg hn, if_neg hn']
      exact .inr ⟨_, rfl, rfl⟩

theorem dispatch_answer (s : Session) (p : Program) (hu : Upload.ofBody? body = none) :
    ∃ reply events, s.dispatch p body = ⟨s, (p.answer body).1, reply, events⟩ ∧
      reply.map Reply.bytes = (p.answer body).2 := by
  unfold dispatch
  cases hc : Command.parse? body with
  | none =>
    rw [answer_of_parse?_none hu hc]
    exact ⟨_, _, rfl, rfl⟩
  | some c =>
    have hb := Command.body_of_parse? hc
    subst hb
    cases c with
    | hello => exact ⟨_, _, rfl, rfl⟩
    | reset => exact ⟨_, _, rfl, rfl⟩
    | writeMem id offset count => cases hu
    | beginExec index nargs =>
      have ha : p.answer (Command.beginExec index nargs).body =
          (p.start index nargs).map id some := rfl
      rw [ha]
      dsimp only
      rcases beginExec_start p index nargs with ⟨p', hx, hs⟩ | ⟨why, hx, hs⟩
      · rw [hx, hs]
        exact ⟨_, _, rfl, rfl⟩
      · rw [hx, hs]
        refine ⟨_, _, rfl, ?_⟩
        cases why <;> rfl

theorem onDone_heard (h : heard p.image body = some phase) :
    ∃ reply events, (Session.mk .inFrame phase).onDone (p.written body) =
        ⟨⟨.inFrame, .idle⟩, (p.answer body).1, reply, events⟩ ∧
      reply.map Reply.bytes = (p.answer body).2 := by
  cases body with
  | nil =>
    cases h
    exact ⟨none, _, rfl, rfl⟩
  | cons a rest =>
    cases hu : Upload.ofBody? (a :: rest) with
    | some u =>
      have ha : p.answer (a :: rest) = (p.written (a :: rest), some <|
          match u.errorCode? p.image with
          | some code => Program.rejected 0x77 code
          | none => if u.data.length ≤ u.count then Program.accepted 0x77
            else Program.rejected 0x77 3) := by
        unfold Program.answer
        rw [hu]
      rw [heard_of_upload hu] at h
      cases h
      rw [ha]
      cases hc : u.errorCode? p.image with
      | some code =>
        rw [Upload.phase_refused hc]
        refine ⟨_, _, rfl, ?_⟩
        rw [← Upload.code_why hc]
        cases u.why p.image <;> rfl
      | none =>
        rw [Upload.phase_accepted hc]
        unfold onDone
        dsimp only
        by_cases hd : u.data.length ≤ u.count
        · rw [if_pos hd, if_neg (by omega)]
          exact ⟨_, _, rfl, rfl⟩
        · rw [if_neg hd, if_pos (by omega)]
          exact ⟨_, _, rfl, rfl⟩
    | none =>
      rw [Program.written_of_none hu]
      by_cases hk : Command.isKnown a
      · rw [heard_of_none hk hu] at h
        by_cases hl : rest.length < Command.bufferSize
        · rw [if_pos hl] at h
          cases h
          exact dispatch_answer _ p hu
        · rw [if_neg hl] at h
          cases h
      · rw [heard_of_unknown _ hk] at h
        cases h
        rw [answer_of_parse?_none hu (parse?_unknown hk rest)]
        exact ⟨_, _, rfl, rfl⟩

theorem given_up {img : Image} (h : heard img body = none) :
    Upload.ofBody? body = none ∧ Command.parse? body = none := by
  cases body with
  | nil => cases h
  | cons a rest =>
    cases hu : Upload.ofBody? (a :: rest) with
    | some u =>
      rw [heard_of_upload hu] at h
      cases h
    | none =>
      refine ⟨rfl, ?_⟩
      cases hc : Command.parse? (a :: rest) with
      | none => rfl
      | some c =>
        have hb := Command.body_of_parse? hc
        cases c <;> cases hb <;> cases h

/-! ## bytes and delimiters -/

/-- A byte that is no delimiter belongs to the chunk, and brings no answer. -/
theorem feed_amid (p : Program) (raw : List UInt8) {b : UInt8} (hb : b ≠ delimiter) :
    ∃ events, (amid p.image raw).feed (p.written (unstuff raw).1) b =
      ⟨amid p.image (raw ++ [b]), p.written (unstuff (raw ++ [b])).1, none, events⟩ := by
  have hconcat := unstuff_concat raw b
  unfold amid
  cases hh : heard p.image (unstuff raw).1 with
  | none =>
    -- the receiver is searching, and this is not what it searches for
    have hh' : heard p.image (unstuff (raw ++ [b])).1 = none := by
      rw [hconcat]
      split
      · exact heard_concat_of_none hh _
      · split
        · exact hh
        · exact heard_concat_of_none hh _
    rw [hh', Program.written_of_none (given_up hh).1, Program.written_of_none (given_up hh').1]
    simp [standing, feed, Decoder.push, hb]
  | some phase =>
    cases hd : (unstuff raw).2 with
    | true =>
      rw [hd, if_pos rfl] at hconcat
      rw [hconcat]
      have hf : (standing (.within true) (some phase)).feed (p.written (unstuff raw).1) b =
          (Session.mk .inFrame phase).onByte (p.written (unstuff raw).1) (flip b) := by
        simp [standing, feed, Decoder.push, Decoder.within, hb]
      rw [hf]
      exact onByte_heard hh (flip b)
    | false =>
      rw [hd, if_neg Bool.false_ne_true] at hconcat
      by_cases he : b = escapeMark
      · rw [if_pos he] at hconcat
        rw [hconcat]
        dsimp only
        rw [hh]
        simp [standing, feed, Decoder.push, Decoder.within, he]
      · rw [if_neg he] at hconcat
        rw [hconcat]
        have hf : (standing (.within false) (some phase)).feed (p.written (unstuff raw).1) b =
            (Session.mk .inFrame phase).onByte (p.written (unstuff raw).1) b := by
          simp [standing, feed, Decoder.push, Decoder.within, he, hb]
        rw [hf]
        exact onByte_heard hh b

/-- A delimiter ends the chunk, brings the answer, and begins the next chunk. -/
theorem feed_delimiter (p : Program) (raw : List UInt8) :
    ∃ reply events, (amid p.image raw).feed (p.written (unstuff raw).1) delimiter =
        ⟨⟨.inFrame, .idle⟩, (p.close raw).1, reply, events⟩ ∧
      reply.map Reply.bytes = (p.close raw).2 := by
  unfold amid Program.close
  cases hh : heard p.image (unstuff raw).1 with
  | none =>
    obtain ⟨hu, hc⟩ := given_up hh
    rw [Program.written_of_none hu, answer_of_parse?_none hu hc]
    refine ⟨none, [], ?_, ?_⟩
    · split <;> simp [standing, feed, Decoder.push]
    · split <;> rfl
  | some phase =>
    cases hd : (unstuff raw).2 with
    | true =>
      rw [if_pos rfl]
      exact ⟨none, _, rfl, rfl⟩
    | false =>
      rw [if_neg Bool.false_ne_true]
      exact onDone_heard hh

/-! ## streams -/

theorem splitOn_ne_nil (rest : List UInt8) : ∃ c cs, rest.splitOn delimiter = c :: cs := by
  cases h : rest.splitOn delimiter with
  | nil => exact absurd h (List.splitOn_ne_nil _ _)
  | cons c cs => exact ⟨c, cs, rfl⟩

/-- From the middle of a chunk on, a session does with the rest of the stream what is done frame
by frame. -/
theorem feedAll_amid (p : Program) (raw rest : List UInt8) (hraw : delimiter ∉ raw) (n : Nat) :
    let fed := (amid p.image raw).feedAll (p.written (unstuff raw).1) n rest
    fed.program = (p.byFrames ((raw ++ rest).splitOn delimiter)).1 ∧
      fed.replies.map (fun r => r.2.bytes) =
        (p.byFrames ((raw ++ rest).splitOn delimiter)).2 := by
  induction rest generalizing p raw n with
  | nil =>
    rw [List.append_nil, splitOn_of_notMem hraw]
    exact ⟨rfl, rfl⟩
  | cons b rest ih =>
    by_cases hb : b = delimiter
    · subst hb
      obtain ⟨reply, events, hfed, hreply⟩ := feed_delimiter p raw
      obtain ⟨ih₁, ih₂⟩ := ih (p.close raw).1 [] (List.not_mem_nil) (n + 1)
      obtain ⟨c, cs, hcs⟩ := splitOn_ne_nil rest
      rw [splitOn_append_delimiter hraw]
      rw [List.nil_append, hcs] at ih₁ ih₂
      simp only [feedAll, hfed, hcs, Program.byFrames]
      refine ⟨ih₁, ?_⟩
      rw [List.map_append, ← hreply]
      congr 1
      cases reply <;> rfl
    · obtain ⟨events, hfed⟩ := feed_amid p raw hb
      have hraw' : delimiter ∉ raw ++ [b] := by
        intro h
        rcases List.mem_append.mp h with h | h
        · exact hraw h
        · exact hb (List.mem_singleton.mp h).symm
      obtain ⟨ih₁, ih₂⟩ := ih p (raw ++ [b]) hraw' (n + 1)
      rw [List.append_assoc, List.singleton_append] at ih₁ ih₂
      simp only [feedAll, hfed]
      exact ⟨ih₁, ih₂⟩

/-- **A session does byte by byte what is done frame by frame.**  For every stream, every image and
every thread, a fresh session leaves the program that is left by answering the chunks of the stream
one after the other, and sends the same answers in the same order.  What a chunk asks for is
`Program.answer`: of the four commands each is carried out and acknowledged, or refused with its
number and without effect; all else is dropped without a word. -/
theorem feedAll_eq_byFrames (p : Program) (stream : List UInt8) (n : Nat) :
    let fed := ({} : Session).feedAll p n stream
    fed.program = (p.byFrames (chunks stream)).1 ∧
      fed.replies.map (fun r => r.2.bytes) = (p.byFrames (chunks stream)).2 := by
  induction stream generalizing n with
  | nil => exact ⟨rfl, rfl⟩
  | cons b rest ih =>
    by_cases hb : b = delimiter
    · subst hb
      rw [chunks_delimiter]
      exact feedAll_amid p [] rest List.not_mem_nil (n + 1)
    · rw [chunks_cons_of_ne hb]
      have hfed : ({} : Session).feed p b = ⟨{}, p, none, []⟩ := by
        simp [feed, Decoder.push, hb]
      simp only [feedAll, hfed]
      exact ih (n + 1)

end Session
end TickMachine
