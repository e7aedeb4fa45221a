import Gzv2ray.Smux.Frame

/-!
# smux streams

One end of a stream, and what its program and the loops of its session do to it. An operation
that has a frame written puts a request for it, and goes on when the frame was written.

* `Stream.act`: what the program does, one write and one read at a time: a write is cut into
  frames, in the second version of the protocol as far as the window of the peer goes;
* `Stream.wrote`: the operation that waits for a frame goes on;
* `Stream.receive`: what the receiving loop does with a frame for the stream.
-/

namespace Gzv2ray.Smux

/-- Where a stream is: its opening is under way, it is in the table of its session, or it was
    taken out. -/
inductive Status
  | opening
  | open
  | closed
  deriving DecidableEq

theorem Status.open_ne_opening : Status.open ≠ .opening := by decide

theorem Status.open_ne_closed : Status.open ≠ .closed := by decide

theorem Status.closed_ne_opening : Status.closed ≠ .opening := by decide

theorem Status.opening_ne_closed : Status.opening ≠ .closed := Status.closed_ne_opening.symm

/-- A write in progress. -/
structure Writing where
  /-- What is cut into frames next. -/
  chunk : Bytes
  /-- What has to wait for the window. -/
  rest : Bytes
  /-- The size of the frame that is being written. -/
  requested : Option ℕ := none
  /-- The write waits to be told of the window. -/
  waiting : Bool := false
  deriving DecidableEq

/-- The window that a peer is thought to have at first. -/
def initialPeerWindow : UInt32 := 262144

structure Stream where
  status : Status
  buffers : List Bytes := []
  /-- The number of bytes consumed. -/
  numRead : UInt32 := 0
  /-- The number of frames written, or in the second version of bytes. -/
  numWritten : UInt32 := 0
  /-- The number of bytes consumed since the peer was told. -/
  incr : UInt32 := 0
  peerConsumed : UInt32 := 0
  peerWindow : UInt32 := initialPeerWindow
  /-- The stream was closed here. -/
  die : Bool := false
  /-- The peer has closed it. -/
  fin : Bool := false
  /-- The window has changed. -/
  updated : Bool := false
  writing : Option Writing := none
  /-- The bytes read that are not given back to the bucket yet. -/
  tokens : ℕ := 0
  /-- The number of bytes consumed that a read is to tell the peer. -/
  notifyConsumed : UInt32 := 0
  /-- The frame that tells it is being written. -/
  updating : Bool := false
  /-- The close is waiting for its frame to be written. -/
  closing : Bool := false
  /-- The bytes that were cut into frames. -/
  sent : Bytes := []
  /-- The bytes that were handed to the reader. -/
  returned : Bytes := []
  /-- The bytes that came while the stream was in the table, before, and after. -/
  received : Bytes := []
  early : Bytes := []
  late : Bytes := []
  /-- The bytes that were dropped with the stream. -/
  discarded : Bytes := []
  /-- It was closed in the middle of a write. -/
  cut : Bool := false
  deriving DecidableEq

/-- What the program does to its end of a stream. -/
inductive StreamEvent
  /-- A write begins. -/
  | write (b : Bytes)
  /-- The write looks how much the window takes. -/
  | round
  /-- The write asks for its next frame. -/
  | request
  /-- The write learns that the window has changed. -/
  | wake
  /-- The write stops waiting, as the stream is closed. -/
  | giveUp
  /-- A read takes at most `n` bytes. -/
  | read (n : ℕ)
  /-- It gives their number back to the bucket. -/
  | returnTokens
  /-- It asks for the frame that tells the peer. -/
  | notify
  /-- The stream is closed. -/
  | close
  /-- It is taken out of the table. -/
  | streamClosed
  deriving DecidableEq

namespace Stream

variable (config : Config) (sid : UInt32) (s : Stream)

def version : UInt8 := UInt8.ofNat config.version.toNat

/-- The bytes that can be read. -/
def unread : Bytes := s.buffers.flatten

/-- The reader is not in the middle of a read. -/
def idle : Bool := s.tokens == 0 && s.notifyConsumed == 0 && !s.updating

/-- The stream was taken out of the table, and nothing of it is under way. -/
def settled : Bool := s.status == .closed && s.idle && s.writing.isNone && !s.closing

/-- How much of a write the window takes; nothing where the peer consumed more than was sent. -/
def inflight : Int32 := (s.numWritten - s.peerConsumed).toInt32

/-- A write that has cut its bytes. -/
def next (w : Writing) : Option Writing :=
  if w.chunk ≠ [] then some { w with requested := none }
  else if w.rest ≠ [] then some { w with requested := none, waiting := true }
  else none

/-- The peer is to be told after a read of `n` bytes. -/
def Due (n : ℕ) : Prop :=
  s.incr + UInt32.ofNat n ≥ UInt32.ofNat (config.maxStreamBuffer / 2).toNat ∨
    s.numRead + UInt32.ofNat n = UInt32.ofNat n

instance (n : ℕ) : Decidable (s.Due config n) := inferInstanceAs (Decidable (_ ∨ _))

/-- The state of a read of the bytes `out`, of which `buffers` are left behind it. -/
def consume (out : Bytes) (buffers : List Bytes) : Stream :=
  let s := { s with buffers, tokens := out.length, returned := s.returned ++ out }
  if config.version ≠ 2 then s
  else
    let numRead := s.numRead + UInt32.ofNat out.length
    if s.Due config out.length then { s with numRead, incr := 0, notifyConsumed := numRead }
    else { s with numRead, incr := s.incr + UInt32.ofNat out.length }

/-- What an event does, and the frame that is asked for. -/
def act : StreamEvent → Option (Stream × Option Frame)
  | .write b =>
    if s.status = .opening ∨ s.writing ≠ none then none
    else if s.die ∨ b = [] then some (s, none)
    else if config.version = 2 then some ({ s with writing := some { chunk := [], rest := b } }, none)
    else some ({ s with writing := some { chunk := b, rest := [] } }, none)
  | .round =>
    match s.writing with
    | some ⟨[], b, none, false⟩ =>
      if s.inflight < 0 then some ({ s with writing := none }, none)
      else
        let win := s.peerWindow.toInt32 - s.inflight
        if win > 0 then
          if win > Int32.ofNat b.length then
            some ({ s with writing := some { chunk := b, rest := [] } }, none)
          else some ({ s with
            writing := some { chunk := b.take win.toInt.toNat, rest := b.drop win.toInt.toNat } }, none)
        else some ({ s with writing := some { chunk := [], rest := b, waiting := true } }, none)
    | _ => none
  | .request =>
    match s.writing with
    | some ⟨x :: chunk, rest, none, false⟩ =>
      let sz := min (x :: chunk).length config.maxFrameSize.toNat
      let data := (x :: chunk).take sz
      some ({ s with
        writing := some { chunk := (x :: chunk).drop sz, rest, requested := some sz }
        sent := s.sent ++ data }, some { ver := version config, cmd := .psh, sid, data })
    | _ => none
  | .wake =>
    match s.writing with
    | some ⟨chunk, rest, none, true⟩ =>
      if s.updated then some ({ s with writing := some { chunk, rest }, updated := false }, none) else none
    | _ => none
  | .giveUp =>
    match s.writing with
    | some ⟨_, _, none, true⟩ => if s.fin ∨ s.die then some ({ s with writing := none }, none) else none
    | _ => none
  | .read n =>
    match s.buffers with
    | b :: buffers =>
      if s.idle ∧ 0 < n then
        if (b.drop n).isEmpty then some (s.consume config (b.take n) buffers, none)
        else some (s.consume config (b.take n) (b.drop n :: buffers), none)
      else none
    | [] =>
      -- a read that finds nothing looks whether the peer is to be told, and does not tell it
      if s.idle ∧ 0 < n then some ({ s.consume config [] [] with notifyConsumed := 0 }, none) else none
  | .returnTokens => if s.tokens > 0 then some ({ s with tokens := 0 }, none) else none
  | .notify =>
    if s.notifyConsumed > 0 ∧ s.tokens = 0 then
      some ({ s with notifyConsumed := 0, updating := true },
        some (updFrame (version config) sid s.notifyConsumed (UInt32.ofNat config.maxStreamBuffer.toNat)))
    else none
  | .close =>
    if s.status = .open ∧ ¬ s.die then
      some ({ s with die := true, closing := true, cut := s.writing.isSome },
        some { ver := version config, cmd := .fin, sid })
    else none
  | .streamClosed =>
    if s.closing then
      some ({ s with
        status := .closed, closing := false, buffers := [], discarded := s.discarded ++ s.unread }, none)
    else none

/-- The operation that had the frame written goes on. -/
def wrote (f : Frame) : Stream :=
  match f.cmd with
  | .psh =>
    match s.writing with
    | some w =>
      { s with
        numWritten :=
          if config.version = 2 then s.numWritten + UInt32.ofNat f.data.length else s.numWritten + 1
        writing := next w }
    | none => s
  | .upd => { s with updating := false }
  | _ => s

/-- What the receiving loop does with a frame. Only a stream of the table is found by it. -/
def receive (f : Frame) : Stream :=
  match f.cmd with
  | .psh =>
    match s.status with
    | .opening => { s with early := s.early ++ f.data }
    | .open => { s with buffers := s.buffers ++ [f.data], received := s.received ++ f.data }
    | .closed => { s with late := s.late ++ f.data }
  | .fin => if s.status = .open then { s with fin := true } else s
  | .upd =>
    if s.status = .open then
      { s with peerConsumed := f.consumed, peerWindow := f.window, updated := true }
    else s
  | _ => s

/-! ## What an event can do -/

/-- The window that is left to a write. -/
def win : Int32 := s.peerWindow.toInt32 - s.inflight

/-- The ends that an event can lead to. -/
inductive Acts : Stream → Option Frame → Prop
  | refused : Acts s none
  | write (w : Writing) : s.writing = none → s.die = false → w.requested = none → w.waiting = false →
      (config.version = 2 ∧ w.chunk = [] ∧ w.rest ≠ [] ∨ config.version ≠ 2 ∧ w.chunk ≠ [] ∧ w.rest = []) →
      Acts { s with writing := some w } none
  | consumed (b : Bytes) : s.writing = some { chunk := [], rest := b } → s.inflight < 0 →
      Acts { s with writing := none } none
  | cutAll (b : Bytes) : s.writing = some { chunk := [], rest := b } → ¬ s.inflight < 0 →
      s.win > Int32.ofNat b.length → 0 < s.win →
      Acts { s with writing := some { chunk := b, rest := [] } } none
  | cut (b : Bytes) : s.writing = some { chunk := [], rest := b } → ¬ s.inflight < 0 →
      ¬ s.win > Int32.ofNat b.length → 0 < s.win →
      Acts { s with writing := some {
        chunk := b.take s.win.toInt.toNat, rest := b.drop s.win.toInt.toNat } } none
  | wait (b : Bytes) : s.writing = some { chunk := [], rest := b } → ¬ s.inflight < 0 → ¬ 0 < s.win →
      Acts { s with writing := some { chunk := [], rest := b, waiting := true } } none
  | request (chunk rest : Bytes) (sz : ℕ) : s.writing = some { chunk, rest } → chunk ≠ [] →
      sz = min chunk.length config.maxFrameSize.toNat →
      Acts { s with
        writing := some { chunk := chunk.drop sz, rest, requested := some sz }
        sent := s.sent ++ chunk.take sz }
        (some { ver := version config, cmd := .psh, sid, data := chunk.take sz })
  | wake (chunk rest : Bytes) : s.writing = some { chunk, rest, waiting := true } → s.updated = true →
      Acts { s with writing := some { chunk, rest }, updated := false } none
  | giveUp (chunk rest : Bytes) : s.writing = some { chunk, rest, waiting := true } →
      Acts { s with writing := none } none
  | read (out : Bytes) (buffers : List Bytes) : s.unread = out ++ buffers.flatten → s.idle = true →
      out.length ≤ s.unread.length → (s.buffers = [] → buffers = []) →
      Acts (s.consume config out buffers) none
  | tryRead : s.buffers = [] → s.idle = true →
      Acts { s.consume config [] [] with notifyConsumed := 0 } none
  | returnTokens : Acts { s with tokens := 0 } none
  | notify : s.notifyConsumed > 0 → s.tokens = 0 →
      Acts { s with notifyConsumed := 0, updating := true }
        (some (updFrame (version config) sid s.notifyConsumed (UInt32.ofNat config.maxStreamBuffer.toNat)))
  | close : s.status = .open → s.die = false →
      Acts { s with die := true, closing := true, cut := s.writing.isSome }
        (some { ver := version config, cmd := .fin, sid })
  | streamClosed :
      Acts { s with
        status := .closed, closing := false, buffers := [], discarded := s.discarded ++ s.unread } none

variable {config sid s}

/-- All that an event does is one of these. -/
theorem acts_of_act {e : StreamEvent} {s' : Stream} {f : Option Frame}
    (h : s.act config sid e = some (s', f)) : s.Acts config sid s' f := by
  cases e with
  | write b =>
    rw [act] at h
    split_ifs at h with hbusy hrefused hversion
    · cases h
      exact .refused
    · cases h
      rw [not_or, not_not] at hbusy
      rw [not_or, Bool.not_eq_true] at hrefused
      exact .write _ hbusy.2 hrefused.1 rfl rfl (.inl ⟨hversion, rfl, hrefused.2⟩)
    · cases h
      rw [not_or, not_not] at hbusy
      rw [not_or, Bool.not_eq_true] at hrefused
      exact .write _ hbusy.2 hrefused.1 rfl rfl (.inr ⟨hversion, hrefused.2, rfl⟩)
  | round =>
    rw [act] at h
    split at h
    · rename_i b hwriting
      dsimp only at h
      split_ifs at h with hconsumed hwin hall
      · cases h
        exact .consumed b hwriting hconsumed
      · cases h
        exact .cutAll b hwriting hconsumed hall hwin
      · cases h
        exact .cut b hwriting hconsumed hall hwin
      · cases h
        exact .wait b hwriting hconsumed hwin
    · cases h
  | request =>
    rw [act] at h
    split at h
    · rename_i x chunk rest hwriting
      cases h
      exact .request (x :: chunk) rest _ hwriting (List.cons_ne_nil x chunk) rfl
    · cases h
  | wake =>
    rw [act] at h
    split at h
    · rename_i chunk rest hwriting
      split_ifs at h with hupdated
      cases h
      exact .wake chunk rest hwriting hupdated
    · cases h
  | giveUp =>
    rw [act] at h
    split at h
    · rename_i chunk rest hwriting
      split_ifs at h
      cases h
      exact .giveUp chunk rest hwriting
    · cases h
  | read n =>
    rw [act] at h
    split at h
    · rename_i b buffers hbuffers
      have hunread : s.unread = b ++ buffers.flatten := by rw [unread, hbuffers, List.flatten_cons]
      have hle : (b.take n).length ≤ s.unread.length := by
        rw [hunread, List.length_append, List.length_take]
        omega
      split_ifs at h with hidle hall
      · cases h
        have htake : b.take n = b := List.take_of_length_le (List.drop_eq_nil_iff.1 (List.isEmpty_iff.1 hall))
        refine .read _ _ ?_ hidle.1 hle fun hnil => ?_
        · rw [hunread, htake]
        · rw [hnil] at hbuffers
          cases hbuffers
      · cases h
        refine .read _ _ ?_ hidle.1 hle fun hnil => ?_
        · rw [hunread, List.flatten_cons, ← List.append_assoc, List.take_append_drop]
        · rw [hnil] at hbuffers
          cases hbuffers
    · rename_i hbuffers
      split_ifs at h with hidle
      cases h
      exact .tryRead hbuffers hidle.1
  | returnTokens =>
    rw [act] at h
    split_ifs at h
    cases h
    exact .returnTokens
  | notify =>
    rw [act] at h
    split_ifs at h with hnotify
    cases h
    exact .notify hnotify.1 hnotify.2
  | close =>
    rw [act] at h
    split_ifs at h with hopen
    cases h
    exact .close hopen.1 (Bool.eq_false_of_not_eq_true hopen.2)
  | streamClosed =>
    rw [act] at h
    split_ifs at h
    cases h
    exact .streamClosed

/-- A read changes nothing but the account of what is read. -/
theorem consume_eq (config : Config) (s : Stream) (out : Bytes) (buffers : List Bytes) :
    ∃ numRead incr notifyConsumed, s.consume config out buffers = { s with
      buffers, numRead, incr, notifyConsumed, tokens := out.length, returned := s.returned ++ out } := by
  rw [consume]
  dsimp only
  split_ifs
  · exact ⟨s.numRead, s.incr, s.notifyConsumed, rfl⟩
  · exact ⟨_, 0, _, rfl⟩
  · exact ⟨_, _, s.notifyConsumed, rfl⟩

/-- That a frame was written changes nothing but the operation that had it written. -/
theorem wrote_eq (config : Config) (s : Stream) (f : Frame) :
    ∃ numWritten writing updating, s.wrote config f = { s with numWritten, writing, updating } := by
  rw [wrote]
  split
  · split
    · exact ⟨_, _, s.updating, rfl⟩
    · exact ⟨s.numWritten, s.writing, s.updating, rfl⟩
  · exact ⟨s.numWritten, s.writing, false, rfl⟩
  · exact ⟨s.numWritten, s.writing, s.updating, rfl⟩

/-- What arrives is kept, and so is the end of what the peer sends. -/
theorem receive_eq_of_ne (s : Stream) {f : Frame} (hf : f.cmd ≠ .upd) :
    ∃ buffers received early late fin, s.receive f = { s with buffers, received, early, late, fin } := by
  rw [receive]
  split
  · split
    · exact ⟨s.buffers, s.received, _, s.late, s.fin, rfl⟩
    · exact ⟨_, _, s.early, s.late, s.fin, rfl⟩
    · exact ⟨s.buffers, s.received, s.early, _, s.fin, rfl⟩
  · split_ifs
    · exact ⟨s.buffers, s.received, s.early, s.late, true, rfl⟩
    · exact ⟨s.buffers, s.received, s.early, s.late, s.fin, rfl⟩
  · exact absurd ‹_› hf
  · exact ⟨s.buffers, s.received, s.early, s.late, s.fin, rfl⟩

/-- It changes nothing of what is read or written here. -/
theorem receive_eq (s : Stream) (f : Frame) :
    ∃ buffers received early late fin peerConsumed peerWindow updated, s.receive f = { s with
      buffers, received, early, late, fin, peerConsumed, peerWindow, updated } := by
  by_cases hf : f.cmd = .upd
  · rw [receive, hf]
    dsimp only
    split_ifs
    · exact ⟨s.buffers, s.received, s.early, s.late, s.fin, _, _, true, rfl⟩
    · exact ⟨s.buffers, s.received, s.early, s.late, s.fin, s.peerConsumed, s.peerWindow, s.updated, rfl⟩
  · obtain ⟨buffers, received, early, late, fin, heq⟩ := s.receive_eq_of_ne hf
    exact ⟨buffers, received, early, late, fin, s.peerConsumed, s.peerWindow, s.updated, heq⟩

/-! ## What was received -/

/-- The bytes received are those returned, those that can be read, and those dropped. -/
structure Account (s : Stream) : Prop where
  received : s.received = s.returned ++ s.unread ++ s.discarded
  kept : s.status ≠ .closed → s.discarded = [] ∧ s.late = []
  opening : s.status = .opening → s.received = []
  closed : s.status = .closed → s.buffers = []

theorem Account.new (status : Status) : Account { status } :=
  ⟨rfl, fun _ => ⟨rfl, rfl⟩, fun _ => rfl, fun _ => rfl⟩

/-- While it is being opened, nothing can be read. -/
theorem Account.returned_eq_nil (h : s.Account) (hs : s.status = .opening) : s.returned = [] := by
  have hreceived := h.received
  rw [h.opening hs, List.append_assoc] at hreceived
  exact (List.append_eq_nil_iff.1 hreceived.symm).1

theorem Account.act {s' : Stream} {f : Option Frame} (h : s.Account)
    (hacts : s.Acts config sid s' f) : s'.Account := by
  cases hacts with
  | read out buffers hunread hidle hle hnil =>
    obtain ⟨_, _, _, heq⟩ := consume_eq config s out buffers
    rw [heq]
    refine ⟨?_, h.kept, h.opening, fun hclosed => ?_⟩
    · change s.received = s.returned ++ out ++ buffers.flatten ++ s.discarded
      rw [h.received, hunread]
      simp only [List.append_assoc]
    · exact hnil (h.closed hclosed)
  | tryRead hbuffers =>
    obtain ⟨_, _, _, heq⟩ := consume_eq config s [] []
    rw [heq]
    refine ⟨?_, h.kept, h.opening, fun _ => rfl⟩
    change s.received = s.returned ++ [] ++ [] ++ s.discarded
    rw [h.received, unread, hbuffers]
    simp only [List.flatten_nil, List.append_nil]
  | streamClosed =>
    refine ⟨?_, fun hopen => absurd rfl hopen, fun h => ?_, fun _ => rfl⟩
    · change s.received = s.returned ++ [] ++ (s.discarded ++ s.unread)
      rw [h.received]
      by_cases hclosed : s.status = .closed
      · rw [unread, h.closed hclosed]
        simp only [List.flatten_nil, List.append_nil]
      · rw [(h.kept hclosed).1]
        simp only [List.append_nil, List.nil_append]
    · cases h
  | _ => exact ⟨h.received, h.kept, h.opening, h.closed⟩

theorem Account.wrote (h : s.Account) (f : Frame) : (s.wrote config f).Account := by
  obtain ⟨_, _, _, heq⟩ := wrote_eq config s f
  rw [heq]
  exact ⟨h.received, h.kept, h.opening, h.closed⟩

theorem Account.receive (h : s.Account) (f : Frame) : (s.receive f).Account := by
  rw [Stream.receive]
  split
  · split
    · rename_i hstatus
      exact ⟨h.received, h.kept, h.opening, h.closed⟩
    · rename_i hstatus
      refine ⟨?_, h.kept, fun hs => ?_, fun hs => ?_⟩
      · change s.received ++ f.data = s.returned ++ (s.buffers ++ [f.data]).flatten ++ s.discarded
        have hkept := h.kept (by rw [hstatus]; decide)
        rw [h.received, hkept.1, List.flatten_append, List.flatten_singleton, unread]
        simp only [List.append_nil, List.append_assoc]
      · exact absurd (hs.symm.trans hstatus) (by decide)
      · exact absurd (hs.symm.trans hstatus) (by decide)
    · rename_i hstatus
      exact ⟨h.received, fun hs => absurd hstatus hs, h.opening, h.closed⟩
  · split_ifs
    · exact ⟨h.received, h.kept, h.opening, h.closed⟩
    · exact h
  · split_ifs
    · exact ⟨h.received, h.kept, h.opening, h.closed⟩
    · exact h
  · exact h

end Stream

end Gzv2ray.Smux
