import Gzv2ray.Lib.Transition
import Gzv2ray.Mux.Worker

/-!
# Synchronisation with the frames of a link

A worker reads the frames of a link one after another. It is *in sync* when what is
left of the link starts with a frame: it has read the earlier ones to their ends.

A worker loses sync where it goes on without having read all data of a frame
(`Harmless` excludes exactly these steps):

* a writer fails before the last piece of a stream, with an error whose text `copy`
  takes for the end of the reader;
* a packet is longer than a buffer: the reader gives up after its length. Only the
  server, and only when the session is not new, then ends.

In every run without such steps the worker is in sync (`inSync_of_harmless`).
-/

namespace Gzv2ray

namespace Mux

/-! ## Frames -/

/-- A frame of a link: its metadata and its data. -/
structure Frame where
  metadata : Bytes
  data : Bytes
  length_metadata : metadata.length ≤ 512
  length_data : data.length < 65536

namespace Frame

variable (fr : Frame)

/-- The option in the metadata says that there are data. -/
def hasData : Bool := has (fr.metadata.getD 3 0) optionData

/-- The data, after their length. -/
def payload : Bytes := if fr.hasData then bigEndian 2 fr.data.length ++ fr.data else []

def bytes : Bytes := bigEndian 2 fr.metadata.length ++ fr.metadata ++ fr.payload

end Frame

variable {parseIP : Bytes → Option IPv6}

theorem FrameMetadata.option_of_unmarshalFromBuffer {f g : FrameMetadata} {b : Bytes}
    (h : f.unmarshalFromBuffer parseIP b = .ok g) : g.option = b.getD 3 0 := by
  rw [unmarshalFromBuffer] at h
  split at h
  · cases h
  · dsimp only at h
    split at h
    · split at h
      · cases h
      · cases hread : (addrParser.readAddressPort parseIP readFullBytes [] (b.drop 5)).1 with
        | error e => rw [hread] at h; cases h
        | ok t =>
          obtain ⟨address, port, b'⟩ := t
          rw [hread] at h
          dsimp only at h
          split at h
          · cases h; rfl
          · split at h <;> cases h
            rfl
    · cases h
      rfl

/-! ## Runs -/

/-- The end of a link. -/
inductive Side
  | server
  | client
  deriving DecidableEq

namespace Side

/-- Handles the next frame. -/
def handleFrame (parseIP : Bytes → Option IPv6) (env : Env) (w : Worker) :
    Side → Outcome Unit × Worker
  | server => ServerWorker.handleFrame env w parseIP
  | client => ClientWorker.handleFrame env w parseIP

/-- What the metadata of the next frame are read into. -/
def target (w : Worker) : Side → FrameMetadata
  | server => {}
  | client => w.metadata

/-- The transfer type of the session whose writer is given the data, if any. -/
def recipient (env : Env) (w : Worker) (f : FrameMetadata) : Side → Option TransferType
  | server =>
    if f.sessionStatus = sessionStatusNew then
      if env.dispatched then some (ServerWorker.transferType f) else none
    else if f.sessionStatus = sessionStatusKeep then w.sessions f.sessionID else none
  | client => if f.sessionStatus = sessionStatusKeep then w.sessions f.sessionID else none

end Side

/-- A step: a frame is handled, or the others change the table of the sessions. -/
inductive Action
  | frame (env : Env)
  | others (sessions : UInt16 → Option TransferType)

/-- A worker that reads the given frames, and how many it has handled. -/
def link (side : Side) (parseIP : Bytes → Option IPv6) (frames : List Frame) :
    Lts (Worker × ℕ) Action where
  init s := ∃ reader : BufferedReader,
    reader.bytes = frames.flatMap Frame.bytes ∧ s = ({ reader }, 0)
  step s a t :=
    match a with
    | .frame env => side.handleFrame parseIP env s.1 = (.ok (), t.1) ∧ t.2 = s.2 + 1
    | .others sessions => t = ({ s.1 with sessions }, s.2)

/-- Exactly the frames handled have been read. -/
def InSync (frames : List Frame) (s : Worker × ℕ) : Prop :=
  s.2 ≤ frames.length ∧ s.1.reader.bytes = (frames.drop s.2).flatMap Frame.bytes

/-- The pieces in which the data of a stream come. -/
def pieces (reader : BufferedReader) : List MultiBuffer :=
  let rr := PayloadReader.new .stream reader
  (copyInternal PayloadReader.readMultiBuffer rr.fuel discard rr).written

/-- The first error of the writer is told, unless it is for the last piece. -/
def SilentAtMostLast (write : ℕ → Option Error) (pieces : List MultiBuffer) : Prop :=
  ∀ k e, write k = some e → (∀ j < k, write j = none) → (CopyError.write e).IsSilent →
    pieces.length ≤ k + 1

/-- The step does not go on before the end of the data of a frame: see above. -/
def Harmless (side : Side) (parseIP : Bytes → Option IPv6) (frames : List Frame) (s : Worker × ℕ) :
    Action → Prop
  | .frame env => ∀ fr f, frames[s.2]? = some fr → fr.hasData →
    (side.target s.1).unmarshalFromBuffer parseIP fr.metadata = .ok f →
      match side.recipient env s.1 f with
      | none => True
      | some .stream =>
        SilentAtMostLast env.write (pieces ((side.target s.1).unmarshal parseIP s.1.reader).2)
      | some .packet => fr.data.length ≤ bufSize ∨
        side = .server ∧ f.sessionStatus = sessionStatusKeep
  | .others _ => True

/-! ## The data of a frame -/

section

variable {w : Worker} {env : Env} {data rest : Bytes}

theorem copyOutcome_eof : copyOutcome (.read .eof) = .ok := by decide

theorem Worker.discardData_spec (hlen : data.length < 65536)
    (h : w.reader.bytes = bigEndian 2 data.length ++ data ++ rest) :
    ∃ reader, w.discardData = (.ok (), { w with reader }) ∧ reader.bytes = rest := by
  obtain ⟨k, pieces, rr, hk, hhands, -, hrest, -⟩ := PayloadReader.hands_stream hlen h
  refine ⟨rr.reader, ?_, hrest⟩
  rw [discardData]
  dsimp only
  rw [copyFrom, hhands.copy_discard hk, copyOutcome_eof]
  rfl

/-- The ways a copy of the data ends: with all of them read, with an error of the
    writer after which the data left can be discarded, or in a panic. -/
def CopiedOrLeft (fuel : ℕ) (rest : Bytes) (c : CopyOutcome × PayloadReader) : Prop :=
  c.1 = .ok ∧ c.2.reader.bytes = rest ∨
    (∃ ew rr, c.1 = .error (.write ew) ∧ Worker.copyFrom fuel discard c.2 = (.ok, rr) ∧
      rr.reader.bytes = rest) ∨
    c.1 = .panic

/-- A copy that is silent at most for the last piece reads all the data or can be
    taken up again. -/
theorem copiedOrLeft_of_hands {n fuel : ℕ} {rr rr' : PayloadReader} {l : List MultiBuffer}
    (h : Hands PayloadReader.readMultiBuffer (PayloadReader.Leaves rest) n rr l .eof rr')
    (hfuel : n ≤ fuel) (hrest : rr'.reader.bytes = rest) {write : ℕ → Option Error}
    (hsilent : SilentAtMostLast write l) :
    CopiedOrLeft fuel rest (Worker.copyFrom fuel write rr) := by
  rw [Worker.copyFrom]
  rcases h.copy_cases hfuel write with hcopy | ⟨k, hk, ew, rr₁, hwrite, hfirst, hcopy, hleft, hdrain⟩
  · rw [hcopy, copyOutcome_eof]
    exact .inl ⟨rfl, hrest⟩
  · rw [hcopy]
    rw [copyOutcome_eof] at hdrain
    cases hout : copyOutcome (.write ew) with
    | ok =>
      -- the piece was the last, of which nothing is left
      have hdrop : l.drop (k + 1) = [] := List.drop_eq_nil_iff.2 (hsilent k ew hwrite hfirst hout)
      rw [hdrop] at hleft
      exact .inl ⟨rfl, hleft⟩
    | error e =>
      rw [copyOutcome_error hout]
      exact .inr (.inl ⟨ew, rr', rfl, hdrain, hrest⟩)
    | panic => exact .inr (.inr rfl)

theorem copiedOrLeft_stream {r : BufferedReader} (hlen : data.length < 65536)
    (h : r.bytes = bigEndian 2 data.length ++ data ++ rest) {write : ℕ → Option Error}
    (hsilent : SilentAtMostLast write (pieces r)) :
    CopiedOrLeft (PayloadReader.new .stream r).fuel rest
      (Worker.copyFrom (PayloadReader.new .stream r).fuel write (.new .stream r)) := by
  obtain ⟨k, l, rr, hk, hhands, -, hrest, -⟩ := PayloadReader.hands_stream hlen h
  have hpieces : pieces r = l := by
    have hall : ∀ k < l.length, discard k = none := fun _ _ => rfl
    rw [pieces, hhands.copyInternal_all hk hall]
  exact copiedOrLeft_of_hands hhands hk hrest (hpieces ▸ hsilent)

theorem copiedOrLeft_packet {r : BufferedReader} (hlen : data.length ≤ bufSize)
    (h : r.bytes = bigEndian 2 data.length ++ data ++ rest) (write : ℕ → Option Error) :
    CopiedOrLeft (PayloadReader.new .packet r).fuel rest
      (Worker.copyFrom (PayloadReader.new .packet r).fuel write (.new .packet r)) := by
  obtain ⟨rr, hhands, hrest, -⟩ := PayloadReader.hands_packet hlen h
  refine copiedOrLeft_of_hands hhands (Nat.le_add_left 2 _) hrest fun k e _ _ _ => ?_
  split
  · exact Nat.zero_le _
  · exact Nat.succ_le_succ (Nat.zero_le _)

/-- A packet that is longer than a buffer is not read. -/
theorem copyFrom_long {r : BufferedReader} (hlen : data.length < 65536) (hlong : bufSize < data.length)
    (h : r.bytes = bigEndian 2 data.length ++ data ++ rest) (fuel : ℕ) (write : ℕ → Option Error) :
    ∃ rr, Worker.copyFrom (fuel + 1) write (.new .packet r) =
      (.error (.read packetSizeTooLarge), rr) := by
  have h2 : (bigEndian 2 data.length).length = 2 := length_bigEndian _ _
  rw [List.append_assoc] at h
  obtain ⟨r₁, hread, -, -⟩ := r.readFull_ok (n := 2) (by rw [h]; simp)
  rw [h, List.take_left' h2] at hread
  have hpacket : PayloadReader.readMultiBuffer (.new .packet r) =
      (.error packetSizeTooLarge, .packet ⟨r₁, false⟩) := by
    rw [PayloadReader.new, PayloadReader.readMultiBuffer, PacketReader.readMultiBuffer,
      if_neg Bool.false_ne_true, hread]
    dsimp only
    rw [ofBigEndian_bigEndian hlen, if_pos hlong]
  refine ⟨.packet ⟨r₁, false⟩, ?_⟩
  rw [Worker.copyFrom, copy, copyInternal, hpacket]
  rfl

/-! ## The handlers -/

/-- The frame is handled, or the worker panics. -/
def Handled (rest : Bytes) (out : Outcome Unit × Worker) : Prop :=
  out.1 = .ok () ∧ out.2.reader.bytes = rest ∨ out.1 = .panic

theorem handled_ifData {b : Bool} (hlen : data.length < 65536)
    (h : w.reader.bytes = (if b then bigEndian 2 data.length ++ data else []) ++ rest) :
    Handled rest (if b then w.discardData else (.ok (), w)) := by
  cases b with
  | true =>
    obtain ⟨reader, hdiscard, hrest⟩ := Worker.discardData_spec hlen h
    rw [if_pos rfl, hdiscard]
    exact .inl ⟨rfl, hrest⟩
  | false => exact .inl ⟨rfl, h⟩

theorem handled_keepAlive (hlen : data.length < 65536)
    (h : w.reader.bytes = (if w.hasData then bigEndian 2 data.length ++ data else []) ++ rest) :
    Handled rest w.handleStatusKeepAlive :=
  handled_ifData hlen h

theorem handled_end (hlen : data.length < 65536)
    (h : w.reader.bytes = (if w.hasData then bigEndian 2 data.length ++ data else []) ++ rest) :
    Handled rest w.handleStatusEnd := by
  rw [Worker.handleStatusEnd]
  split
  · exact handled_ifData (w := w.closeSession) hlen h
  · exact handled_ifData hlen h

theorem handled_clientNew (hlen : data.length < 65536)
    (h : w.reader.bytes = (if w.hasData then bigEndian 2 data.length ++ data else []) ++ rest) :
    Handled rest (ClientWorker.handleStatusNew w) :=
  handled_ifData hlen h

theorem handled_keepCopied {fuel : ℕ} {c : CopyOutcome × PayloadReader}
    (hc : CopiedOrLeft fuel rest c) : Handled rest (w.keepCopied fuel c) := by
  obtain ⟨out, rr⟩ := c
  rcases hc with ⟨hout, hrest⟩ | ⟨ew, rr₂, hout, hdrain, hrest⟩ | hout <;> dsimp only at hout <;>
    subst hout
  · exact .inl ⟨rfl, hrest⟩
  · rw [Worker.keepCopied]
    dsimp only at hdrain ⊢
    rw [hdrain]
    exact .inl ⟨rfl, hrest⟩
  · exact .inr rfl

theorem handled_newCopied {fuel : ℕ} {c : CopyOutcome × PayloadReader}
    (hc : CopiedOrLeft fuel rest c) : Handled rest (ServerWorker.newCopied w fuel c) := by
  obtain ⟨out, rr⟩ := c
  rcases hc with ⟨hout, hrest⟩ | ⟨ew, rr₂, hout, hdrain, hrest⟩ | hout <;> dsimp only at hout <;>
    subst hout
  · exact .inl ⟨rfl, hrest⟩
  · rw [ServerWorker.newCopied]
    dsimp only at hdrain ⊢
    rw [hdrain]
    exact .inl ⟨rfl, hrest⟩
  · exact .inr rfl

/-- The data for a session are all read, those of a packet that is too long left
    aside. -/
theorem handled_keep (hlen : data.length < 65536)
    (h : w.reader.bytes = (if w.hasData then bigEndian 2 data.length ++ data else []) ++ rest)
    (hstream : w.hasData → w.sessions w.metadata.sessionID = some .stream →
      SilentAtMostLast env.write (pieces w.reader)) :
    Handled rest (w.handleStatusKeep env) ∨
      bufSize < data.length ∧ w.hasData ∧ w.sessions w.metadata.sessionID = some .packet ∧
        ∃ e, (w.handleStatusKeep env).1 = .error e := by
  rw [Worker.handleStatusKeep]
  cases hdata : w.hasData with
  | false =>
    rw [hdata] at h
    exact .inl (.inl ⟨rfl, h⟩)
  | true =>
    rw [hdata] at h
    rw [if_neg (by decide)]
    cases hsession : w.sessions w.metadata.sessionID with
    | none =>
      obtain ⟨reader, hdiscard, hrest⟩ := Worker.discardData_spec (w := w.notifyClosing) hlen h
      dsimp only
      rw [hdiscard]
      exact .inl (.inl ⟨rfl, hrest⟩)
    | some transferType =>
      cases transferType with
      | stream =>
        exact .inl (handled_keepCopied (copiedOrLeft_stream hlen h (hstream hdata hsession)))
      | packet =>
        rcases le_or_gt data.length bufSize with hshort | hlong
        · exact .inl (handled_keepCopied (copiedOrLeft_packet hshort h env.write))
        · obtain ⟨rr, hcopy⟩ := copyFrom_long hlen hlong h
            ((PayloadReader.new .packet w.reader).reader.weight + 1) env.write
          refine .inr ⟨hlong, rfl, rfl, packetSizeTooLarge, ?_⟩
          dsimp only
          rw [PayloadReader.fuel, hcopy]
          rfl

/-- The data of a new session are all read, or else the worker ends. -/
theorem handled_serverNew (hlen : data.length < 65536)
    (h : w.reader.bytes = (if w.hasData then bigEndian 2 data.length ++ data else []) ++ rest)
    (hstream : env.dispatched → w.hasData → ServerWorker.transferType w.metadata = .stream →
      SilentAtMostLast env.write (pieces w.reader))
    (hpacket : env.dispatched → w.hasData → ServerWorker.transferType w.metadata = .packet →
      data.length ≤ bufSize) :
    Handled rest (ServerWorker.handleStatusNew env w) ∨
      ∃ e, (ServerWorker.handleStatusNew env w).1 = .error e := by
  rw [ServerWorker.handleStatusNew]
  cases hdispatched : env.dispatched with
  | false =>
    rw [if_pos (by decide)]
    cases hdata : w.hasData with
    | false => exact .inr ⟨_, rfl⟩
    | true =>
      rw [hdata] at h
      obtain ⟨reader, hdiscard, -⟩ := Worker.discardData_spec hlen h
      rw [if_pos rfl, hdiscard]
      exact .inr ⟨_, rfl⟩
  | true =>
    rw [if_neg (by decide)]
    dsimp only
    by_cases hdata : w.hasData
    · rw [if_pos hdata] at h
      rw [if_neg (by simp [hdata])]
      refine .inl (handled_newCopied ?_)
      cases htype : ServerWorker.transferType w.metadata with
      | stream => exact copiedOrLeft_stream hlen h (hstream hdispatched hdata htype)
      | packet => exact copiedOrLeft_packet (hpacket hdispatched hdata htype) h env.write
    · rw [if_neg hdata] at h
      rw [if_pos (by simp [hdata])]
      exact .inl (.inl ⟨rfl, h⟩)

end

/-! ## The run -/

theorem unmarshal_frame (parseIP : Bytes → Option IPv6) (f : FrameMetadata) {r : BufferedReader} {fr : Frame} {rest : Bytes}
    (h : r.bytes = fr.bytes ++ rest) :
    ∃ r', f.unmarshal parseIP r = (f.unmarshalFromBuffer parseIP fr.metadata, r') ∧
      r'.bytes = fr.payload ++ rest := by
  rw [Frame.bytes, List.append_assoc] at h
  obtain ⟨r', hread, hbytes, -⟩ := FrameMetadata.unmarshal_append (f := f) fr.length_metadata h
  exact ⟨r', hread, hbytes⟩

/-- No metadata are read where nothing is left. -/
theorem unmarshal_nil {f : FrameMetadata} {r : BufferedReader} (h : r.bytes = []) :
    ∃ e r', f.unmarshal parseIP r = (.error e, r') := by
  obtain ⟨r', hread, -⟩ := r.readFull_short (n := 2) (by rw [h]; decide)
  exact ⟨_, r', by rw [FrameMetadata.unmarshal, hread]⟩

/-- In sync, a worker reads the metadata of the next frame, or none. -/
theorem InSync.next (side : Side) (parseIP : Bytes → Option IPv6) {frames : List Frame}
    {s : Worker × ℕ} (h : InSync frames s) :
    (∃ e r, (side.target s.1).unmarshal parseIP s.1.reader = (.error e, r)) ∨
    ∃ fr f reader, frames[s.2]? = some fr ∧ s.2 + 1 ≤ frames.length ∧
      (side.target s.1).unmarshal parseIP s.1.reader = (.ok f, reader) ∧
      (side.target s.1).unmarshalFromBuffer parseIP fr.metadata = .ok f ∧
      has f.option optionData = fr.hasData ∧
      reader.bytes = (if has f.option optionData then bigEndian 2 fr.data.length ++ fr.data else []) ++
        (frames.drop (s.2 + 1)).flatMap Frame.bytes := by
  obtain ⟨w, k⟩ := s
  obtain ⟨hk, hbytes⟩ := h
  dsimp only at hk hbytes ⊢
  rcases hk.eq_or_lt with rfl | hlt
  · rw [List.drop_length, List.flatMap_nil] at hbytes
    exact .inl (unmarshal_nil hbytes)
  · rw [List.drop_eq_getElem_cons hlt, List.flatMap_cons] at hbytes
    obtain ⟨r', hread, hpayload⟩ :=
      unmarshal_frame parseIP (side.target w) hbytes
    rw [List.getElem?_eq_getElem hlt]
    cases hf : (side.target w).unmarshalFromBuffer parseIP (frames[k]).metadata with
    | error e => exact .inl ⟨e, r', by rw [hread, hf]⟩
    | ok f =>
      have hoption : has f.option optionData = (frames[k]).hasData := by
        rw [Frame.hasData, FrameMetadata.option_of_unmarshalFromBuffer hf]
      refine .inr ⟨frames[k], f, r', rfl, hlt, by rw [hread, hf], hf, hoption, ?_⟩
      rw [hoption]
      exact hpayload

/-- A server that goes on after a harmless step has read a whole frame. -/
theorem server_frame {frames : List Frame} {s : Worker × ℕ} {env : Env} {w' : Worker}
    (hsync : InSync frames s) (hharmless : Harmless .server parseIP frames s (.frame env))
    (hstep : ServerWorker.handleFrame env s.1 parseIP = (.ok (), w')) :
    InSync frames (w', s.2 + 1) := by
  rw [ServerWorker.handleFrame] at hstep
  -- The metadata that is read is that of the next frame, so what is left to show is that its data
  -- is read to its end, or that the worker stops.
  rcases hsync.next .server parseIP with
    ⟨e, r, hread⟩ | ⟨fr, f, reader, hfr, hk, hread, hf, hoption, hpayload⟩
  · rw [show FrameMetadata.unmarshal {} parseIP s.1.reader = _ from hread] at hstep
    cases hstep
  · have hspec := hharmless fr f hfr
    rw [hread, ← hoption] at hspec
    rw [show FrameMetadata.unmarshal {} parseIP s.1.reader = _ from hread] at hstep
    dsimp only at hstep hspec
    generalize hw : ({ s.1 with metadata := f, reader } : Worker) = w at hstep
    have hbytes : w.reader.bytes = (if w.hasData then bigEndian 2 fr.data.length ++ fr.data else []) ++
        (frames.drop (s.2 + 1)).flatMap Frame.bytes := by rw [← hw]; exact hpayload
    suffices h : Handled ((frames.drop (s.2 + 1)).flatMap Frame.bytes) (ServerWorker.handleStatus env w) ∨
        ∃ e, (ServerWorker.handleStatus env w).1 = .error e by
      generalize ServerWorker.handleStatus env w = out at hstep h
      obtain ⟨out, w₁⟩ := out
      rcases h with (⟨hout, hrest⟩ | hout) | ⟨e, hout⟩ <;> dsimp only at hout <;> subst hout <;>
        cases hstep
      exact ⟨hk, hrest⟩
    rw [ServerWorker.handleStatus]
    split
    · exact .inl (handled_keepAlive fr.length_data hbytes)
    split
    · exact .inl (handled_end fr.length_data hbytes)
    split
    · rename_i hnew
      have hrecipient : env.dispatched → Side.server.recipient env s.1 f =
          some (ServerWorker.transferType f) := by
        intro hdispatched
        rw [← hw] at hnew
        rw [Side.recipient, if_pos hnew, if_pos hdispatched]
      refine handled_serverNew fr.length_data hbytes (fun hdispatched hdata htype => ?_)
        fun hdispatched hdata htype => ?_
      · rw [← hw] at hdata htype ⊢
        have := hspec hdata hf
        rwa [hrecipient hdispatched, htype] at this
      · -- The frame opens the session, so it is not one that may be too long.
        have hstatus : f.sessionStatus ≠ sessionStatusKeep := by
          rw [← hw] at hnew
          dsimp only at hnew
          rw [hnew]
          decide
        rw [← hw] at hdata htype
        have := hspec hdata hf
        rw [hrecipient hdispatched, htype] at this
        exact this.resolve_right fun h => hstatus h.2
    split
    · rename_i hnew hkeep
      have hrecipient : Side.server.recipient env s.1 f = s.1.sessions f.sessionID := by
        rw [← hw] at hnew hkeep
        rw [Side.recipient, if_neg hnew, if_pos hkeep]
      have hstream : w.hasData → w.sessions w.metadata.sessionID = some .stream →
          SilentAtMostLast env.write (pieces w.reader) := by
        intro hdata hsession
        rw [← hw] at hdata hsession ⊢
        have := hspec hdata hf
        rwa [hrecipient, show s.1.sessions f.sessionID = _ from hsession] at this
      rcases handled_keep fr.length_data hbytes hstream with h | ⟨-, -, -, h⟩
      · exact .inl h
      · exact .inr h
    · exact .inr ⟨_, rfl⟩

/-- A client that goes on after a harmless step has read a whole frame. -/
theorem client_frame {frames : List Frame} {s : Worker × ℕ} {env : Env} {w' : Worker}
    (hsync : InSync frames s) (hharmless : Harmless .client parseIP frames s (.frame env))
    (hstep : ClientWorker.handleFrame env s.1 parseIP = (.ok (), w')) :
    InSync frames (w', s.2 + 1) := by
  rw [ClientWorker.handleFrame] at hstep
  rcases hsync.next .client parseIP with
    ⟨e, r, hread⟩ | ⟨fr, f, reader, hfr, hk, hread, hf, hoption, hpayload⟩
  · rw [show s.1.metadata.unmarshal parseIP s.1.reader = _ from hread] at hstep
    dsimp only at hstep
    generalize copyOutcome (.read e) = out at hstep
    cases out <;> cases hstep
  · have hspec := hharmless fr f hfr
    rw [hread, ← hoption] at hspec
    rw [show s.1.metadata.unmarshal parseIP s.1.reader = _ from hread] at hstep
    dsimp only at hstep hspec
    generalize hw : ({ s.1 with metadata := f, reader } : Worker) = w at hstep
    have hbytes : w.reader.bytes = (if w.hasData then bigEndian 2 fr.data.length ++ fr.data else []) ++
        (frames.drop (s.2 + 1)).flatMap Frame.bytes := by rw [← hw]; exact hpayload
    suffices h : ∀ out, ClientWorker.handleStatus env w = some out →
        Handled ((frames.drop (s.2 + 1)).flatMap Frame.bytes) out by
      cases hout : ClientWorker.handleStatus env w with
      | none => rw [hout] at hstep; cases hstep
      | some out =>
        rw [hout] at hstep
        obtain ⟨out, w₁⟩ := out
        rcases h _ hout with ⟨hok, hrest⟩ | hpanic
        · dsimp only at hok
          subst hok
          cases hstep
          exact ⟨hk, hrest⟩
        · dsimp only at hpanic
          subst hpanic
          cases hstep
    intro out hout
    rw [ClientWorker.handleStatus] at hout
    split at hout
    · cases hout
      exact handled_keepAlive fr.length_data hbytes
    split at hout
    · cases hout
      exact handled_end fr.length_data hbytes
    split at hout
    · cases hout
      exact handled_clientNew fr.length_data hbytes
    split at hout
    · rename_i hkeep
      cases hout
      have hrecipient : Side.client.recipient env s.1 f = s.1.sessions f.sessionID := by
        rw [← hw] at hkeep
        rw [Side.recipient, if_pos hkeep]
      have hstream : w.hasData → w.sessions w.metadata.sessionID = some .stream →
          SilentAtMostLast env.write (pieces w.reader) := by
        intro hdata hsession
        rw [← hw] at hdata hsession ⊢
        have := hspec hdata hf
        rwa [hrecipient, show s.1.sessions f.sessionID = _ from hsession] at this
      rcases handled_keep fr.length_data hbytes hstream with h | ⟨hlong, hdata, hsession, -⟩
      · exact h
      · rw [← hw] at hdata hsession
        have := hspec hdata hf
        rw [hrecipient, show s.1.sessions f.sessionID = _ from hsession] at this
        -- A packet that is too long is harmless to the server only, which returns the error.
        rcases this with hshort | ⟨hside, -⟩
        · exact absurd hshort (not_le.2 hlong)
        · cases hside
    · cases hout

/-- In every run of harmless steps, whatever the others do, a worker is in sync
    whenever it goes on to the next frame. -/
theorem inSync_of_harmless (side : Side) (frames : List Frame) {s : Worker × ℕ}
    (h : ((link side parseIP frames).restrict (Harmless side parseIP frames)).Reach
      (fun _ => True) s) : InSync frames s := by
  refine Lts.Reach.invariant ?_ ?_ h
  · rintro _ ⟨reader, hbytes, rfl⟩ -
    exact ⟨Nat.zero_le _, hbytes⟩
  · rintro s a ⟨w', k⟩ - hsync ⟨hharmless, hstep⟩ -
    cases a with
    | others sessions =>
      obtain ⟨rfl, rfl⟩ := Prod.mk.inj hstep
      exact hsync
    | frame env =>
      obtain ⟨hstep, rfl⟩ := hstep
      cases side with
      | server => exact server_frame hsync hharmless hstep
      | client => exact client_frame hsync hharmless hstep

/-- Two bytes for the session 1. -/
def exampleFrame : Frame := ⟨[0, 1, sessionStatusKeep, optionData], [1, 2], by decide, by decide⟩

/-- A worker with the session 1, of a stream, on a link that brings the two bytes in
    two segments. -/
def exampleWorker : Worker where
  reader := ⟨[], ⟨[[.ofBytes [0, 4, 0, 1, sessionStatusKeep, optionData, 0, 2, 1] (by decide)],
    [.ofBytes [2] (by decide)]], .eof⟩⟩
  sessions := fun id => if id = 1 then some .stream else none

/-- The worker after the frame. -/
def exampleHandled (write : ℕ → Option Error) : Worker :=
  (ServerWorker.handleFrame ⟨true, write⟩ exampleWorker fun _ => none).2

/-- A writer that takes everything leaves the worker in sync. -/
theorem inSync_of_harmless_discard : InSync [exampleFrame] (exampleHandled discard, 1) := by
  refine @inSync_of_harmless (fun _ => none) .server [exampleFrame] _
    (.step (a := .frame ⟨true, discard⟩) (s := (exampleWorker, 0)) (.step (a := .others _)
      (.init ⟨exampleWorker.reader, by decide, rfl⟩ trivial) ⟨trivial, rfl⟩ trivial)
      ⟨?_, Prod.ext (by decide) rfl, rfl⟩ trivial)
  intro fr f hfr _ _
  split
  · trivial
  · exact fun k e hk => nomatch hk
  · obtain rfl : exampleFrame = fr := Option.some.inj hfr
    exact .inl (by decide)

/-- A writer that is closed does not. -/
theorem not_inSync_closed :
    (link .server (fun _ => none) [exampleFrame]).Reach (fun _ => True)
        (exampleHandled fun _ => some .closedPipe, 1) ∧
      ¬ InSync [exampleFrame] (exampleHandled fun _ => some .closedPipe, 1) := by
  refine ⟨.step (a := .frame ⟨true, fun _ => some .closedPipe⟩) (s := (exampleWorker, 0))
    (.step (a := .others _) (.init ⟨exampleWorker.reader, by decide, rfl⟩ trivial) rfl trivial)
    ⟨Prod.ext (by decide) rfl, rfl⟩ trivial, ?_⟩
  rintro ⟨-, h⟩
  exact absurd h (by decide)

end Mux

end Gzv2ray
