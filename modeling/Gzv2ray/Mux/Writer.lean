import Gzv2ray.Mux.Frame
import Gzv2ray.Mux.Reader

/-!
# The writer of a session

The writer of a session cuts what it is given in frames and writes each to the
link at once. The first frame of a new session names its target; closing the
session is a frame of its own.

`Writer.writeMultiBuffer_spec` tells the frames of a call (`Writer.frames`): the
metadata, and the data behind them (`IsFrame`).
-/

namespace Gzv2ray

namespace Mux

structure Writer where
  dest : Destination := {}
  id : UInt16
  followup : Bool
  hasError : Bool := false
  transferType : TransferType

def newWriter (id : UInt16) (dest : Destination) (transferType : TransferType) : Writer :=
  { id, dest, followup := false, transferType }

def newResponseWriter (id : UInt16) (transferType : TransferType) : Writer :=
  { id, followup := true, transferType }

/-- What a call comes to: what it writes to the link, and what it returns. -/
structure Written where
  link : List MultiBuffer
  result : Outcome Unit

namespace Writer

variable (w : Writer)

def getNextFrameMeta : FrameMetadata × Writer :=
  ({ sessionID := w.id, target := w.dest,
     sessionStatus := if w.followup then sessionStatusKeep else sessionStatusNew },
   { w with followup := true })

/-- Writes to the link, which answers with an error or not. -/
def writeLink (answer : Option Error) (mb : MultiBuffer) : Written :=
  ⟨[mb], match answer with | none => .ok () | some e => .error e⟩

/-- A buffer with the given content. It is short. -/
def frameBuffer (b : Bytes) : Buffer := (Buffer.new.write b).1

def writeMetaOnly (answer : ℕ → Option Error) : Written × Writer :=
  let (f, w) := w.getNextFrameMeta
  match f.writeTo with
  | .ok b => (writeLink (answer 0) [frameBuffer b], w)
  | .error e => (⟨[], .error e⟩, w)
  | .panic => (⟨[], .panic⟩, w)

def writeMetaWithFrame (answer : ℕ → Option Error) (f : FrameMetadata) (data : MultiBuffer) :
    Written :=
  match f.writeTo with
  | .ok b =>
    let frame := frameBuffer (b ++ ChunkCodec.putUint16 (UInt16.ofNat (MultiBuffer.len data)))
    if data.length + 1 > 64 * 1024 * 1024 then ⟨[], .error valueTooLargeError⟩
    else writeLink (answer 0) (frame :: data)
  | .error e => ⟨[], .error e⟩
  | .panic => ⟨[], .panic⟩

def writeData (answer : ℕ → Option Error) (mb : MultiBuffer) : Written × Writer :=
  let (f, w) := w.getNextFrameMeta
  (writeMetaWithFrame answer { f with option := f.option ||| optionData } mb, w)

/-- The next data of a frame, after what they leave. -/
def splitChunk (mb : MultiBuffer) : MultiBuffer × MultiBuffer :=
  match w.transferType with
  | .stream => MultiBuffer.splitSize mb (8 * 1024)
  | .packet =>
    let (mb, b) := MultiBuffer.splitFirst mb
    (mb, b.toList)

/-- The loop: writes frames until there are no data left. -/
def writeLoop : ℕ → Writer → (ℕ → Option Error) → MultiBuffer → Written × Writer
  | 0, w, _, _ => (⟨[], .ok ()⟩, w)
  | fuel + 1, w, answer, mb =>
    if MultiBuffer.isEmpty mb then (⟨[], .ok ()⟩, w)
    else
      let (mb, chunk) := w.splitChunk mb
      match w.writeData answer chunk with
      | (⟨link, .ok _⟩, w) =>
        let (⟨link', result⟩, w) := writeLoop fuel w (fun k => answer (k + 1)) mb
        (⟨link ++ link', result⟩, w)
      | (written, w) => (written, w)

/-- Every frame takes a buffer at least. -/
def writeMultiBuffer (answer : ℕ → Option Error) (mb : MultiBuffer) : Written × Writer :=
  if MultiBuffer.isEmpty mb then w.writeMetaOnly answer
  else writeLoop (mb.length + 1) w answer mb

/-- Closing ignores the answer of the link. -/
def close : Written :=
  let f : FrameMetadata := { sessionID := w.id, sessionStatus := sessionStatusEnd }
  let f := if w.hasError then { f with option := f.option ||| optionError } else f
  match f.writeTo with
  | .ok b => ⟨[[frameBuffer b]], .ok ()⟩
  | _ => ⟨[], .panic⟩

end Writer

/-! ## Frames -/

/-- A frame of a session: its metadata, and its data if it has any. -/
structure SessionFrame where
  metadata : FrameMetadata
  data : Option MultiBuffer := none

/-- The data of a frame, after their length. -/
def SessionFrame.payload (fr : SessionFrame) : Bytes :=
  match fr.data with
  | none => []
  | some d => bigEndian 2 (MultiBuffer.len d) ++ MultiBuffer.bytes d

/-- The frame can be read: its metadata, and the data where they say so. -/
structure SessionFrame.IsReadable (fr : SessionFrame) (parseIP : Bytes → Option IPv6) : Prop where
  metadata : fr.metadata.IsReadable parseIP
  option : has fr.metadata.option optionData = fr.data.isSome
  data (d) : fr.data = some d → MultiBuffer.len d < 65536

/-- The buffers hold a frame. -/
def IsFrame (parseIP : Bytes → Option IPv6) (mb : MultiBuffer) (fr : SessionFrame) : Prop :=
  fr.IsReadable parseIP ∧ ∃ b, fr.metadata.writeTo = .ok b ∧ MultiBuffer.bytes mb = b ++ fr.payload

namespace Writer

variable {parseIP : Bytes → Option IPv6} {w : Writer}

/-- The link takes everything. -/
def accept : ℕ → Option Error := fun _ => none

/-- A writer whose target, if it is to be named, is one that is read. -/
def IsValid (w : Writer) (parseIP : Bytes → Option IPv6) : Prop :=
  w.getNextFrameMeta.1.IsReadable parseIP

/-- The frames that carry the given data. -/
def frames (w : Writer) : List MultiBuffer → List SessionFrame
  | [] => []
  | d :: ds =>
    ⟨{ w.getNextFrameMeta.1 with option := w.getNextFrameMeta.1.option ||| optionData }, some d⟩ ::
      frames w.getNextFrameMeta.2 ds

theorem isValid_next (w : Writer) : w.getNextFrameMeta.2.IsValid parseIP := by
  intro h
  exact absurd h (by dsimp [getNextFrameMeta]; decide)

theorem frameBuffer_bytes {b : Bytes} (h : b.length ≤ bufSize) : (frameBuffer b).bytes = b :=
  Buffer.write_new b h

theorem writeMetaOnly_spec (hw : w.IsValid parseIP) :
    ∃ mb, w.writeMetaOnly accept = (⟨[mb], .ok ()⟩, w.getNextFrameMeta.2) ∧
      IsFrame parseIP mb ⟨w.getNextFrameMeta.1, none⟩ := by
  obtain ⟨b, hb, hlen⟩ := FrameMetadata.writeTo_of_isReadable hw
  have hlen' : b.length ≤ bufSize := hlen.trans (by decide)
  refine ⟨[frameBuffer b], ?_, ⟨hw, show has 0 optionData = false by decide,
    fun d hd => nomatch hd⟩, b, hb, ?_⟩
  · rw [writeMetaOnly]
    dsimp only
    rw [hb]
    rfl
  · simp [frameBuffer_bytes hlen', SessionFrame.payload]

theorem writeData_spec (hw : w.IsValid parseIP) {d : MultiBuffer}
    (hlen : MultiBuffer.len d < 65536) (hcount : d.length < 64 * 1024 * 1024) :
    ∃ mb, w.writeData accept d = (⟨[mb], .ok ()⟩, w.getNextFrameMeta.2) ∧
      ∀ fr ∈ (w.frames [d]), IsFrame parseIP mb fr := by
  set f : FrameMetadata :=
    { w.getNextFrameMeta.1 with option := w.getNextFrameMeta.1.option ||| optionData } with hf
  have hreadable : f.IsReadable parseIP := hw
  obtain ⟨b, hb, hblen⟩ := FrameMetadata.writeTo_of_isReadable hreadable
  have hlen' : (b ++ ChunkCodec.putUint16 (UInt16.ofNat (MultiBuffer.len d))).length ≤ bufSize := by
    rw [List.length_append, ChunkCodec.length_putUint16, bufSize]
    omega
  refine ⟨frameBuffer (b ++ ChunkCodec.putUint16 (UInt16.ofNat (MultiBuffer.len d))) :: d, ?_, ?_⟩
  · rw [writeData]
    dsimp only
    rw [← hf, writeMetaWithFrame, hb]
    dsimp only
    rw [if_neg (by omega)]
    rfl
  · rintro fr hfr
    obtain rfl := List.mem_singleton.1 hfr
    refine ⟨⟨hreadable, show has (0 ||| optionData) optionData = true by decide, ?_⟩, b, hb, ?_⟩
    · rintro d' ⟨⟩
      exact hlen
    · rw [MultiBuffer.bytes_cons, frameBuffer_bytes hlen', SessionFrame.payload,
        ChunkCodec.putUint16, UInt16.toNat_ofNat_of_lt' hlen, List.append_assoc]

/-- The data are cut into pieces: those of a stream anywhere, those of packets
    between the packets. -/
def Cuts (transferType : TransferType) (mb : MultiBuffer) (ds : List MultiBuffer) : Prop :=
  match transferType with
  | .stream => ds.flatMap MultiBuffer.bytes = MultiBuffer.bytes mb
  | .packet => ∃ mb' : MultiBuffer, ds = mb'.map (fun b => [b]) ∧
    mb'.filter (fun b => !b.isEmpty) = mb.filter fun b => !b.isEmpty

theorem cuts_nil {transferType : TransferType} {mb : MultiBuffer} (h : MultiBuffer.isEmpty mb) :
    Cuts transferType mb [] := by
  cases transferType with
  | stream => exact ((MultiBuffer.isEmpty_iff mb).1 h).symm
  | packet =>
    refine ⟨[], rfl, ?_⟩
    rw [MultiBuffer.isEmpty, List.all_eq_true] at h
    rw [List.filter_nil, eq_comm, List.filter_eq_nil_iff]
    simpa using h

/-- A piece is split off that leaves less buffers, and fits in a frame. -/
theorem splitChunk_spec {mb : MultiBuffer} (hmb : mb ≠ []) :
    (∀ ds, Cuts w.transferType (w.splitChunk mb).1 ds →
        Cuts w.transferType mb ((w.splitChunk mb).2 :: ds)) ∧
      MultiBuffer.len (w.splitChunk mb).2 < 65536 ∧ (w.splitChunk mb).1.length < mb.length ∧
      (w.splitChunk mb).2.length ≤ mb.length := by
  obtain ⟨b, mb, rfl⟩ := List.exists_cons_of_ne_nil hmb
  rw [splitChunk]
  cases w.transferType with
  | stream =>
    have hsmall : ¬ 8 * 1024 < b.len := by
      have := b.len_le
      rw [bufSize] at this
      rw [Buffer.len]
      omega
    have hbytes := MultiBuffer.splitSize_bytes (b :: mb) (8 * 1024)
    have hlen := MultiBuffer.splitSize_len (b :: mb) (8 * 1024)
    have hshorter : (MultiBuffer.splitSize (b :: mb) (8 * 1024)).1.length < (b :: mb).length ∧
        (MultiBuffer.splitSize (b :: mb) (8 * 1024)).2.length ≤ (b :: mb).length := by
      have hcount := MultiBuffer.splitSizeLoop_length mb (8 * 1024 - b.len)
      rw [MultiBuffer.splitSize, dif_neg hsmall, MultiBuffer.splitSizeLoop, if_pos (not_lt.1 hsmall)]
      simp only [List.length_cons]
      omega
    refine ⟨fun ds hds => ?_, ?_, hshorter⟩
    · rw [Cuts, List.flatMap_cons, show ds.flatMap MultiBuffer.bytes = _ from hds, hbytes]
    · rw [MultiBuffer.len_eq]
      exact lt_of_le_of_lt hlen (by decide)
  | packet =>
    refine ⟨?_, ?_, Nat.lt_succ_self _, Nat.succ_le_succ (Nat.zero_le _)⟩
    · rintro _ ⟨mb', rfl, hfilter⟩
      refine ⟨b :: mb', rfl, ?_⟩
      rw [List.filter_cons, List.filter_cons, hfilter]
      rfl
    · have := b.len_le
      rw [bufSize] at this
      simp only [MultiBuffer.splitFirst, Option.toList, MultiBuffer.len_eq, MultiBuffer.bytes_cons,
        MultiBuffer.bytes_nil, List.append_nil]
      omega

theorem writeLoop_spec (hw : w.IsValid parseIP) (fuel : ℕ) {mb : MultiBuffer}
    (hfuel : mb.length < fuel) (hcount : mb.length < 64 * 1024 * 1024) :
    ∃ ds link w', writeLoop fuel w accept mb = (⟨link, .ok ()⟩, w') ∧
      List.Forall₂ (IsFrame parseIP) link (w.frames ds) ∧ Cuts w.transferType mb ds ∧
      (MultiBuffer.isEmpty mb ∧ ds = [] ∧ w' = w ∨
        ¬ MultiBuffer.isEmpty mb ∧ ds ≠ [] ∧ w' = w.getNextFrameMeta.2) := by
  induction fuel generalizing w mb with
  | zero => exact absurd hfuel (Nat.not_lt_zero _)
  | succ fuel ih =>
    rw [writeLoop]
    by_cases hempty : MultiBuffer.isEmpty mb
    · rw [if_pos hempty]
      exact ⟨[], [], w, rfl, .nil, cuts_nil hempty, .inl ⟨hempty, rfl, rfl⟩⟩
    · have hmb : mb ≠ [] := by rintro rfl; exact hempty rfl
      obtain ⟨hcuts, hlen, hshorter, hless⟩ := w.splitChunk_spec hmb
      rw [if_neg hempty]
      generalize w.splitChunk mb = t at hcuts hlen hshorter hless
      obtain ⟨mb', d⟩ := t
      dsimp only at hcuts hlen hshorter hless ⊢
      obtain ⟨buffers, hwrite, hframe⟩ := writeData_spec hw hlen (hless.trans_lt hcount)
      obtain ⟨ds, link, w', hloop, hframes, hcuts', hw'⟩ := ih (w := w.getNextFrameMeta.2)
        w.isValid_next (show mb'.length < fuel by omega) (by omega)
      rw [hwrite]
      dsimp only
      rw [show (fun k => accept (k + 1)) = accept from rfl, hloop]
      refine ⟨d :: ds, buffers :: link, w', rfl, .cons (hframe _ (List.mem_singleton_self _)) hframes,
        hcuts ds hcuts', .inr ⟨hempty, List.cons_ne_nil _ _, ?_⟩⟩
      rcases hw' with ⟨-, -, rfl⟩ | ⟨-, -, rfl⟩ <;> rfl

/-- A write is written in frames that carry its data, and returns nil. -/
theorem writeMultiBuffer_spec (hw : w.IsValid parseIP) {mb : MultiBuffer}
    (hcount : mb.length < 64 * 1024 * 1024) :
    ∃ frs link, w.writeMultiBuffer accept mb = (⟨link, .ok ()⟩, w.getNextFrameMeta.2) ∧
      List.Forall₂ (IsFrame parseIP) link frs ∧
      (MultiBuffer.isEmpty mb ∧ frs = [⟨w.getNextFrameMeta.1, none⟩] ∨
        ∃ ds, ds ≠ [] ∧ frs = w.frames ds ∧ Cuts w.transferType mb ds) := by
  rw [writeMultiBuffer]
  by_cases hempty : MultiBuffer.isEmpty mb
  · obtain ⟨buffers, hwrite, hframe⟩ := writeMetaOnly_spec hw
    rw [if_pos hempty, hwrite]
    exact ⟨_, _, rfl, .cons hframe .nil, .inl ⟨hempty, rfl⟩⟩
  · obtain ⟨ds, link, w', hloop, hframes, hcuts, hw'⟩ := writeLoop_spec hw (mb.length + 1)
      (Nat.lt_succ_self _) hcount
    obtain ⟨-, hds, rfl⟩ := hw'.resolve_left fun h => hempty h.1
    rw [if_neg hempty, hloop]
    exact ⟨_, _, rfl, hframes, .inr ⟨ds, hds, rfl, hcuts⟩⟩

/-- The metadata of the end of a session. -/
def endMeta (w : Writer) : FrameMetadata where
  sessionID := w.id
  sessionStatus := sessionStatusEnd
  option := if w.hasError then optionError else 0

theorem close_spec (parseIP : Bytes → Option IPv6) (w : Writer) :
    ∃ mb, w.close = ⟨[mb], .ok ()⟩ ∧ IsFrame parseIP mb ⟨w.endMeta, none⟩ := by
  have hreadable : w.endMeta.IsReadable parseIP := by
    intro h
    exact absurd h (by dsimp [endMeta]; decide)
  obtain ⟨b, hb, hlen⟩ := FrameMetadata.writeTo_of_isReadable hreadable
  have hlen' : b.length ≤ bufSize := hlen.trans (by decide)
  have hmeta : (if w.hasError then
      { ({ sessionID := w.id, sessionStatus := sessionStatusEnd } : FrameMetadata) with
        option := 0 ||| optionError }
      else { sessionID := w.id, sessionStatus := sessionStatusEnd }) = w.endMeta := by
    rw [endMeta]
    cases w.hasError <;> rfl
  have hoption : has w.endMeta.option optionData = false := by
    show has (if w.hasError then optionError else 0) optionData = false
    cases w.hasError <;> decide
  refine ⟨[frameBuffer b], ?_, ⟨hreadable, hoption, fun d hd => nomatch hd⟩, b, hb, ?_⟩
  · rw [close]
    dsimp only
    rw [hmeta, hb]
  · simp [frameBuffer_bytes hlen', SessionFrame.payload]

end Writer

end Mux

end Gzv2ray
