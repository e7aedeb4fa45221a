import Gzv2ray.Kcp.Delivery
import Gzv2ray.Kcp.PacketRoundTrip
import Gzv2ray.Kcp.Settings

/-!
# The size of KCP datagrams

A connection and the program that writes to it. Its payloads are what is left of the MTU
for them, but the nonce of a datagram is not counted.

* `writing`: the transition system, of any run of a connection;
* `WrittenConnection.Bounded`: its invariant, a bound on all payloads (`Bounded.step`);
* `datagram_size`: exactly which datagrams fit the MTU;
* `datagram_exceeds_mtu`: one that does not.
-/

namespace Gzv2ray.Kcp

open Connection (Action)

/-! ## Acknowledgements -/

namespace AckList

theorem length_fill (seg : AckSegment) (l : List UInt32) (h : seg.numberList.length ≤ ackNumberLimit) :
    (fill seg l).numberList.length ≤ ackNumberLimit := by
  induction l generalizing seg with
  | nil => exact h
  | cons n ns ih =>
    rw [fill]
    split
    · exact h
    · rename_i hfull
      refine ih _ ?_
      rw [AckSegment.isFull, beq_iff_eq] at hfull
      rw [AckSegment.putNumber_numberList, List.length_append, List.length_singleton]
      omega

section

variable {w : AckSegment → AckSegment} (hw : ∀ seg, (w seg).numberList = seg.numberList)
  (current rto : UInt32)
include hw

/-- No acknowledgement of a flush has too many numbers, and the one being filled has room. -/
structure Flushing.Small (st : Flushing) : Prop where
  seg : st.seg.numberList.length < ackNumberLimit
  written : ∀ seg ∈ st.written, seg.numberList.length ≤ ackNumberLimit

theorem flushLoop_small (ns ts fs : List UInt32) (st : Flushing) (hst : st.Small) :
    (flushLoop w current rto ns ts fs st).Small := by
  induction ns, ts, fs, st using flushLoop.induct w current rto with
  | case1 n ns t ts f fs st hf ih =>
    rw [flushLoop, if_pos hf]
    exact ih ⟨hst.seg, hst.written⟩
  | case2 n ns t ts f fs st hf seg timeout st' hfull ih =>
    rw [flushLoop, if_neg hf]
    dsimp only
    rw [if_pos hfull]
    refine ih ⟨Nat.zero_lt_succ _, fun seg' hseg' => ?_⟩
    rcases List.mem_append.1 hseg' with h | h
    · exact hst.written _ h
    · rw [List.mem_singleton.1 h, hw]
      exact (beq_iff_eq.1 hfull).le
  | case3 n ns t ts f fs st hf seg timeout st' hfull ih =>
    rw [flushLoop, if_neg hf]
    dsimp only
    rw [if_neg hfull]
    refine ih ⟨lt_of_le_of_ne ?_ fun h => hfull (beq_iff_eq.2 h), hst.written⟩
    rw [AckSegment.putTimestamp_numberList, AckSegment.putNumber_numberList, List.length_append,
      List.length_singleton]
    exact hst.seg
  | case4 ns ts fs st h =>
    rw [flushLoop]
    · exact hst
    · exact h

/-- An acknowledgement is written with no more numbers than it can have. -/
theorem length_of_mem_flush (l : AckList) {seg : AckSegment} (hseg : seg ∈ (l.flush w current rto).2) :
    seg.numberList.length ≤ ackNumberLimit := by
  have h := flushLoop_small hw current rto l.numbers l.timestamps l.nextFlush { dirty := l.dirty }
    ⟨Nat.zero_lt_succ _, fun seg h => absurd h List.not_mem_nil⟩
  unfold flush at hseg
  dsimp only at hseg
  split at hseg
  · rcases List.mem_append.1 hseg with hseg | hseg
    · exact h.written _ hseg
    · rw [List.mem_singleton.1 hseg, hw]
      exact length_fill _ _ h.seg.le
  · exact h.written _ hseg

end

end AckList

/-! ## Writing -/

/-- A connection, and the write to it that is in progress. -/
structure WrittenConnection where
  conn : Connection
  /-- What is left to be written. -/
  reader : Option MultiBuffer := none
  /-- The payload that is to be pushed. -/
  payload : Option Buffer := none

/-- What happens to a connection. -/
inductive WriteEvent
  /-- A write begins. -/
  | writeMultiBuffer (mb : MultiBuffer)
  /-- The loop of `writeMultiBufferInternal` goes round. -/
  | iterate
  /-- Anything else. -/
  | act (a : Action)

namespace WrittenConnection

variable (s : WrittenConnection)

/-- Reads at most as many bytes as a payload can have, into a new buffer. -/
def readPayload (mb : MultiBuffer) : MultiBuffer × Buffer :=
  let (mb, out) := MultiBuffer.splitBytes mb (min bufSize s.conn.mss.toNat)
  (mb, (Buffer.new.write out).1)

/-- Pushes a payload, which is kept if there is no room for it. -/
def push (reader : MultiBuffer) (b : Buffer) : WrittenConnection :=
  match s.conn.writeIteration b with
  | (conn, some true) => { conn, reader := some reader }
  | (conn, some false) => { conn, reader := some reader, payload := some b }
  | (conn, none) => { conn }

/-- The loop goes round: the write ends if the connection is closed, or if nothing is left. -/
def iterate (reader : MultiBuffer) : WrittenConnection :=
  if s.conn.state ≠ .active then { conn := s.conn }
  else
    match s.payload with
    | some b => s.push reader b
    | none =>
      if MultiBuffer.isEmpty reader then { conn := s.conn }
      else
        let (reader, b) := s.readPayload reader
        s.push reader b

/-- When an event can happen: there is one write at a time, only writes push, and the
    commands written are pings and terminations. -/
def Enabled : WriteEvent → Prop
  | .writeMultiBuffer _ => s.reader = none
  | .iterate => s.reader ≠ none
  | .act (.push _) => False
  | .act (.ping _ cmd _) => cmd = commandPing ∨ cmd = commandTerminate
  | .act _ => True

/-- What an event does, and the segments that are written. -/
def step : WriteEvent → WrittenConnection × List Segment
  | .writeMultiBuffer mb => ({ s with reader := some mb, payload := none }, [])
  | .iterate => (s.iterate (s.reader.getD []), [])
  | .act a => ({ s with conn := (s.conn.step a).1 }, (s.conn.step a).2)

end WrittenConnection

/-- The runs of a new connection. -/
def writing (conv : UInt16) (config : Config) (overhead : UInt32) :
    Lts WrittenConnection WriteEvent where
  init s := s = { conn := .new conv config overhead }
  step s e s' := s.Enabled e ∧ s' = (s.step e).1

/-! ## The bound on the payloads -/

/-- A payload that fits a segment. -/
def Fits (mss : UInt32) (b : Bytes) : Prop := 1 ≤ b.length ∧ b.length ≤ mss.toNat

namespace WrittenConnection

/-- All payloads fit. -/
structure Bounded (mss : UInt32) (s : WrittenConnection) : Prop where
  conn : s.conn.mss = mss
  window : ∀ p ∈ s.conn.sendingWorker.window.ids, Fits mss p.2
  payload : ∀ b, s.payload = some b → Fits mss b.bytes

variable {mss : UInt32} {s : WrittenConnection}

/-- While nothing waits, what there is to read is pushed. -/
theorem iterate_of_isEmpty {reader : MultiBuffer} (hstate : s.conn.state = .active)
    (hpayload : s.payload = none) (hreader : MultiBuffer.isEmpty reader = false) :
    s.iterate reader = s.push (s.readPayload reader).1 (s.readPayload reader).2 := by
  rw [iterate, if_neg (not_not.2 hstate), hpayload]
  dsimp only
  rw [hreader]
  rfl

/-- What is read for a payload fits, and is not empty. -/
theorem Bounded.readPayload (h : s.Bounded mss) (hmss : 0 < mss.toNat) {mb : MultiBuffer}
    (hmb : MultiBuffer.isEmpty mb = false) : Fits mss (s.readPayload mb).2.bytes := by
  have hpos : 0 < (MultiBuffer.bytes mb).length :=
    List.length_pos_iff.2 ((MultiBuffer.isEmpty_eq_false_iff mb).1 hmb)
  rw [WrittenConnection.readPayload]
  dsimp only
  rw [MultiBuffer.splitBytes_snd, h.conn, Buffer.write_new _ (by rw [List.length_take]; omega), Fits,
    List.length_take, bufSize]
  omega

/-- A payload that fits is kept, or goes to the window. -/
theorem Bounded.push (h : s.Bounded mss) (reader : MultiBuffer) {b : Buffer} (hb : Fits mss b.bytes) :
    (s.push reader b).Bounded mss := by
  have htrue := s.conn.sendingWorker.push_true (b := b)
  have hfalse := s.conn.sendingWorker.push_false (b := b)
  rw [WrittenConnection.push, Connection.writeIteration]
  split_ifs
  · generalize s.conn.sendingWorker.push b = pushed at htrue hfalse ⊢
    obtain ⟨sendingWorker, ok⟩ := pushed
    cases ok with
    | true =>
      refine ⟨h.conn, fun p hp => ?_, fun c hc => absurd hc (Option.some_ne_none c).symm⟩
      replace hp : p ∈ sendingWorker.window.ids := hp
      rw [(htrue rfl).2, List.mem_append, List.mem_singleton] at hp
      rcases hp with hp | rfl
      · exact h.window p hp
      · exact hb
    | false =>
      refine ⟨h.conn, fun p hp => ?_, fun c hc => ?_⟩
      · replace hp : p ∈ sendingWorker.window.ids := hp
        rw [show sendingWorker = _ from hfalse rfl] at hp
        exact h.window p hp
      · cases hc
        exact hb
  · exact ⟨h.conn, h.window, fun c hc => absurd hc (Option.some_ne_none c).symm⟩

/-- An action other than a push keeps the payloads. -/
theorem Bounded.act (h : s.Bounded mss) {a : Action} (ha : s.Enabled (.act a)) :
    ((s.step (.act a)).1).Bounded mss := by
  have hconn : (s.conn.step a).1.mss = s.conn.mss := by
    cases a <;> rfl
  refine ⟨hconn.trans h.conn, fun p hp => ?_, h.payload⟩
  rcases Endpoint.step_sending { conn := s.conn } a with ⟨b, hpushed, -⟩ | ⟨-, hr⟩
  · cases a
    case push => exact ha.elim
    all_goals exact absurd hpushed (by simp [Endpoint.step])
  · rw [Endpoint.step_conn] at hr
    exact h.window p (hr.subset hp)

theorem Bounded.step (h : s.Bounded mss) (hmss : 0 < mss.toNat) {e : WriteEvent} (he : s.Enabled e) :
    (s.step e).1.Bounded mss := by
  have hend : (WrittenConnection.mk s.conn none none).Bounded mss :=
    ⟨h.conn, h.window, fun c hc => absurd hc (Option.some_ne_none c).symm⟩
  cases e with
  | writeMultiBuffer mb => exact ⟨h.conn, h.window, hend.payload⟩
  | iterate =>
    rw [WrittenConnection.step, iterate]
    cases hpayload : s.payload with
    | some b =>
      dsimp only
      split_ifs
      · exact hend
      · exact h.push _ (h.payload b hpayload)
    | none =>
      dsimp only
      split_ifs with hstate hmb
      · exact hend
      · exact hend
      · exact h.push _ (h.readPayload hmss (eq_false_of_ne_true hmb))
  | act a => exact h.act he

/-- The segments written are ones that the connection can send. -/
theorem Bounded.canSend (h : s.Bounded mss) {e : WriteEvent} (he : s.Enabled e) {seg : Segment}
    (hseg : seg ∈ (s.step e).2) : s.conn.CanSend seg := by
  cases e with
  | writeMultiBuffer mb => exact absurd hseg List.not_mem_nil
  | iterate => exact absurd hseg List.not_mem_nil
  | act a =>
    cases a
    case flushSending current =>
      obtain ⟨seg, hmem, rfl⟩ := List.mem_map.1 hseg
      have hfits := h.window _ ((s.conn.sendingWorker.flush_retains _ _ _ _ _).2 seg hmem)
      rw [Connection.CanSend, h.conn]
      exact hfits
    case flushReceiving current =>
      obtain ⟨seg, hmem, rfl⟩ := List.mem_map.1 hseg
      exact AckList.length_of_mem_flush (w := s.conn.receivingWorker.write s.conn.conv s.conn.closing)
        (fun _ => rfl) _ _ _ hmem
    case ping next cmd current =>
      rw [List.mem_singleton.1 hseg]
      exact he
    all_goals exact absurd hseg List.not_mem_nil

theorem Bounded.reach {conv : UInt16} {config : Config} {overhead : UInt32}
    (hmss : 0 < (Connection.new conv config overhead).mss.toNat)
    (h : (writing conv config overhead).Reach (fun _ => True) s) :
    s.Bounded (Connection.new conv config overhead).mss := by
  refine h.invariant (fun s hs _ => ?_) fun s e s' _ hs hstep _ => ?_
  · rw [show s = _ from hs]
    exact ⟨rfl, fun p hp => absurd hp List.not_mem_nil, fun c hc => absurd hc (Option.some_ne_none c).symm⟩
  · rw [hstep.2]
    exact hs.step hmss hstep.1

end WrittenConnection

/-! ## The size of a datagram -/

section

variable (newAEADAESGCMBasedOnSeed : String → AESGCM) (roll conv : UInt16)

/-- The nonce and the tag are not too long for the datagram of a full acknowledgement. -/
theorem packetWriter_room {settings : KCPConfig} {config : StreamConfig}
    (hbuild : settings.build = .ok config) :
    let w := config.packetWriter newAEADAESGCMBasedOnSeed roll
    w.overhead + w.nonceSize + 529 ≤ config.getMTUValue.toNat ∧ w.nonceSize ≤ 12 := by
  have hheader := config.headerSize_packetWriter_le newAEADAESGCMBasedOnSeed roll
  obtain ⟨hnone, hsome⟩ := config.packetWriter_sizes newAEADAESGCMBasedOnSeed roll
  have hmtu := (KCPConfig.mtu_of_build hbuild).1
  dsimp only
  by_cases hseed : config.seed = none
  · obtain ⟨hnonceSize, hoverhead⟩ := hnone hseed
    omega
  · obtain ⟨hnonceSize, hoverhead⟩ := hsome hseed
    omega

section

variable {settings : KCPConfig} {config : StreamConfig} (hbuild : settings.build = .ok config)
  {s : WrittenConnection}
  (hreach : (writing conv config.toConfig
    (UInt32.ofNat (config.packetWriter newAEADAESGCMBasedOnSeed roll).overhead)).Reach (fun _ => True) s)
  {e : WriteEvent} (he : s.Enabled e) {seg : Segment} (hseg : seg ∈ (s.step e).2)
include hbuild hreach he hseg

/-- A segment of a connection is short, or has what the MTU leaves it. -/
theorem byteSize_of_mem_step :
    s.conn.mss.toNat + (config.packetWriter newAEADAESGCMBasedOnSeed roll).overhead + 18 =
      config.getMTUValue.toNat ∧
    (seg.byteSize ≤ 529 ∧ (∀ data, seg ≠ .data data) ∨
      ∃ data, seg = .data data ∧ seg.byteSize = 18 + data.payload.len ∧
        data.payload.len ≤ s.conn.mss.toNat) := by
  have hroom := (packetWriter_room newAEADAESGCMBasedOnSeed roll hbuild).1
  have hmss := @Connection.new_mss conv config.toConfig
    (config.packetWriter newAEADAESGCMBasedOnSeed roll).overhead (by omega)
  have hbounded := WrittenConnection.Bounded.reach (by omega) hreach
  have hsend := hbounded.canSend he hseg
  refine ⟨by rw [hbounded.conn, hmss]; omega, ?_⟩
  cases seg with
  | data data => exact .inr ⟨data, rfl, rfl, hsend.2⟩
  | ack ack =>
    have hlen : ack.numberList.length ≤ 128 := hsend
    exact .inl ⟨by rw [Segment.byteSize]; omega, by simp⟩
  | cmdOnly cmd => exact .inl ⟨by rw [Segment.byteSize]; omega, by simp⟩

/-- The datagram of a segment has the nonce besides what is counted of it. -/
theorem exists_datagram (n : ℕ) {nonce : Bytes}
    (hnonce : nonce.length = (config.packetWriter newAEADAESGCMBasedOnSeed roll).nonceSize) :
    ∃ b d, seg.rawBytes = .ok b ∧
      (config.packetWriter newAEADAESGCMBasedOnSeed roll).write n nonce b = .ok d ∧
      d.length = (config.packetWriter newAEADAESGCMBasedOnSeed roll).overhead +
        (config.packetWriter newAEADAESGCMBasedOnSeed roll).nonceSize + seg.byteSize := by
  obtain ⟨hmss, hsize⟩ := byteSize_of_mem_step newAEADAESGCMBasedOnSeed roll conv hbuild hreach he hseg
  obtain ⟨hroom, hnonceSize⟩ := packetWriter_room newAEADAESGCMBasedOnSeed roll hbuild
  have hmtu := (KCPConfig.mtu_of_build hbuild).2
  set w := config.packetWriter newAEADAESGCMBasedOnSeed roll with hw
  have hfits : w.overhead + w.nonceSize + seg.byteSize ≤ bufSize := by
    rw [bufSize]
    rcases hsize with hsize | ⟨data, -, hsize⟩
    · omega
    · omega
  have hlen := seg.length_serialize
  have hwrite := @KCPPacketWriter.write_sealed w (config.getSecurity newAEADAESGCMBasedOnSeed) rfl n nonce
    seg.serialize (by omega)
  refine ⟨_, _, if_neg (by omega), hwrite, ?_⟩
  rw [List.length_append, List.length_append, w.length_header n, hnonce, AEAD.length_seal, hlen,
    KCPPacketWriter.overhead, hw, StreamConfig.packetWriter]
  simp only [Option.elim_some]
  omega

/-- The datagrams of a connection fit the MTU, but for those of almost full data segments under
    a seed, whose nonce is not counted. -/
theorem datagram_size (n : ℕ) {nonce : Bytes}
    (hnonce : nonce.length = (config.packetWriter newAEADAESGCMBasedOnSeed roll).nonceSize) :
    ∃ b d, seg.rawBytes = .ok b ∧
      (config.packetWriter newAEADAESGCMBasedOnSeed roll).write n nonce b = .ok d ∧
      (d.length ≤ config.getMTUValue.toNat ↔
        config.seed = none ∨ ∀ data, seg = .data data → data.payload.len + 12 ≤ s.conn.mss.toNat) := by
  obtain ⟨b, d, hb, hd, hlen⟩ :=
    exists_datagram newAEADAESGCMBasedOnSeed roll conv hbuild hreach he hseg n hnonce
  obtain ⟨hmss, hsize⟩ := byteSize_of_mem_step newAEADAESGCMBasedOnSeed roll conv hbuild hreach he hseg
  obtain ⟨hroom, -⟩ := packetWriter_room newAEADAESGCMBasedOnSeed roll hbuild
  obtain ⟨hnone, hsome⟩ := config.packetWriter_sizes newAEADAESGCMBasedOnSeed roll
  refine ⟨b, d, hb, hd, ?_⟩
  rw [hlen]
  rcases hsize with ⟨hsize, hnot⟩ | ⟨data, hdata, hsize⟩
  · exact iff_of_true (by omega) (.inr fun data h => absurd h (hnot data))
  · by_cases hseed : config.seed = none
    · have hnonceSize := (hnone hseed).1
      exact iff_of_true (by omega) (.inl hseed)
    · have hnonceSize := (hsome hseed).1
      refine ⟨fun h => .inr fun data' hdata' => ?_, fun h => ?_⟩
      · cases hdata.symm.trans hdata'
        omega
      · have := h.resolve_left hseed data hdata
        omega

end

end

/-! ## Runs -/

theorem gcmOverhead_le : 16 ≤ 16 := le_rfl

/-- A cipher that appends the number zero. -/
def exampleGCM : AESGCM where
  nonceSize := 12
  overhead := 16
  seal_ _ plainText _ := plainText ++ bigEndian 16 0
  open_ _ cipherText _ :=
    if cipherText.length < 16 then .panic else .ok (cipherText.take (cipherText.length - 16))
  overhead_le := gcmOverhead_le
  length_seal _ p _ := by rw [List.length_append, length_bigEndian]
  length_open _ c _ p h := by
    split at h
    · cases h
    next hlength =>
      cases h
      rw [List.length_take_of_le (Nat.sub_le _ _)]
      exact Nat.sub_add_cancel (Nat.le_of_not_lt hlength)
  open_error _ c _ e h := by split at h <;> cases h
  open_panic _ c _ h := by
    split at h
    · assumption
    · cases h
  nonceSize_eq := rfl
  overhead_eq := rfl

/-- Without a seed. -/
theorem datagram_size_example :
    ∃ b d, (Segment.cmdOnly ((Connection.new 7 {} 6).pingSegment 0 commandPing)).rawBytes = .ok b ∧
      (StreamConfig.packetWriter (fun _ => exampleGCM) {} 0).write 0 [] b = .ok d ∧
      (d.length ≤ 1350 ↔ (none : Option String) = none ∨ ∀ data,
        Segment.cmdOnly ((Connection.new 7 {} 6).pingSegment 0 commandPing) = .data data →
          data.payload.len + 12 ≤ (Connection.new 7 {} 6).mss.toNat) :=
  @datagram_size (fun _ => exampleGCM) 0 7 {} {} rfl { conn := .new 7 {} 6 } (.init rfl trivial)
    (.act (.ping 0 commandPing 0)) (Or.inl rfl) _ List.mem_cons_self 0 [] rfl

/-! ### A full segment under a seed -/

def exampleSettings : KCPConfig := { seed := some "seed" }

def exampleConfig : StreamConfig := { seed := some "seed" }

def exampleWriter : KCPPacketWriter := exampleConfig.packetWriter (fun _ => exampleGCM) 0

section

variable (mb : MultiBuffer)

/-- A write has begun. -/
def fullBegun : WrittenConnection where
  conn := .new 7 exampleConfig.toConfig 16
  reader := some mb

/-- Its first payload was pushed. -/
def fullPushed : WrittenConnection :=
  (fullBegun mb).push ((fullBegun mb).readPayload mb).1 ((fullBegun mb).readPayload mb).2

theorem fullPushed_reach (h : MultiBuffer.isEmpty mb = false) :
    (writing 7 exampleConfig.toConfig (UInt32.ofNat exampleWriter.overhead)).Reach (fun _ => True)
      (fullPushed mb) := by
  have hbegun : (writing 7 exampleConfig.toConfig (UInt32.ofNat exampleWriter.overhead)).Reach
      (fun _ => True) (fullBegun mb) :=
    .step (a := .writeMultiBuffer mb) (.init rfl trivial) ⟨rfl, rfl⟩ trivial
  have hpushed : fullPushed mb = ((fullBegun mb).step .iterate).1 :=
    (WrittenConnection.iterate_of_isEmpty rfl rfl h).symm
  exact .step (a := .iterate) hbegun ⟨Option.some_ne_none _, hpushed⟩ trivial

theorem sendingWorker_fullPushed :
    (fullPushed mb).conn.sendingWorker.closed = false ∧ (fullPushed mb).conn.sendingWorker.window.cache =
      [{ payload := ((fullBegun mb).readPayload mb).2 }] := by
  have hlen : ¬ (fullBegun mb).conn.sendingWorker.window.len >
      (fullBegun mb).conn.sendingWorker.windowSize := by
    change ¬ (0 : UInt32) > 2 * 1024 * 1024 / 1350
    decide
  rw [fullPushed, WrittenConnection.push, Connection.writeIteration,
    if_pos (show (fullBegun mb).conn.state = .active from rfl), SendingWorker.push,
    if_neg (show ¬ (fullBegun mb).conn.sendingWorker.closed = true from Bool.false_ne_true), if_neg hlen]
  exact ⟨rfl, rfl⟩

end

theorem length_replicate_le : (List.replicate 1316 0 : Bytes).length ≤ bufSize := by
  rw [List.length_replicate, bufSize]
  omega

/-- As many bytes as a payload can have. -/
def fullPayload : Buffer := .ofBytes (List.replicate 1316 0) length_replicate_le

theorem bytes_fullPayload : MultiBuffer.bytes [fullPayload] = List.replicate 1316 0 := by
  rw [MultiBuffer.bytes_cons, MultiBuffer.bytes_nil, List.append_nil, fullPayload, Buffer.ofBytes_bytes]

theorem len_readPayload : ((fullBegun [fullPayload]).readPayload [fullPayload]).2.len = 1316 := by
  have hle : (List.replicate 1316 (0 : UInt8)).length ≤
      min bufSize (fullBegun [fullPayload]).conn.mss.toNat := by
    rw [List.length_replicate]
    change 1316 ≤ min 2048 (1350 - 16 - 18 : UInt32).toNat
    decide
  rw [WrittenConnection.readPayload]
  dsimp only
  rw [MultiBuffer.splitBytes_snd, bytes_fullPayload, List.take_of_length_le hle, Buffer.len,
    Buffer.write_new _ length_replicate_le, List.length_replicate]

/-- A full segment under a seed, of settings that are accepted: its datagram has 1362 bytes, of
    an MTU of 1350. -/
theorem datagram_exceeds_mtu :
    exampleSettings.build = .ok exampleConfig ∧
    (writing 7 exampleConfig.toConfig (UInt32.ofNat exampleWriter.overhead)).Reach (fun _ => True)
      (fullPushed [fullPayload]) ∧
    (fullPushed [fullPayload]).Enabled (.act (.flushSending 0)) ∧
    ∃ seg ∈ ((fullPushed [fullPayload]).step (.act (.flushSending 0))).2, ∃ b d,
      seg.rawBytes = .ok b ∧ exampleWriter.write 0 (List.replicate 12 0) b = .ok d ∧
      d.length = 1362 ∧ exampleConfig.getMTUValue.toNat = 1350 := by
  have hbuild : exampleSettings.build = .ok exampleConfig := rfl
  have hne : MultiBuffer.isEmpty [fullPayload] = false := by
    rw [MultiBuffer.isEmpty_eq_false_iff, bytes_fullPayload, ne_eq, List.replicate_eq_nil_iff]
    decide
  have hreach := fullPushed_reach [fullPayload] hne
  have henabled : (fullPushed [fullPayload]).Enabled (.act (.flushSending 0)) := trivial
  obtain ⟨hclosed, hcache⟩ := sendingWorker_fullPushed [fullPayload]
  obtain ⟨data, hdata, hpayload⟩ := SendingWorker.exists_mem_flush _ hclosed hcache
    (by decide : (0 : UInt32) - 0 < 0x7FFFFFFF) (fullPushed [fullPayload]).conn.config
    (fullPushed [fullPayload]).conn.conv (fullPushed [fullPayload]).conn.closing
    (fullPushed [fullPayload]).conn.roundTrip.timeout
  have hseg : .data data ∈ ((fullPushed [fullPayload]).step (.act (.flushSending 0))).2 :=
    List.mem_map_of_mem hdata
  have hnonce : (List.replicate 12 0 : Bytes).length = exampleWriter.nonceSize := List.length_replicate ..
  obtain ⟨b, d, hb, hd, hlen⟩ :=
    exists_datagram (fun _ => exampleGCM) 0 7 hbuild hreach henabled hseg 0 hnonce
  refine ⟨hbuild, hreach, henabled, _, hseg, b, d, hb, hd, ?_, rfl⟩
  rw [hlen, Segment.byteSize, hpayload, len_readPayload]
  rfl

end Gzv2ray.Kcp
