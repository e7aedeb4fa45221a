import Gzv2ray.Kcp.Connection
import Gzv2ray.Kcp.Packet

/-!
# Round trip of KCP datagrams

* `readSegment_ok`: parsing is within the bytes whatever they are, and takes some of
  them;
* `readSegment_serialize`: a segment is read back, and what follows it is left;
* `packet_round_trip`: so is the segment of a datagram, under any security.
-/

namespace Gzv2ray.Kcp

/-! ## Parsing of any bytes -/

section

variable {b : Bytes}

theorem sliceFrom_of_le {n : ℕ} (h : n ≤ b.length) : sliceFrom n b = .ok (b.drop n) := if_pos h

theorem byteAt_of_lt (h : 0 < b.length) : byteAt b = .ok (b.headD 0) := by
  cases b with
  | nil => exact absurd h (lt_irrefl _)
  | cons x b => rfl

theorem getUint16_of_le (h : 2 ≤ b.length) : getUint16 b = .ok (UInt16.ofNat (ofBigEndian (b.take 2))) :=
  if_pos h

theorem getUint32_of_le (h : 4 ≤ b.length) : getUint32 b = .ok (UInt32.ofNat (ofBigEndian (b.take 4))) :=
  if_pos h

end

/-- A parser stays within its bytes, and leaves no more than they are. -/
def Parses {α : Type} (b : Bytes) (out : Outcome (Option (α × Bytes))) : Prop :=
  ∃ r, out = .ok r ∧ ∀ seg x, r = some (seg, x) → x.length ≤ b.length

theorem parses_none {α : Type} (b : Bytes) : Parses (α := α) b (.ok none) := ⟨none, rfl, by simp⟩

theorem parses_some {α : Type} {b x : Bytes} {seg : α} (h : x.length ≤ b.length) :
    Parses b (.ok (some (seg, x))) := by
  refine ⟨_, rfl, fun seg' x' heq => ?_⟩
  cases heq
  exact h

theorem Parses.map {α β : Type} {b : Bytes} {out : Outcome (Option (α × Bytes))} (h : Parses b out)
    (f : α → β) : Parses b (out >>= fun seg => pure (seg.map fun (seg, b) => (f seg, b))) := by
  obtain ⟨r, rfl, hr⟩ := h
  refine ⟨_, rfl, fun seg x heq => ?_⟩
  obtain ⟨⟨seg', x'⟩, hr', hx⟩ := Option.map_eq_some_iff.1 heq
  cases hx
  exact hr _ _ hr'

theorem DataSegment.parse_ok (conv : UInt16) (opt : SegmentOption) (b : Bytes) :
    Parses b (DataSegment.parse conv opt b) := by
  unfold DataSegment.parse
  split
  · exact parses_none b
  · simp (disch := ((try simp only [List.length_drop]); omega)) only [getUint32_of_le, getUint16_of_le,
      sliceFrom_of_le, Outcome.bind_ok, List.drop_drop]
    split
    · exact parses_none b
    · refine parses_some ?_
      simp only [List.length_drop]
      omega

theorem numbersLoop_ok (count : ℕ) (b : Bytes) (h : count * 4 ≤ b.length) :
    ∃ numbers, numbersLoop count b = .ok (numbers, b.drop (count * 4)) := by
  induction count generalizing b with
  | zero => exact ⟨[], rfl⟩
  | succ count ih =>
    obtain ⟨numbers, hn⟩ := ih (b.drop 4) (by rw [List.length_drop]; omega)
    rw [numbersLoop, getUint32_of_le (by omega), Outcome.bind_ok, sliceFrom_of_le (by omega),
      Outcome.bind_ok, hn, Outcome.bind_ok, List.drop_drop, Nat.succ_mul, Nat.add_comm]
    exact ⟨_, rfl⟩

theorem AckSegment.parse_ok (conv : UInt16) (opt : SegmentOption) (b : Bytes) :
    Parses b (AckSegment.parse conv opt b) := by
  unfold AckSegment.parse
  split
  · exact parses_none b
  · simp (disch := ((try simp only [List.length_drop]); omega)) only [getUint32_of_le, byteAt_of_lt,
      sliceFrom_of_le, Outcome.bind_ok, List.drop_drop]
    split
    · exact parses_none b
    · rename_i hcount
      obtain ⟨numbers, hn⟩ := numbersLoop_ok _ _ (Nat.le_of_not_lt hcount)
      rw [hn]
      refine parses_some ?_
      simp only [List.length_drop]
      omega

theorem CmdOnlySegment.parse_ok (conv : UInt16) (cmd : Command) (opt : SegmentOption) (b : Bytes) :
    Parses b (CmdOnlySegment.parse conv cmd opt b) := by
  unfold CmdOnlySegment.parse
  split
  · exact parses_none b
  · simp (disch := ((try simp only [List.length_drop]); omega)) only [getUint32_of_le, sliceFrom_of_le,
      Outcome.bind_ok, List.drop_drop]
    refine parses_some ?_
    simp only [List.length_drop]
    omega

/-- Parsing any bytes stays within them, and takes some of them for a segment. -/
theorem readSegment_ok (b : Bytes) :
    ∃ r, readSegment b = .ok r ∧ ∀ seg x, r = some (seg, x) → x.length < b.length := by
  unfold readSegment
  split
  · exact ⟨none, rfl, by simp⟩
  · rename_i hlen
    simp (disch := ((try simp only [List.length_drop]); omega)) only [getUint16_of_le, byteAt_of_lt,
      sliceFrom_of_le, Outcome.bind_ok, List.drop_drop]
    have key {out : Outcome (Option (Segment × Bytes))} (h : Parses (b.drop 4) out) :
        ∃ r, out = .ok r ∧ ∀ seg x, r = some (seg, x) → x.length < b.length := by
      obtain ⟨r, rfl, hr⟩ := h
      refine ⟨r, rfl, fun seg x heq => lt_of_le_of_lt (hr seg x heq) ?_⟩
      rw [List.length_drop]
      omega
    split
    · exact key ((DataSegment.parse_ok _ _ _).map _)
    · split
      · exact key ((AckSegment.parse_ok _ _ _).map _)
      · exact key ((CmdOnlySegment.parse_ok _ _ _ _).map _)

namespace KCPPacketReader

/-- Reading segments ends, within as many rounds as there are bytes. -/
theorem readLoop_ok (fuel : ℕ) (b : Bytes) (h : b.length ≤ fuel) :
    ∃ segs, readLoop fuel b = some (.ok segs) := by
  induction fuel generalizing b with
  | zero =>
    rw [List.length_eq_zero_iff.1 (Nat.le_zero.1 h)]
    exact ⟨[], rfl⟩
  | succ fuel ih =>
    rw [readLoop]
    split
    · exact ⟨[], rfl⟩
    · obtain ⟨r, hr, hlt⟩ := readSegment_ok b
      rw [hr]
      cases r with
      | none => exact ⟨[], rfl⟩
      | some p =>
        obtain ⟨seg, x⟩ := p
        have hx := hlt seg x rfl
        obtain ⟨segs, hsegs⟩ := ih x (by omega)
        refine ⟨seg :: segs, ?_⟩
        dsimp only
        rw [hsegs]
        rfl

/-- Reading a datagram ends, whatever its bytes. -/
theorem read_ok (r : KCPPacketReader) (fuel : ℕ) (b : Bytes) (h : b.length ≤ fuel) :
    ∃ segs, r.read fuel b = some (.ok segs) := by
  have hstrip (x : Bytes) (hx : r.stripHeader b = some x) : x.length ≤ fuel := by
    unfold stripHeader at hx
    split at hx
    · cases hx
      exact h
    · split at hx
      · cases hx
      · cases hx
        rw [List.length_drop]
        omega
  rw [read]
  cases hx : r.stripHeader b with
  | none => exact ⟨[], rfl⟩
  | some x =>
    have hle := hstrip x hx
    cases hsec : r.security with
    | none => exact readLoop_ok fuel x hle
    | some aead =>
      dsimp only
      split
      · exact ⟨[], rfl⟩
      · rename_i hlong
        cases hopen : aead.open_ (x.take aead.nonceSize) (x.drop aead.nonceSize) [] with
        | ok out =>
          have hout := aead.length_open _ _ _ _ hopen
          rw [List.length_drop] at hout
          exact readLoop_ok fuel out (by omega)
        | error e => exact ⟨[], rfl⟩
        | panic =>
          have hshort := aead.open_panic _ _ _ hopen
          rw [List.length_drop] at hshort
          omega

end KCPPacketReader

/-! ## Segments -/

section

variable {rest : Bytes}

theorem sliceFrom_append {n : ℕ} {a : Bytes} (h : a.length = n) : sliceFrom n (a ++ rest) = .ok rest := by
  rw [sliceFrom_of_le (by rw [List.length_append]; omega), List.drop_left' h]

theorem getUint16_append (v : UInt16) : getUint16 (bigEndian 2 v.toNat ++ rest) = .ok v := by
  rw [getUint16_of_le (by rw [List.length_append, length_bigEndian]; omega),
    List.take_left' (length_bigEndian ..), ofBigEndian_bigEndian v.toNat_lt, UInt16.ofNat_toNat]

theorem getUint32_append (v : UInt32) : getUint32 (bigEndian 4 v.toNat ++ rest) = .ok v := by
  rw [getUint32_of_le (by rw [List.length_append, length_bigEndian]; omega),
    List.take_left' (length_bigEndian ..), ofBigEndian_bigEndian v.toNat_lt, UInt32.ofNat_toNat]

theorem numbersLoop_append (numbers : List UInt32) :
    numbersLoop numbers.length (numbers.flatMap (fun n => bigEndian 4 n.toNat) ++ rest) =
      .ok (numbers, rest) := by
  induction numbers with
  | nil => rfl
  | cons n numbers ih =>
    rw [List.length_cons, numbersLoop, List.flatMap_cons, List.append_assoc, getUint32_append,
      Outcome.bind_ok, sliceFrom_append (length_bigEndian ..), Outcome.bind_ok, ih]
    rfl

theorem DataSegment.parse_append (seg : DataSegment) (hpos : 0 < seg.payload.len) :
    DataSegment.parse seg.conv seg.option (bigEndian 4 seg.timestamp.toNat ++
      (bigEndian 4 seg.number.toNat ++ (bigEndian 4 seg.sendingNext.toNat ++
        (bigEndian 2 (seg.payload.len % 2 ^ 16) ++ (seg.payload.bytes ++ rest))))) =
      .ok (some (seg.wire, rest)) := by
  have hle : seg.payload.len ≤ bufSize := seg.payload.len_le
  have hlen : seg.payload.len < 2 ^ 16 := lt_of_le_of_lt hle (by decide)
  have hlen16 : (UInt16.ofNat seg.payload.len).toNat = seg.payload.len :=
    UInt16.toNat_ofNat_of_lt' hlen
  have hdata : (seg.payload.bytes ++ rest).take seg.payload.len = seg.payload.bytes := List.take_left' rfl
  rw [DataSegment.parse, if_neg, Nat.mod_eq_of_lt hlen, ← hlen16]
  · simp (disch := exact length_bigEndian ..) only [getUint32_append, getUint16_append, sliceFrom_append,
      Outcome.bind_ok]
    rw [hlen16, if_neg, hdata, List.drop_left' (by rfl), Buffer.write_new_eq _ hle]
    · rfl
    · rw [List.length_append, Buffer.len]
      omega
  · simp only [List.length_append, length_bigEndian]
    rw [Buffer.len] at hpos
    omega

theorem AckSegment.parse_append (seg : AckSegment) (hle : seg.numberList.length ≤ ackNumberLimit) :
    AckSegment.parse seg.conv seg.option (bigEndian 4 seg.receivingWindow.toNat ++
      (bigEndian 4 seg.receivingNext.toNat ++ (bigEndian 4 seg.timestamp.toNat ++
        ([UInt8.ofNat seg.numberList.length] ++
          (seg.numberList.flatMap (fun n => bigEndian 4 n.toNat) ++ rest))))) =
      .ok (some (seg, rest)) := by
  have hcount : (UInt8.ofNat seg.numberList.length).toNat = seg.numberList.length :=
    UInt8.toNat_ofNat_of_lt' (lt_of_le_of_lt hle (by decide))
  rw [AckSegment.parse, if_neg]
  · simp (disch := exact length_bigEndian ..) only [getUint32_append, sliceFrom_append, Outcome.bind_ok]
    rw [List.singleton_append, byteAt, Outcome.bind_ok, sliceFrom_of_le (by rw [List.length_cons]; omega),
      Outcome.bind_ok, List.drop_one, List.tail_cons, hcount, if_neg, numbersLoop_append]
    · rfl
    · rw [List.length_append, List.length_flatMap]
      simp only [length_bigEndian, List.map_const', List.sum_replicate, smul_eq_mul]
      omega
  · simp only [List.length_append, length_bigEndian, List.length_singleton]
    omega

theorem CmdOnlySegment.parse_append (seg : CmdOnlySegment) :
    CmdOnlySegment.parse seg.conv seg.cmd seg.option (bigEndian 4 seg.sendingNext.toNat ++
      (bigEndian 4 seg.receivingNext.toNat ++ (bigEndian 4 seg.peerRTO.toNat ++ rest))) =
      .ok (some (seg, rest)) := by
  rw [CmdOnlySegment.parse, if_neg]
  · simp (disch := exact length_bigEndian ..) only [getUint32_append, sliceFrom_append, Outcome.bind_ok]
    rfl
  · simp only [List.length_append, length_bigEndian]
    omega

end

/-- A segment that a connection can send. -/
def Connection.CanSend (c : Connection) : Segment → Prop
  | .data seg => 1 ≤ seg.payload.len ∧ seg.payload.len ≤ c.mss.toNat
  | .ack seg => seg.numberList.length ≤ ackNumberLimit
  | .cmdOnly seg => seg.cmd = commandPing ∨ seg.cmd = commandTerminate

theorem readSegment_append (conv : UInt16) (cmd : Command) (opt : SegmentOption) (b : Bytes) :
    readSegment (bigEndian 2 conv.toNat ++ ([cmd, opt] ++ b)) =
      if cmd = commandData then
        DataSegment.parse conv opt b >>= fun seg => pure (seg.map fun (seg, b) => (.data seg, b))
      else if cmd = commandACK then
        AckSegment.parse conv opt b >>= fun seg => pure (seg.map fun (seg, b) => (.ack seg, b))
      else CmdOnlySegment.parse conv cmd opt b >>= fun seg =>
        pure (seg.map fun (seg, b) => (.cmdOnly seg, b)) := by
  have hopt : (sliceFrom 1 ([cmd, opt] ++ b) >>= byteAt) = .ok opt := by
    rw [sliceFrom_of_le (by rw [List.length_append, List.length_cons]; omega)]
    rfl
  rw [readSegment, if_neg]
  · rw [getUint16_append, Outcome.bind_ok, sliceFrom_append (length_bigEndian ..), Outcome.bind_ok, hopt]
    rw [sliceFrom_append (show [cmd, opt].length = 2 from rfl)]
    rfl
  · rw [List.length_append, length_bigEndian, List.length_append, List.length_cons, List.length_singleton]
    omega

/-- A segment is read back, and what follows it is left. -/
theorem readSegment_serialize {c : Connection} {seg : Segment} (h : c.CanSend seg) (rest : Bytes) :
    readSegment (seg.serialize ++ rest) = .ok (some (seg.wire, rest)) := by
  cases seg with
  | data seg =>
    simp only [Segment.serialize, List.append_assoc]
    rw [readSegment_append, if_pos rfl, seg.parse_append h.1]
    rfl
  | ack seg =>
    simp only [Segment.serialize, List.append_assoc]
    rw [readSegment_append, if_neg (by decide), if_pos rfl, seg.parse_append h]
    rfl
  | cmdOnly seg =>
    have hcmd : seg.cmd ≠ commandData ∧ seg.cmd ≠ commandACK := by
      rcases h with h | h <;> rw [h] <;> decide
    simp only [Segment.serialize, List.append_assoc]
    rw [readSegment_append, if_neg hcmd.1, if_neg hcmd.2, seg.parse_append]
    rfl

/-! ## Datagrams -/

/-- An authenticator of datagrams: the legacy one, or an AEAD with nonces of twelve bytes
    that opens what it sealed. -/
def IsSecurity (aead : AEAD) : Prop :=
  aead = simpleAuthenticator ∨ aead.nonceSize = 12 ∧ aead.Inverts

theorem IsSecurity.nonceSize_le {aead : AEAD} (h : IsSecurity aead) : aead.nonceSize ≤ 12 := by
  rcases h with rfl | ⟨h, -⟩
  · exact Nat.zero_le _
  · exact h.le

theorem IsSecurity.opens {aead : AEAD} (h : IsSecurity aead) {b : Bytes} (hb : b.length < 2 ^ 16)
    (nonce data : Bytes) : aead.open_ nonce (aead.seal_ nonce b data) data = .ok b := by
  rcases h with rfl | ⟨-, h⟩
  · exact simpleAuthenticator_opens hb nonce data
  · exact h nonce b data

/-- The header of a datagram has the size that is known of it. -/
theorem KCPPacketWriter.length_header (w : KCPPacketWriter) (n : ℕ) :
    (w.header.elim [] (·.serialize n)).length = w.headerSize := by
  rw [KCPPacketWriter.headerSize]
  cases w.header with
  | none => rfl
  | some header => exact header.length_serialize n

/-- A datagram that fits its buffer is the header, the nonce and what is sealed. -/
theorem KCPPacketWriter.write_sealed {w : KCPPacketWriter} {aead : AEAD} (haead : w.security = some aead)
    (n : ℕ) (nonce : Bytes) {b : Bytes} (hfits : w.overhead + w.nonceSize + b.length ≤ bufSize) :
    w.write n nonce b = .ok (w.header.elim [] (·.serialize n) ++ nonce ++ aead.seal_ nonce b []) := by
  have hheader := w.length_header n
  rw [KCPPacketWriter.overhead, KCPPacketWriter.nonceSize, haead] at hfits
  simp only [Option.elim_some] at hfits
  rw [KCPPacketWriter.write, haead]
  dsimp only
  rw [if_neg (by omega)]

theorem KCPPacketReader.stripHeader_append (r : KCPPacketReader) (n : ℕ) (b : Bytes) (hb : 0 < b.length) :
    r.stripHeader (r.header.elim [] (·.serialize n) ++ b) = some b := by
  obtain ⟨security, header⟩ := r
  cases header with
  | none => rfl
  | some header =>
    have hlen := header.length_serialize n
    change (if (header.serialize n ++ b).length ≤ header.size then none
      else some ((header.serialize n ++ b).drop header.size)) = some b
    rw [if_neg (by rw [List.length_append]; omega), List.drop_left' hlen]

/-- The bytes of one segment are read as that segment. -/
theorem KCPPacketReader.readLoop_serialize {c : Connection} {seg : Segment} (h : c.CanSend seg) {fuel : ℕ}
    (hfuel : 0 < fuel) : readLoop fuel seg.serialize = some (.ok [seg.wire]) := by
  obtain ⟨fuel, rfl⟩ := Nat.exists_eq_succ_of_ne_zero hfuel.ne'
  have hne : ¬ seg.serialize.isEmpty = true := by
    rw [List.isEmpty_iff_length_eq_zero, Segment.length_serialize]
    cases seg <;> rw [Segment.byteSize] <;> omega
  have hread := readSegment_serialize h []
  have hend : readLoop fuel [] = some (.ok []) := by cases fuel <;> rfl
  rw [List.append_nil] at hread
  rw [readLoop, if_neg hne, hread]
  dsimp only
  rw [hend]
  rfl

/-- The most bytes of a payload are those that are left for it. -/
theorem Connection.new_mss {conv : UInt16} {config : Config} {overhead : ℕ}
    (hroom : overhead + 18 ≤ config.getMTUValue.toNat) :
    (Connection.new conv config (UInt32.ofNat overhead)).mss.toNat =
      config.getMTUValue.toNat - overhead - 18 := by
  have hlt := config.getMTUValue.toNat_lt
  have hoverhead : (UInt32.ofNat overhead).toNat = overhead :=
    UInt32.toNat_ofNat_of_lt' (show overhead < 2 ^ 32 by omega)
  have hsub : (config.getMTUValue - UInt32.ofNat overhead).toNat = config.getMTUValue.toNat - overhead := by
    rw [UInt32.toNat_sub_of_le _ _ (UInt32.le_iff_toNat_le.2 (by omega)), hoverhead]
  have hle : dataSegmentOverhead ≤ config.getMTUValue - UInt32.ofNat overhead := by
    rw [UInt32.le_iff_toNat_le, hsub]
    change 18 ≤ _
    omega
  rw [Connection.new, UInt32.toNat_sub_of_le _ _ hle, hsub]
  rfl

section

variable {conv : UInt16} {config : Config} {w : KCPPacketWriter} {seg : Segment}
  (hmtu : config.getMTUValue ≤ 1460) (hroom : w.overhead + 18 ≤ config.getMTUValue.toNat)
  (hseg : (Connection.new conv config (UInt32.ofNat w.overhead)).CanSend seg)
include hmtu hroom hseg

/-- A datagram fits its buffer, with what `SimpleAuthenticator` pads it with. -/
theorem datagram_fits (hnonce : w.nonceSize ≤ 12) :
    w.overhead + w.nonceSize + seg.byteSize + 3 ≤ bufSize := by
  have hle : config.getMTUValue.toNat ≤ 1460 := hmtu
  rw [bufSize]
  cases seg with
  | data seg =>
    have hlen := hseg.2
    rw [Connection.new_mss hroom] at hlen
    rw [Segment.byteSize]
    omega
  | ack seg =>
    have hlen : seg.numberList.length ≤ 128 := hseg
    rw [Segment.byteSize]
    omega
  | cmdOnly seg =>
    rw [Segment.byteSize]
    omega

/-- The datagram of a segment is read as that segment. -/
theorem read_write (hsec : ∀ aead ∈ w.security, IsSecurity aead) (n : ℕ) {nonce : Bytes}
    (hnonce : nonce.length = w.nonceSize) :
    ∃ b d, seg.rawBytes = .ok b ∧ w.write n nonce b = .ok d ∧ ∀ fuel, d.length ≤ fuel →
      (KCPPacketReader.mk w.security w.header).read fuel d = some (.ok [seg.wire]) := by
  have hnonceSize : w.nonceSize ≤ 12 := by
    cases haead : w.security with
    | none =>
      rw [KCPPacketWriter.nonceSize, haead]
      exact Nat.zero_le _
    | some aead =>
      rw [KCPPacketWriter.nonceSize, haead]
      exact (hsec aead haead).nonceSize_le
  have hfits := datagram_fits hmtu hroom hseg hnonceSize
  have hheader := w.length_header n
  have hoverhead : w.headerSize ≤ w.overhead := Nat.le_add_right ..
  have hsize : 0 < seg.byteSize := by
    cases seg <;> rw [Segment.byteSize] <;> omega
  have hlen := seg.length_serialize
  refine ⟨seg.serialize, ?_⟩
  cases haead : w.security with
  | none =>
    have hwrite : w.write n nonce seg.serialize = .ok (w.header.elim [] (·.serialize n) ++ seg.serialize) := by
      rw [KCPPacketWriter.write, haead]
      dsimp only
      rw [if_neg (by omega), List.take_of_length_le (by omega)]
    refine ⟨_, if_neg (by omega), hwrite, fun fuel hfuel => ?_⟩
    rw [List.length_append] at hfuel
    rw [KCPPacketReader.read, KCPPacketReader.stripHeader_append _ _ _ (by omega)]
    exact KCPPacketReader.readLoop_serialize hseg (by omega)
  | some aead =>
    have haead' := hsec aead haead
    have hlenSeal := aead.length_seal nonce seg.serialize []
    have hnonceEq : nonce.length = aead.nonceSize := by rw [hnonce, KCPPacketWriter.nonceSize, haead]; rfl
    have hwrite := @KCPPacketWriter.write_sealed w aead haead n nonce seg.serialize (by omega)
    refine ⟨_, if_neg (by omega), hwrite, fun fuel hfuel => ?_⟩
    simp only [List.length_append] at hfuel
    rw [KCPPacketReader.read, List.append_assoc,
      KCPPacketReader.stripHeader_append _ _ _ (by rw [List.length_append]; omega)]
    dsimp only
    rw [if_neg (by rw [List.length_append]; omega), List.take_left' hnonceEq, List.drop_left' hnonceEq,
      haead'.opens (by rw [hlen]; rw [bufSize] at hfits; omega)]
    exact KCPPacketReader.readLoop_serialize hseg (by omega)

end

end Gzv2ray.Kcp
