import Gzv2ray.Trojan.Protocol

/-!
# Round trip of packets

A packet that fits in one buffer with its destination is read back where it was
written (`readMultiBufferWithMetadata_of_fits`). Of one that does not, the end is
dropped, but its length is written whole: a reader takes bytes of the packets
behind it for its end, and never catches up (`readPackets_ahead`). So the packets
are read back exactly if they all fit (`packetsRoundTrip_iff`).
-/

namespace Gzv2ray

namespace Trojan

theorem packetBuffer_bytes (address payload : Bytes) :
    (packetBuffer address payload).bytes =
      (address ++ bigEndian 2 (UInt16.ofNat payload.length).toNat ++ crlf ++ payload).take bufSize := by
  obtain ⟨h₁, h₁'⟩ := Buffer.write_take (b := .new) (l := []) rfl rfl address
  obtain ⟨h₂, h₂'⟩ := Buffer.write_take h₁ h₁' (bigEndian 2 (UInt16.ofNat payload.length).toNat)
  obtain ⟨h₃, h₃'⟩ := Buffer.write_take h₂ h₂' crlf
  exact (Buffer.write_take h₃ h₃' payload).2

theorem addrParser_registers : AddressParser.Registers
    [.addressFamilyByte 0x01 AddressOption.one_lt .ipv4,
      .addressFamilyByte 0x04 AddressOption.four_lt .ipv6,
      .addressFamilyByte 0x03 AddressOption.three_lt .domain] :=
  AddressParser.registers_socks (by simp) (by simp)

theorem addrParser_isConsistent : addrParser.IsConsistent := addrParser_registers.isConsistent

/-! ## Reading a packet -/

theorem readPayload_append {fuel : ℕ} {r : BufferedReader} {payload rest : Bytes}
    (hfuel : payload.length ≤ fuel) (h : r.bytes = payload ++ rest) :
    ∃ mb r', readPayload fuel r payload.length = (.ok mb, r') ∧ MultiBuffer.bytes mb = payload ∧
      r'.bytes = rest := by
  induction fuel generalizing r payload with
  | zero =>
    obtain rfl := List.length_eq_zero_iff.1 (Nat.le_zero.1 hfuel)
    exact ⟨[], r, rfl, rfl, h⟩
  | succ fuel ih =>
    rw [readPayload]
    split
    · rename_i hzero
      obtain rfl := List.length_eq_zero_iff.1 hzero
      exact ⟨[], r, rfl, rfl, h⟩
    · rename_i hne
      set n := min payload.length bufSize with hn
      have hpos : 0 < n := by rw [hn, bufSize]; omega
      have hlen : (payload.take n).length = n := List.length_take_of_le (Nat.min_le_left _ _)
      rw [← List.take_append_drop n payload, List.append_assoc] at h
      obtain ⟨r₁, hread, hbytes, -⟩ := (feeds_bufferedReader r.reader.err).readFullFrom (b := [])
        ⟨h, rfl⟩ hlen (by rw [hlen, hn, List.length_nil]; omega)
      obtain ⟨mb, r', hloop, hmb, hrest⟩ := ih (by rw [List.length_drop]; omega) hbytes
      refine ⟨(Buffer.new.write (payload.take n)).1 :: mb, r', ?_, ?_, hrest⟩
      · rw [hread]
        dsimp only
        rw [List.nil_append, hlen, ← List.length_drop, hloop]
      · rw [MultiBuffer.bytes_cons, Buffer.write_new _ (by rw [hlen, hn]; exact Nat.min_le_right _ _),
          hmb, List.take_append_drop]

/-- A payload that is read has the length that was asked for. -/
theorem readPayload_eq_ok {fuel remain : ℕ} {r r' : BufferedReader} {mb : MultiBuffer}
    (hfuel : remain ≤ fuel) (h : readPayload fuel r remain = (.ok mb, r')) :
    (MultiBuffer.bytes mb).length = remain ∧ r.bytes = MultiBuffer.bytes mb ++ r'.bytes := by
  induction fuel generalizing r remain mb with
  | zero =>
    cases h
    exact ⟨(Nat.le_zero.1 hfuel).symm, rfl⟩
  | succ fuel ih =>
    rw [readPayload] at h
    split at h
    · rename_i hzero
      cases h
      exact ⟨hzero.symm, rfl⟩
    · rename_i hne
      cases hread : readFullFrom BufferedReader.readFull [] r (min remain bufSize) with
      | mk out r₁ =>
        rw [hread] at h
        cases out with
        | error e => cases h
        | ok p =>
          obtain ⟨_, ha, rfl, hbytes⟩ := readFullFrom_eq_ok hread
          dsimp only at h
          cases hloop : readPayload fuel r₁ (remain - p.length) with
          | mk out r₂ =>
            rw [hloop] at h
            cases out with
            | error e => cases h
            | ok mb' =>
              cases h
              have hpos : 0 < p.length := by rw [ha, bufSize]; omega
              have hle : p.length ≤ remain := ha ▸ Nat.min_le_left _ _
              obtain ⟨hlen, hbytes'⟩ := ih (by omega) hloop
              rw [MultiBuffer.bytes_cons, Buffer.write_new _ (ha ▸ Nat.min_le_right _ _)]
              exact ⟨by rw [List.length_append, hlen]; omega,
                by rw [hbytes, hbytes', List.append_assoc]⟩

theorem readBody_append {r : BufferedReader} {payload rest : Bytes}
    (hlen : payload.length ≤ maxLength)
    (h : r.bytes = bigEndian 2 (UInt16.ofNat payload.length).toNat ++ crlf ++ payload ++ rest) :
    ∃ mb r', readBody r = (.ok mb, r') ∧ MultiBuffer.bytes mb = payload ∧ r'.bytes = rest := by
  have h2 : (bigEndian 2 (UInt16.ofNat payload.length).toNat).length = 2 := length_bigEndian _ _
  have hnat : (UInt16.ofNat payload.length).toNat = payload.length :=
    UInt16.toNat_ofNat_of_lt' (hlen.trans_lt (by decide))
  rw [List.append_assoc, List.append_assoc] at h
  obtain ⟨r₁, hread₁, hbytes₁, -⟩ := r.readFull_ok (n := 2) (by rw [h]; simp)
  rw [h, List.take_left' h2] at hread₁
  rw [h, List.drop_left' h2] at hbytes₁
  obtain ⟨r₂, hread₂, hbytes₂, -⟩ := r₁.readFull_ok (n := 2) (by rw [hbytes₁]; simp [crlf])
  rw [hbytes₁, List.drop_left' (show crlf.length = 2 from rfl)] at hbytes₂
  obtain ⟨mb, r', hloop, hmb, hrest⟩ := readPayload_append le_rfl hbytes₂
  refine ⟨mb, r', ?_, hmb, hrest⟩
  rw [readBody, hread₁]
  dsimp only
  rw [hnat, ofBigEndian_bigEndian (hlen.trans_lt (by decide)), if_neg (not_lt.2 hlen), hread₂]
  exact hloop

theorem readBody_eq_ok {r r' : BufferedReader} {mb : MultiBuffer} (h : readBody r = (.ok mb, r')) :
    ∃ b, b.length = 4 ∧ r.bytes = b ++ MultiBuffer.bytes mb ++ r'.bytes := by
  rw [readBody] at h
  cases hread₁ : r.readFull 2 with
  | mk out r₁ =>
    rw [hread₁] at h
    cases out with
    | error e => cases h
    | ok lengthBuf =>
      dsimp only at h
      split at h
      · cases h
      · cases hread₂ : r₁.readFull 2 with
        | mk out r₂ =>
          rw [hread₂] at h
          cases out with
          | error e => cases h
          | ok c =>
            obtain ⟨hlen₁, hbytes₁, -⟩ := r.readFull_eq_ok hread₁
            obtain ⟨hlen₂, hbytes₂, -⟩ := r₁.readFull_eq_ok hread₂
            obtain ⟨-, hbytes⟩ := readPayload_eq_ok le_rfl h
            refine ⟨lengthBuf ++ c, by rw [List.length_append, hlen₁, hlen₂], ?_⟩
            rw [hbytes₁, hbytes₂, hbytes]
            simp only [List.append_assoc]

variable {parseIP : Bytes → Option IPv6}

/-- A packet is read from an encoding of its destination, four bytes, and its payload. -/
theorem readMultiBufferWithMetadata_eq_ok {r r' : BufferedReader} {p : PacketPayload}
    (h : readMultiBufferWithMetadata parseIP r = (.ok p, r')) :
    ∃ address port b c, p.target = ⟨some address, port, .udp⟩ ∧ addrParser.Encodes parseIP address b ∧
      c.length = 6 ∧ r.bytes = b ++ c ++ MultiBuffer.bytes p.buffer ++ r'.bytes := by
  rw [readMultiBufferWithMetadata] at h
  cases hread : addrParser.readAddressPort parseIP BufferedReader.readFull [] r with
  | mk out r₁ =>
    rw [hread] at h
    rcases out with e | ⟨addr, port, b'⟩
    · cases h
    · obtain ⟨address, b, rfl, henc, hbytes⟩ := AddressParser.readAddressPort_eq_ok rfl rfl hread
      dsimp only at h
      cases hbody : readBody r₁ with
      | mk out r₂ =>
        rw [hbody] at h
        cases out with
        | error e => cases h
        | ok mb =>
          cases h
          obtain ⟨c, hc, hbytes₁⟩ := readBody_eq_ok hbody
          refine ⟨address, port, b, AddressParser.writePort port ++ c, rfl, henc, ?_, ?_⟩
          · rw [List.length_append, hc, AddressParser.writePort, length_bigEndian]
          · rw [hbytes, hbytes₁]
            simp only [List.append_assoc]

/-! ## Packets -/

/-- A packet, with its destination. -/
structure Packet where
  address : Address
  port : UInt16
  payload : Bytes

namespace Packet

variable (p : Packet)

def target : Destination := ⟨some p.address, p.port, .udp⟩

structure IsValid (parseIP : Bytes → Option IPv6) : Prop where
  address : p.address.IsPlain parseIP
  pos : p.payload ≠ []
  length : p.payload.length ≤ maxLength

/-- The packet is not written, for the length of its domain. -/
def IsRefused : Prop := p.address.IsRefused

/-- The packet is written whole: with its destination in a buffer, and the length of its
    domain on a byte. -/
structure Fits : Prop where
  address : ¬ p.address.Wraps
  length : p.address.encodedLength + 6 + p.payload.length ≤ bufSize

/-- The bytes of a packet in a buffer. -/
def written : Bytes :=
  match addrParser.writeAddressPort p.address p.port with
  | .error _ => []
  | .ok b => (packetBuffer b p.payload).bytes

variable {p}

/-- The address of a packet that is not refused is written. -/
theorem writeAddressPort_ok (h : ¬ p.IsRefused) :
    ∃ a, addrParser.writeAddress p.address = .ok a ∧
      addrParser.writeAddressPort p.address p.port = .ok (a ++ AddressParser.writePort p.port) := by
  obtain ⟨a, ha⟩ := addrParser_registers.writeAddress_ok h
  rw [← addrParser] at ha
  exact ⟨a, ha, by rw [AddressParser.writeAddressPort, ha]; rfl⟩

/-- What is written of a packet starts with its address and its port. -/
theorem written_eq (h : ¬ p.IsRefused) :
    ∃ a c, addrParser.writeAddress p.address = .ok a ∧ a.length = p.address.encodedLength ∧
      p.written = a ++ AddressParser.writePort p.port ++ c ∧
      c = (bigEndian 2 (UInt16.ofNat p.payload.length).toNat ++ crlf ++ p.payload).take
        (bufSize - (p.address.encodedLength + 2)) := by
  obtain ⟨a, ha, hb⟩ := writeAddressPort_ok h
  have hport : (AddressParser.writePort p.port).length = 2 := length_bigEndian _ _
  have hlen := Address.length_writeAddress ha
  have hle := Address.encodedLength_le h
  refine ⟨a, _, ha, hlen, ?_, rfl⟩
  rw [written, hb]
  dsimp only
  rw [packetBuffer_bytes, List.append_assoc (a ++ _), List.append_assoc (a ++ _), List.take_append,
    List.take_of_length_le (by rw [List.length_append, hlen, hport, bufSize]; omega),
    List.length_append, hlen, hport, List.append_assoc (bigEndian _ _)]

end Packet

/-! ## Writing a packet -/

/-- A write of no more bytes than a packet may have writes one packet. -/
theorem writeLoop_single (dest : Destination) (answer : ℕ → Option Error) {mb : MultiBuffer}
    (hpos : MultiBuffer.bytes mb ≠ []) (hlen : (MultiBuffer.bytes mb).length ≤ maxLength) :
    (writeLoop dest (MultiBuffer.len mb + 1) answer mb).bytes =
        (writePacket (answer 0) (MultiBuffer.bytes mb) dest).bytes ∧
      ((writeLoop dest (MultiBuffer.len mb + 1) answer mb).result = .ok () ↔
        ∃ n, (writePacket (answer 0) (MultiBuffer.bytes mb) dest).result = .ok n) := by
  obtain ⟨hsplit, hrest⟩ := MultiBuffer.splitBytes_spec mb maxLength
  rw [List.take_of_length_le hlen] at hsplit
  rw [List.drop_of_length_le hlen] at hrest
  have hempty : ¬ MultiBuffer.isEmpty mb = true := by rwa [MultiBuffer.isEmpty_iff]
  rw [writeLoop, if_neg hempty]
  generalize MultiBuffer.splitBytes mb maxLength = t at hsplit hrest
  obtain ⟨mb', b⟩ := t
  subst hsplit
  have hstop : writeLoop dest (MultiBuffer.len mb) (fun k => answer (k + 1)) mb' = ⟨[], .ok ()⟩ := by
    cases MultiBuffer.len mb with
    | zero => rfl
    | succ fuel => rw [writeLoop, if_pos ((MultiBuffer.isEmpty_iff _).2 hrest)]
  dsimp only
  rw [hstop]
  generalize writePacket (answer 0) (MultiBuffer.bytes mb) dest = t
  obtain ⟨out, n | e | _⟩ := t
  · exact ⟨List.append_nil out, by simp⟩
  · exact ⟨rfl, by simp⟩
  · exact ⟨rfl, by simp⟩

/-- A call that returns nil writes its packet. -/
theorem call_spec {w : PacketWriter} {answer : ℕ → Option Error} {call : Call} {p : Packet}
    (hp : p.IsValid parseIP) (hgiven : w.given call = (p.target, p.payload)) :
    ((w.call answer call).result = .ok () → ¬ p.IsRefused ∧ (w.call answer call).bytes = p.written) ∧
      (answer 0 = none → ¬ p.IsRefused → (w.call answer call).result = .ok ()) := by
  obtain ⟨mb, hmb, hcall⟩ : ∃ mb, MultiBuffer.bytes mb = p.payload ∧
      w.call answer call = writeLoop p.target (MultiBuffer.len mb + 1) answer mb := by
    cases call with
    | writeMultiBuffer mb =>
      obtain ⟨htarget, hmb⟩ := Prod.mk.inj hgiven
      exact ⟨mb, hmb, by rw [← htarget]; rfl⟩
    | writeMultiBufferWithMetadata mb dest =>
      obtain ⟨rfl, hmb⟩ := Prod.mk.inj hgiven
      exact ⟨mb, hmb, rfl⟩
  obtain ⟨hbytes, hresult⟩ := writeLoop_single p.target answer (hmb ▸ hp.pos) (hmb ▸ hp.length)
  rw [hcall, hbytes, hresult, hmb]
  by_cases hrefused : p.IsRefused
  · have hpacket : writePacket (answer 0) p.payload p.target =
        ⟨[], .error AddressParser.superLongDomain⟩ := by
      have herror := addrParser_registers.writeAddressPort_refused hrefused p.port
      rw [← addrParser] at herror
      simp only [writePacket, Packet.target, herror]
    rw [hpacket]
    exact ⟨fun h => by simp at h, fun _ h => absurd hrefused h⟩
  · obtain ⟨a, -, hb⟩ := Packet.writeAddressPort_ok hrefused
    have hbytes : (writePacket (answer 0) p.payload p.target).bytes = p.written := by
      simp only [writePacket, Packet.target, Packet.written, hb]
    refine ⟨fun _ => ⟨hrefused, hbytes⟩, fun h _ => ⟨p.payload.length, ?_⟩⟩
    simp only [writePacket, Packet.target, hb, h]

/-! ## Packet by packet -/

section

variable {p : Packet} {r r' : BufferedReader} {rest : Bytes}

/-- A packet that fits is read, and no byte behind it. -/
theorem readMultiBufferWithMetadata_of_fits (hp : p.IsValid parseIP) (hrefused : ¬ p.IsRefused)
    (hfits : p.Fits) (h : r.bytes = p.written ++ rest) :
    ∃ pp r', readMultiBufferWithMetadata parseIP r = (.ok pp, r') ∧ pp.target = p.target ∧
      MultiBuffer.bytes pp.buffer = p.payload ∧ r'.bytes = rest := by
  obtain ⟨a, c, ha, halen, hwritten, rfl⟩ := Packet.written_eq hrefused
  have hport : (AddressParser.writePort p.port).length = 2 := length_bigEndian _ _
  have hlen := hfits.length
  rw [List.take_of_length_le (by simp [crlf]; omega)] at hwritten
  rw [hwritten, List.append_assoc] at h
  have hout : addrParser.writeAddressPort p.address p.port =
      .ok (a ++ AddressParser.writePort p.port) := by
    rw [AddressParser.writeAddressPort, ha]
    rfl
  obtain ⟨r₁, hread, hbytes, -⟩ := AddressParser.readAddressPort_writeAddressPort
    addrParser_isConsistent (feeds_bufferedReader r.reader.err)
    (hp.address.isReadable_of_writeAddress hfits.address ha) (b := []) hout ⟨h, rfl⟩
    (by rw [List.length_append, halen, hport, List.length_nil]; omega)
  obtain ⟨mb, r', hbody, hmb, hrest⟩ := readBody_append hp.length hbytes
  rw [hp.address.canonical] at hread
  refine ⟨⟨p.target, mb⟩, r', ?_, rfl, hmb, hrest⟩
  rw [readMultiBufferWithMetadata, hread]
  dsimp only
  rw [hbody]
  rfl

/-- The reader has taken bytes beyond those it should have. -/
def IsAhead (r : BufferedReader) (rest : Bytes) : Prop := r.bytes <:+ rest ∧ r.bytes.length < rest.length

/-- A packet whose end was dropped is read with the bytes behind it. -/
theorem isAhead_of_truncated (hp : p.IsValid parseIP) (hrefused : ¬ p.IsRefused)
    (hwraps : ¬ p.address.Wraps) (hlong : bufSize < p.address.encodedLength + 6 + p.payload.length)
    (h : r.bytes = p.written ++ rest) {pp : PacketPayload}
    (hread : readMultiBufferWithMetadata parseIP r = (.ok pp, r'))
    (hpayload : MultiBuffer.bytes pp.buffer = p.payload) : IsAhead r' rest := by
  obtain ⟨a, c, ha, halen, hwritten, hc⟩ := Packet.written_eq hrefused
  have hport : (AddressParser.writePort p.port).length = 2 := length_bigEndian _ _
  have hclen : c.length ≤ bufSize - (p.address.encodedLength + 2) := hc ▸ List.length_take_le _ _
  have hale := Address.encodedLength_le hrefused
  rw [hwritten, List.append_assoc] at h
  have hout : addrParser.writeAddressPort p.address p.port =
      .ok (a ++ AddressParser.writePort p.port) := by
    rw [AddressParser.writeAddressPort, ha]
    rfl
  obtain ⟨r₁, hread₁, hbytes₁, -⟩ := AddressParser.readAddressPort_writeAddressPort
    addrParser_isConsistent (feeds_bufferedReader r.reader.err)
    (hp.address.isReadable_of_writeAddress hwraps ha) (b := []) hout ⟨h, rfl⟩
    (by rw [List.length_append, halen, hport, List.length_nil, bufSize]; omega)
  rw [readMultiBufferWithMetadata, hread₁] at hread
  dsimp only at hread
  cases hbody : readBody r₁ with
  | mk out r₂ =>
    rw [hbody] at hread
    cases out with
    | error e => cases hread
    | ok mb =>
      cases hread
      obtain ⟨b, hb, hbytes₂⟩ := readBody_eq_ok hbody
      rw [show MultiBuffer.bytes mb = p.payload from hpayload] at hbytes₂
      have hlen := congrArg List.length (hbytes₁.symm.trans hbytes₂)
      simp only [List.length_append, hb] at hlen
      rw [bufSize] at hclen hlong
      have hlt : r'.bytes.length < rest.length := by omega
      have hr' : r'.bytes <:+ r₁.bytes := hbytes₂ ▸ List.suffix_append _ _
      have hrest : rest <:+ r₁.bytes := hbytes₁ ▸ List.suffix_append _ _
      exact ⟨List.suffix_of_suffix_length_le hr' hrest hlt.le, hlt⟩

/-- A reader that is ahead stays ahead. -/
theorem IsAhead.read (hparse : SpellsOut parseIP) (hrefused : ¬ p.IsRefused)
    (h : IsAhead r (p.written ++ rest)) {pp : PacketPayload}
    (hread : readMultiBufferWithMetadata parseIP r = (.ok pp, r')) (htarget : pp.target = p.target)
    (hpayload : MultiBuffer.bytes pp.buffer = p.payload) : IsAhead r' rest := by
  obtain ⟨hsuffix, hlt⟩ := h
  obtain ⟨address, port, b, c, htarget', henc, hc, hbytes⟩ := readMultiBufferWithMetadata_eq_ok hread
  obtain rfl : address = p.address := by
    rw [htarget'] at htarget
    exact Option.some.inj (congrArg Destination.address htarget)
  rw [hpayload] at hbytes
  obtain ⟨a, c', ha, halen, hwritten, hc'⟩ := Packet.written_eq hrefused
  have hport : (AddressParser.writePort p.port).length = 2 := length_bigEndian _ _
  have hclen' : c'.length ≤ 4 + p.payload.length := by
    rw [hc', List.length_take]
    simp [crlf]
    omega
  have hlt' : r'.bytes.length < rest.length := by
    by_contra hle
    -- the encoding that was read lies within the one that was written
    obtain ⟨x, hx⟩ := hsuffix
    have hlen := congrArg List.length hx
    rw [hwritten, hbytes] at hlen hlt
    simp only [List.length_append, hc, hport] at hlen hlt
    have ha' : a <+: p.written ++ rest := by
      rw [hwritten]
      simp only [List.append_assoc]
      exact List.prefix_append _ _
    have hxa : x <+: a := List.prefix_of_prefix_length_le ⟨r.bytes, hx⟩ ha' (by omega)
    obtain ⟨y, rfl⟩ := hxa
    have hb : b <+: r.bytes := by
      rw [hbytes]
      simp only [List.append_assoc]
      exact List.prefix_append _ _
    have hy : y <+: r.bytes := by
      rw [hwritten] at hx
      simp only [List.append_assoc, List.append_cancel_left_eq] at hx
      rw [hx]
      exact List.prefix_append _ _
    have hby : b <+: y := by
      refine List.prefix_of_prefix_length_le hb hy ?_
      simp only [List.length_append] at hlen hlt
      omega
    obtain ⟨z, rfl⟩ := hby
    refine henc.not_within hparse ha (x := x) (y := z) ?_ (List.append_assoc _ _ _).symm
    rintro rfl
    simp only [List.length_nil, Nat.zero_add] at hlen
    omega
  have hr' : r'.bytes <:+ r.bytes := hbytes ▸ List.suffix_append _ _
  exact ⟨List.suffix_of_suffix_length_le (hr'.trans hsuffix) (List.suffix_append _ _) hlt'.le, hlt'⟩

end

/-! ## All packets -/

variable {ps : List Packet} {r : BufferedReader}

theorem readPackets_cons {n : ℕ} {d : Destination × Bytes} {l : List (Except Error (Destination × Bytes))}
    (h : readPackets parseIP (n + 1) r = .ok d :: l) :
    ∃ pp r', readMultiBufferWithMetadata parseIP r = (.ok pp, r') ∧ pp.target = d.1 ∧
      MultiBuffer.bytes pp.buffer = d.2 ∧ readPackets parseIP n r' = l := by
  rw [readPackets] at h
  cases hread : readMultiBufferWithMetadata parseIP r with
  | mk out r' =>
    rw [hread] at h
    cases out with
    | error e => cases h
    | ok pp =>
      obtain ⟨hd, hl⟩ := List.cons.inj h
      cases hd
      exact ⟨pp, r', rfl, rfl, rfl, hl⟩

/-- A reader that is ahead runs out of bytes before it has read all packets. -/
theorem readPackets_ahead (hparse : SpellsOut parseIP) (hrefused : ∀ p ∈ ps, ¬ p.IsRefused)
    (h : IsAhead r (ps.flatMap Packet.written)) :
    readPackets parseIP ps.length r ≠ ps.map fun p => .ok (p.target, p.payload) := by
  induction ps generalizing r with
  | nil => exact absurd h.2 (Nat.not_lt_zero _)
  | cons p ps ih =>
    intro hreads
    obtain ⟨pp, r', hread, htarget, hpayload, hreads'⟩ := readPackets_cons hreads
    exact ih (fun p hp => hrefused p (List.mem_cons_of_mem _ hp))
      (h.read hparse (hrefused p List.mem_cons_self) hread htarget hpayload) hreads'

/-- If all packets are read back, they fit. -/
theorem fits_of_readPackets (hparse : SpellsOut parseIP) (hvalid : ∀ p ∈ ps, p.IsValid parseIP)
    (hrefused : ∀ p ∈ ps, ¬ p.IsRefused) (hr : r.bytes = ps.flatMap Packet.written)
    (h : readPackets parseIP ps.length r = ps.map fun p => .ok (p.target, p.payload)) :
    ∀ p ∈ ps, p.Fits := by
  induction ps generalizing r with
  | nil => exact fun _ hp => absurd hp List.not_mem_nil
  | cons p ps ih =>
    obtain ⟨pp, r', hread, htarget, hpayload, hreads⟩ := readPackets_cons h
    have hp := hvalid p List.mem_cons_self
    have hnot := hrefused p List.mem_cons_self
    have hrefused' : ∀ p ∈ ps, ¬ p.IsRefused := fun p hp => hrefused p (List.mem_cons_of_mem _ hp)
    have hwraps : ¬ p.address.Wraps := by
      obtain ⟨address, port, b, c, htarget', henc, -⟩ := readMultiBufferWithMetadata_eq_ok hread
      obtain rfl : address = p.address := by
        rw [htarget'] at htarget
        exact Option.some.inj (congrArg Destination.address htarget)
      exact henc.not_wraps
    rcases le_or_gt (p.address.encodedLength + 6 + p.payload.length) bufSize with hle | hlong
    · obtain ⟨pp', r₁, hread', -, -, hrest⟩ :=
        readMultiBufferWithMetadata_of_fits hp hnot ⟨hwraps, hle⟩ hr
      obtain rfl : r₁ = r' := (Prod.mk.inj (hread'.symm.trans hread)).2
      intro q hq
      rcases List.mem_cons.1 hq with rfl | hq
      · exact ⟨hwraps, hle⟩
      · exact ih (fun p hp => hvalid p (List.mem_cons_of_mem _ hp)) hrefused' hrest hreads q hq
    · have hahead := isAhead_of_truncated hp hnot hwraps hlong hr hread hpayload
      exact absurd hreads (readPackets_ahead hparse hrefused' hahead)

/-- Packets that fit are read back. -/
theorem readPackets_of_fits (hvalid : ∀ p ∈ ps, p.IsValid parseIP)
    (hrefused : ∀ p ∈ ps, ¬ p.IsRefused) (hfits : ∀ p ∈ ps, p.Fits)
    (hr : r.bytes = ps.flatMap Packet.written) :
    readPackets parseIP ps.length r = ps.map fun p => .ok (p.target, p.payload) := by
  induction ps generalizing r with
  | nil => rfl
  | cons p ps ih =>
    obtain ⟨pp, r', hread, htarget, hpayload, hrest⟩ := readMultiBufferWithMetadata_of_fits
      (hvalid p List.mem_cons_self) (hrefused p List.mem_cons_self) (hfits p List.mem_cons_self) hr
    rw [List.length_cons, readPackets, hread]
    dsimp only
    rw [htarget, hpayload, List.map_cons, ih (fun p hp => hvalid p (List.mem_cons_of_mem _ hp))
      (fun p hp => hrefused p (List.mem_cons_of_mem _ hp))
      (fun p hp => hfits p (List.mem_cons_of_mem _ hp)) hrest]

/-- If all calls that write the packets return nil, the packets are read back, however
    they were split in buffers and the stream is split into reads. -/
def RoundTrips (parseIP : Bytes → Option IPv6) (ps : List Packet) : Prop :=
  ∀ (w : PacketWriter) (calls : List ((ℕ → Option Error) × Call)),
    calls.map (fun c => w.given c.2) = ps.map (fun p => (p.target, p.payload)) →
    (∀ c ∈ calls, (w.call c.1 c.2).result = .ok ()) →
    ∀ r : BufferedReader, r.bytes = calls.flatMap (fun c => (w.call c.1 c.2).bytes) →
      readPackets parseIP ps.length r = ps.map fun p => .ok (p.target, p.payload)

theorem calls_spec {w : PacketWriter} {calls : List ((ℕ → Option Error) × Call)}
    (hvalid : ∀ p ∈ ps, p.IsValid parseIP)
    (hgiven : calls.map (fun c => w.given c.2) = ps.map fun p => (p.target, p.payload))
    (hok : ∀ c ∈ calls, (w.call c.1 c.2).result = .ok ()) :
    (∀ p ∈ ps, ¬ p.IsRefused) ∧
      calls.flatMap (fun c => (w.call c.1 c.2).bytes) = ps.flatMap Packet.written := by
  induction ps generalizing calls with
  | nil =>
    obtain rfl := List.map_eq_nil_iff.1 hgiven
    exact ⟨fun _ hp => absurd hp List.not_mem_nil, rfl⟩
  | cons p ps ih =>
    obtain ⟨c, calls, rfl, hc, hcalls⟩ := List.map_eq_cons_iff.1 hgiven
    obtain ⟨hrefused, hbytes⟩ :=
      (call_spec (hvalid p List.mem_cons_self) hc).1 (hok c List.mem_cons_self)
    obtain ⟨hrefused', hbytes'⟩ := ih (fun p hp => hvalid p (List.mem_cons_of_mem _ hp)) hcalls
      fun c hc => hok c (List.mem_cons_of_mem _ hc)
    refine ⟨fun q hq => ?_, by rw [List.flatMap_cons, List.flatMap_cons, hbytes, hbytes']⟩
    rcases List.mem_cons.1 hq with rfl | hq
    · exact hrefused
    · exact hrefused' q hq

/-- Packets that are read back, whatever the calls, fit. -/
theorem fits_of_roundTrips (hparse : SpellsOut parseIP) (hvalid : ∀ p ∈ ps, p.IsValid parseIP)
    (hrefused : ∀ p ∈ ps, ¬ p.IsRefused) (h : RoundTrips parseIP ps) : ∀ p ∈ ps, p.Fits := by
  -- the packets are given in full buffers, to a connection that takes all
  let w : PacketWriter := ⟨{}⟩
  let calls := ps.map fun p => ((fun _ => none : ℕ → Option Error),
    Call.writeMultiBufferWithMetadata (MultiBuffer.mergeBytes [] p.payload) p.target)
  have hgiven (p : Packet) : w.given (Call.writeMultiBufferWithMetadata
      (MultiBuffer.mergeBytes [] p.payload) p.target) = (p.target, p.payload) := by
    rw [PacketWriter.given, MultiBuffer.mergeBytes_bytes, MultiBuffer.bytes_nil, List.nil_append]
  have hcalls : calls.map (fun c => w.given c.2) = ps.map fun p => (p.target, p.payload) := by
    rw [List.map_map]
    exact List.map_congr_left fun p _ => hgiven p
  have hok : ∀ c ∈ calls, (w.call c.1 c.2).result = .ok () := by
    intro c hc
    obtain ⟨p, hp, rfl⟩ := List.mem_map.1 hc
    exact (call_spec (hvalid p hp) (hgiven p)).2 rfl (hrefused p hp)
  let r : BufferedReader :=
    ⟨MultiBuffer.mergeBytes [] (calls.flatMap fun c => (w.call c.1 c.2).bytes), ⟨[], .eof⟩⟩
  have hr : r.bytes = calls.flatMap fun c => (w.call c.1 c.2).bytes := by
    simp [r, BufferedReader.bytes, Source.bytes]
  exact fits_of_readPackets hparse hvalid hrefused (hr.trans (calls_spec hvalid hcalls hok).2)
    (h w calls hcalls hok r hr)

/-- Packets are read back exactly if they all fit, or one is refused. -/
theorem packetsRoundTrip_iff (hparse : SpellsOut parseIP) (hvalid : ∀ p ∈ ps, p.IsValid parseIP) :
    RoundTrips parseIP ps ↔ (∃ p ∈ ps, p.IsRefused) ∨ ∀ p ∈ ps, p.Fits := by
  by_cases hrefused : ∃ p ∈ ps, p.IsRefused
  · refine ⟨fun _ => .inl hrefused, fun _ w calls hgiven hok r hr => ?_⟩
    obtain ⟨p, hp, hp'⟩ := hrefused
    exact absurd hp' ((calls_spec hvalid hgiven hok).1 p hp)
  · have hnot : ∀ p ∈ ps, ¬ p.IsRefused := fun p hp hp' => hrefused ⟨p, hp, hp'⟩
    refine ⟨fun h => .inr (fits_of_roundTrips hparse hvalid hnot h), fun h w calls hgiven hok r hr => ?_⟩
    exact readPackets_of_fits hvalid hnot (h.resolve_left hrefused)
      (hr.trans (calls_spec hvalid hgiven hok).2)

/-- A packet to a domain, of one byte. -/
def examplePacket : Packet := ⟨.domain (ascii "a.b"), 80, [1]⟩

theorem packetsRoundTrip_example : RoundTrips (fun _ => none) [examplePacket] ↔
    (∃ p ∈ [examplePacket], p.IsRefused) ∨ ∀ p ∈ [examplePacket], p.Fits := by
  refine packetsRoundTrip_iff (fun _ _ h => nomatch h) fun p hp => ?_
  obtain rfl := List.mem_singleton.1 hp
  exact ⟨show Address.IsPlain (fun _ => none) (.domain (ascii "a.b")) from
    ⟨by decide, by decide, by decide⟩, by decide, by decide⟩

/-- A packet to an IPv4 address, of one byte more than fit. -/
def longPacket : Packet := ⟨.ofIPv4Bytes 1 2 3 4, 80, List.replicate 2038 0⟩

theorem not_roundTrips_long :
    longPacket.IsValid (fun _ => none) ∧ ¬ RoundTrips (fun _ => none) [longPacket] := by
  have hlen : longPacket.payload.length = 2038 := List.length_replicate
  have hvalid : longPacket.IsValid (fun _ => none) :=
    ⟨trivial, List.length_pos_iff.1 (by rw [hlen]; decide), by rw [hlen]; decide⟩
  have hrefused : ¬ longPacket.IsRefused := fun ⟨_, hname, _⟩ => Address.noConfusion hname
  refine ⟨hvalid, fun h => ?_⟩
  have hfits : longPacket.Fits := fits_of_roundTrips (fun _ _ h => by cases h)
    (fun p hp => List.mem_singleton.1 hp ▸ hvalid) (fun p hp => List.mem_singleton.1 hp ▸ hrefused)
    h longPacket List.mem_cons_self
  have hlong := hfits.length
  rw [hlen] at hlong
  exact absurd hlong (by decide)

end Trojan

end Gzv2ray
