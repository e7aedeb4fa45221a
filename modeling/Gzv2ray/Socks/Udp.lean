import Gzv2ray.Socks.Agreement

/-!
# Packets of SOCKS

A packet is three bytes, of which the last tells that it is no fragment, the destination and the
payload, in one buffer; what has no room in it is dropped.

* `encodeUDPPacket`, `decodeUDPPacket`: the codec;
* `UDPWriter.write`: a writer of packets, which tells the whole payload to be written;
* `udpPacket_iff`: a packet is decoded as it was encoded, and no more told than sent, exactly if
  it fits in a buffer, or is refused for its domain.
-/

namespace Gzv2ray

namespace Socks

/-- The request of a packet. -/
def udpRequest (address : Option Address) (port : UInt16) : RequestHeader where
  version := socks5Version
  command := requestCommandUDP
  address
  port

/-- Decodes a packet: the request, and what is left of the buffer. -/
def decodeUDPPacket (parseIP : Bytes → Option IPv6) (packet : Buffer) :
    Except Error (RequestHeader × Buffer) :=
  if packet.len < 5 then .error (newError "insufficient length of packet.")
  else if packet.bytes[2]?.getD 0 ≠ 0 then .error (newError "discarding fragmented payload.")
  else
    match addrParser.readAddressPort parseIP Buffer.readFull [] (packet.advance 3) with
    | (.error e, _) => .error ((newError "failed to read UDP header").base e)
    | (.ok (address, port, _), packet) => .ok (udpRequest address port, packet)

/-- Encodes a packet. -/
def encodeUDPPacket (request : RequestHeader) (data : Bytes) : Outcome Buffer :=
  let b := (Buffer.new.write [0, 0, 0]).1
  match request.address with
  | none => .panic
  | some address =>
    match addrParser.writeAddressPort address request.port with
    | .error e => .error e
    | .ok header => .ok ((b.write header).1.write data).1

/-- A writer of packets, over one of bytes whose writes may fail. -/
structure UDPWriter where
  request : RequestHeader
  writer : Bytes → Except Error ℕ

/-- Sends a payload; what is told to be written is all of it. -/
def UDPWriter.write (w : UDPWriter) (b : Bytes) : Outcome ℕ :=
  match encodeUDPPacket w.request b with
  | .error e => .error e
  | .panic => .panic
  | .ok eb =>
    match w.writer eb.bytes with
    | .error e => .error e
    | .ok _ => .ok b.length

/-! ## Packets -/

/-- The bytes of a packet before its payload. -/
def headerLength (address : Address) : ℕ := 3 + address.encodedLength + 2

/-- Encoding ends in an error, or in a packet that is decoded to the same destination and
    payload. -/
def RoundTrips (parseIP : Bytes → Option IPv6) (request : RequestHeader) (payload : Bytes) : Prop :=
  match encodeUDPPacket request payload with
  | .error _ => True
  | .panic => False
  | .ok b => ∃ request' payload', decodeUDPPacket parseIP b = .ok (request', payload') ∧
    request'.address = request.address ∧ request'.port = request.port ∧
    Buffer.bytes payload' = payload

/-- No more bytes are told to be written than the packet has beside those of one without a
    payload. -/
def UDPWriter.IsHonest (w : UDPWriter) (payload : Bytes) : Prop :=
  ∀ n, w.write payload = .ok n → ∃ b empty, encodeUDPPacket w.request payload = .ok b ∧
    encodeUDPPacket w.request [] = .ok empty ∧ empty.len + n ≤ b.len

/-- The packet fits in a buffer, and the length of its domain on a byte. -/
structure Fits (address : Address) (payload : Bytes) : Prop where
  wraps : ¬ address.Wraps
  length : headerLength address + payload.length ≤ bufSize

variable {parseIP : Bytes → Option IPv6} {request : RequestHeader} {address : Address}
  {payload : Bytes}

theorem encodeUDPPacket_refused (haddress : request.address = some address)
    (h : address.IsRefused) (payload : Bytes) :
    encodeUDPPacket request payload = .error AddressParser.superLongDomain := by
  have hwrite := addrParser_registers.writeAddressPort_refused h request.port
  rw [← addrParser] at hwrite
  simp only [encodeUDPPacket, haddress, hwrite]

/-- A packet is its header and as much of the payload as there is room for. -/
theorem encodeUDPPacket_spec (haddress : request.address = some address) {a : Bytes}
    (ha : addrParser.writeAddress address = .ok a) (hle : headerLength address ≤ bufSize)
    (payload : Bytes) :
    ∃ b, encodeUDPPacket request payload = .ok b ∧ b.bytes = [0, 0, 0] ++
      (a ++ AddressParser.writePort request.port ++
        payload.take (bufSize - headerLength address)) := by
  have hport : (AddressParser.writePort request.port).length = 2 := length_bigEndian _ _
  have hwrite : addrParser.writeAddressPort address request.port =
      .ok (a ++ AddressParser.writePort request.port) := by
    rw [AddressParser.writeAddressPort, ha]
    rfl
  have hheader : ([0, 0, 0] ++ (a ++ AddressParser.writePort request.port)).length =
      headerLength address := by
    rw [List.length_append, List.length_append, Address.length_writeAddress ha, hport,
      headerLength, List.length_cons, List.length_cons, List.length_singleton]
    omega
  obtain ⟨h₁, h₁'⟩ := Buffer.write_take (b := .new) (l := []) rfl rfl [0, 0, 0]
  obtain ⟨h₂, h₂'⟩ := Buffer.write_take h₁ h₁' (a ++ AddressParser.writePort request.port)
  obtain ⟨-, h₃⟩ := Buffer.write_take h₂ h₂' payload
  refine ⟨_, by simp only [encodeUDPPacket, haddress, hwrite], h₃.trans ?_⟩
  rw [List.nil_append, List.take_append, hheader, List.take_of_length_le (hheader ▸ hle),
    List.append_assoc]

/-- Decoding passes the first three bytes over and reads the destination. -/
theorem decodeUDPPacket_eq {b : Buffer} {l : Bytes} (hb : b.bytes = [0, 0, 0] ++ l)
    (hl : 2 ≤ l.length) : (b.advance 3).bytes = l ∧
      decodeUDPPacket parseIP b =
        match addrParser.readAddressPort parseIP Buffer.readFull [] (b.advance 3) with
        | (.error e, _) => .error ((newError "failed to read UDP header").base e)
        | (.ok (address, port, _), packet) => .ok (udpRequest address port, packet) := by
  have hlen : ¬ b.len < 5 := by
    rw [Buffer.len, hb, List.length_append, List.length_cons, List.length_cons,
      List.length_singleton]
    omega
  have hfragment : ¬ b.bytes[2]?.getD 0 ≠ 0 := by rw [hb]; exact fun h => h rfl
  refine ⟨?_, by rw [decodeUDPPacket, if_neg hlen, if_neg hfragment]⟩
  rw [show (b.advance 3).bytes = b.bytes.drop 3 from rfl, hb]
  rfl

/-- Decoding leaves what is behind the destination. -/
theorem decodeUDPPacket_of_not_wraps (hplain : address.IsPlain parseIP) (hwraps : ¬ address.Wraps)
    {a rest : Bytes} (ha : addrParser.writeAddress address = .ok a) {b : Buffer} {port : UInt16}
    (hb : b.bytes = [0, 0, 0] ++ (a ++ AddressParser.writePort port ++ rest)) :
    ∃ payload', decodeUDPPacket parseIP b = .ok (udpRequest (some address) port, payload') ∧
      payload'.bytes = rest := by
  have hport : (AddressParser.writePort port).length = 2 := length_bigEndian _ _
  have hout : addrParser.writeAddressPort address port = .ok (a ++ AddressParser.writePort port) := by
    rw [AddressParser.writeAddressPort, ha]
    rfl
  have hroom : (a ++ AddressParser.writePort port).length ≤ bufSize := by
    have := b.len_le
    rw [hb, List.length_append, List.length_append] at this
    omega
  obtain ⟨hadvance, hdecode⟩ := @decodeUDPPacket_eq parseIP _ _ hb (by
    rw [List.length_append, List.length_append, hport]
    omega)
  obtain ⟨payload', hread, hrest⟩ := AddressParser.readAddressPort_writeAddressPort
    addrParser_isConsistent feeds_buffer (hplain.isReadable_of_writeAddress hwraps ha) (b := []) hout
    hadvance (by rw [List.length_nil, Nat.zero_add]; exact hroom)
  rw [hplain.canonical] at hread
  exact ⟨payload', by rw [hdecode, hread], hrest⟩

/-- An address whose length wraps around is not decoded. -/
theorem decodeUDPPacket_wraps (hwraps : address.Wraps) {a rest : Bytes}
    (ha : addrParser.writeAddress address = .ok a) {b : Buffer}
    (hb : b.bytes = [0, 0, 0] ++ (a.take 2 ++ rest)) :
    decodeUDPPacket parseIP b =
      .error ((newError "failed to read UDP header").base AddressParser.invalidDomainName) := by
  have hlen : 2 ≤ (a.take 2 ++ rest).length := by
    rw [List.length_append, List.length_take, Address.length_writeAddress ha]
    have := address.two_le_encodedLength
    omega
  obtain ⟨hadvance, hdecode⟩ := @decodeUDPPacket_eq parseIP _ _ hb hlen
  have hread := AddressParser.readAddressPort_wraps parseIP addrParser_isConsistent rfl
    feeds_buffer hwraps ha hadvance
  rw [hdecode]
  generalize addrParser.readAddressPort parseIP Buffer.readFull [] (b.advance 3) = t at hread
  obtain ⟨out, payload'⟩ := t
  rw [show out = _ from hread]

/-- A packet that is decoded as it was encoded fits. -/
theorem fits_of_roundTrips (haddress : request.address = some address)
    (hplain : address.IsPlain parseIP) (hrefused : ¬ address.IsRefused)
    (h : RoundTrips parseIP request payload) : Fits address payload := by
  obtain ⟨a, ha⟩ := addrParser_registers.writeAddress_ok hrefused
  rw [← addrParser] at ha
  have hale := Address.encodedLength_le hrefused
  obtain ⟨b, hencode, hb⟩ := encodeUDPPacket_spec haddress ha (by rw [headerLength, bufSize]; omega)
    payload
  rw [RoundTrips, hencode] at h
  obtain ⟨request', payload', hdecode, -, -, hpayload⟩ := h
  have hwraps : ¬ address.Wraps := by
    intro hwraps
    rw [← List.take_append_drop 2 a, List.append_assoc, List.append_assoc] at hb
    rw [decodeUDPPacket_wraps hwraps ha hb] at hdecode
    cases hdecode
  -- What is decoded is the payload, cut.
  obtain ⟨payload'', hdecode', hrest⟩ := decodeUDPPacket_of_not_wraps hplain hwraps ha hb
  obtain rfl : payload'' = payload' := by
    rw [hdecode'] at hdecode
    exact (Prod.mk.inj (Except.ok.inj hdecode)).2
  have hlen := congrArg List.length (hrest.symm.trans hpayload)
  rw [List.length_take] at hlen
  refine ⟨hwraps, ?_⟩
  rw [headerLength, bufSize] at hlen ⊢
  omega

theorem roundTrips_of_fits (haddress : request.address = some address)
    (hplain : address.IsPlain parseIP) (hrefused : ¬ address.IsRefused)
    (h : Fits address payload) : RoundTrips parseIP request payload := by
  obtain ⟨a, ha⟩ := addrParser_registers.writeAddress_ok hrefused
  rw [← addrParser] at ha
  have hlen := h.length
  obtain ⟨b, hencode, hb⟩ := encodeUDPPacket_spec haddress ha (by omega) payload
  rw [List.take_of_length_le (by omega)] at hb
  obtain ⟨payload', hdecode, hrest⟩ := decodeUDPPacket_of_not_wraps hplain h.wraps ha hb
  rw [RoundTrips, hencode]
  exact ⟨_, payload', hdecode, haddress.symm, rfl, hrest⟩

/-- A writer of packets that fit tells what it has sent. -/
theorem isHonest_of_fits {w : UDPWriter} (haddress : w.request.address = some address)
    (hrefused : ¬ address.IsRefused) (h : Fits address payload) : w.IsHonest payload := by
  intro n hn
  obtain ⟨a, ha⟩ := addrParser_registers.writeAddress_ok hrefused
  rw [← addrParser] at ha
  have hlen := h.length
  obtain ⟨b, hencode, hb⟩ := encodeUDPPacket_spec haddress ha (by omega) payload
  obtain ⟨empty, hempty, hempty'⟩ := encodeUDPPacket_spec haddress ha (by omega) []
  have hn' : n = payload.length := by
    rw [UDPWriter.write, hencode] at hn
    dsimp only at hn
    split at hn
    · cases hn
    · exact (Outcome.ok.inj hn).symm
  refine ⟨b, empty, hencode, hempty, ?_⟩
  rw [List.take_of_length_le (by omega)] at hb
  rw [Buffer.len, Buffer.len, hb, hempty', hn']
  simp only [List.length_append, List.take_nil, List.length_nil]
  omega

/-- A packet is decoded as it was encoded, and the writer tells no more than it has sent,
    exactly if the packet fits, or is refused for its domain. -/
theorem udpPacket_iff (w : UDPWriter) (haddress : w.request.address = some address)
    (hplain : address.IsPlain parseIP) (payload : Bytes) :
    RoundTrips parseIP w.request payload ∧ w.IsHonest payload ↔
      address.IsRefused ∨ Fits address payload := by
  by_cases hrefused : address.IsRefused
  · have hencode := encodeUDPPacket_refused haddress hrefused payload
    refine iff_of_true ⟨?_, fun n hn => ?_⟩ (.inl hrefused)
    · rw [RoundTrips, hencode]
      trivial
    · rw [UDPWriter.write, hencode] at hn
      cases hn
  · exact ⟨fun h => .inr (fits_of_roundTrips haddress hplain hrefused h.1), fun h =>
      have hfits := h.resolve_left hrefused
      ⟨roundTrips_of_fits haddress hplain hrefused hfits, isHonest_of_fits haddress hrefused hfits⟩⟩

/-- A packet of one byte to a domain. -/
theorem udpPacket_iff_domain :
    let w : UDPWriter :=
      ⟨{ address := some (.domain (ascii "a.b")), port := 53 }, fun b => .ok b.length⟩
    RoundTrips (fun _ => none) w.request [1] ∧ w.IsHonest [1] ↔
      (Address.domain (ascii "a.b")).IsRefused ∨ Fits (.domain (ascii "a.b")) [1] :=
  udpPacket_iff _ rfl (show Address.IsPlain (fun _ => none) (.domain (ascii "a.b")) from
    ⟨by decide, by decide, by decide⟩) [1]

/-- Behind the ten bytes of the header for an IPv4 address, a payload of 2039 bytes loses its
    last one. -/
theorem not_roundTrips_cut :
    ¬ RoundTrips (fun _ => none) { address := some (.ofIPv4Bytes 1 2 3 4), port := 53 }
      (List.replicate 2039 0) := by
  intro h
  have hrefused : ¬ (Address.ofIPv4Bytes 1 2 3 4).IsRefused :=
    fun ⟨_, hname, _⟩ => Address.noConfusion hname
  have hplain : (Address.ofIPv4Bytes 1 2 3 4).IsPlain fun _ => none := trivial
  have hroom := (fits_of_roundTrips rfl hplain hrefused h).length
  rw [List.length_replicate] at hroom
  exact absurd hroom (by decide)

end Socks

end Gzv2ray
