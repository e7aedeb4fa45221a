import Gzv2ray.Net.AddressEncoding
import Gzv2ray.Shadowsocks.Protocol

/-!
# Round trip of a packet

A packet that fits in a buffer with its initial vector, its destination and its
tag is decoded as it was encoded. One that does not is cut, or panics where the
tag has no room (`Cipher.encodePacket_spec`). So the round trip of a packet holds
exactly if it fits, or is refused for its domain (`udpRoundTrip_iff`).
-/

namespace Gzv2ray

namespace Shadowsocks

theorem addrParser_registers : AddressParser.Registers
    [.addressFamilyByte 0x01 AddressOption.one_lt .ipv4,
      .addressFamilyByte 0x04 AddressOption.four_lt .ipv6,
      .addressFamilyByte 0x03 AddressOption.three_lt .domain,
      .withAddressTypeParser fun b => b &&& 0x0F] := by
  refine AddressParser.registers_socks (fun atp hatp => ?_) (by simp)
  obtain rfl := AddressOption.withAddressTypeParser.inj (List.mem_singleton.1 hatp)
  decide

theorem addrParser_isConsistent : addrParser.IsConsistent := addrParser_registers.isConsistent

/-! ## Ciphers -/

/-- An AEAD as those of the accounts: a nonce of twelve bytes, a tag of sixteen, and
    opening inverts sealing. -/
structure IsStandard (a : AEAD) : Prop where
  nonceSize : a.nonceSize = 12
  overhead : a.overhead = 16
  inverts : a.Inverts

structure Primitives.IsLawful (pr : Primitives) : Prop where
  aesGcm (key) : IsStandard (pr.createAesGcm key)
  chacha20Poly1305 (key) : IsStandard (pr.createChaCha20Poly1305 key)

variable {pr : Primitives}

namespace Cipher

/-- The bytes of the tag. -/
def overhead : Cipher → ℕ
  | aead _ => 16
  | none => 0

/-- The AEADs of a cipher are standard. -/
def IsLawful : Cipher → Prop
  | aead c => ∀ key, IsStandard (c.aeadAuthCreator key)
  | none => True

end Cipher

theorem isLawful_of_getCipher (hpr : pr.IsLawful) {t : CipherType} {cipher : Cipher}
    (h : getCipher pr t = .ok cipher) : cipher.IsLawful ∧ cipher.ivSize ≤ 32 := by
  cases t with
  | unknown => cases h
  | aes128Gcm => cases h; exact ⟨hpr.aesGcm, show 16 ≤ 32 by decide⟩
  | aes256Gcm => cases h; exact ⟨hpr.aesGcm, le_rfl⟩
  | chacha20Poly1305 => cases h; exact ⟨hpr.chacha20Poly1305, le_rfl⟩
  | none => cases h; exact ⟨trivial, Nat.zero_le _⟩

theorem createAuthenticator_lawful (pr : Primitives) {c : AEADCipher} (h : (Cipher.aead c).IsLawful)
    (key iv : Bytes) :
    (c.createAuthenticator pr key iv).Lawful ∧ (c.createAuthenticator pr key iv).overhead = 16 := by
  have hstandard := h (pr.hkdfSHA1 key iv c.keyBytes)
  refine ⟨⟨fun k => ?_, hstandard.inverts⟩, hstandard.overhead⟩
  rw [AEADCipher.createAuthenticator, hstandard.nonceSize, generateInitialAEADNonce,
    length_generateIncreasingNonce, List.length_replicate]

/-- A buffer with room for the tag is encoded, and decoded to what follows the initial
    vector. Without the room, there is a panic. -/
theorem Cipher.encodePacket_spec (pr : Primitives) {cipher : Cipher} (hcipher : cipher.IsLawful)
    (key : Bytes) {b : Buffer} (hstart : b.start = 0) {iv l : Bytes} (hiv : iv.length = cipher.ivSize)
    (hb : b.bytes = iv ++ l) (hl : l ≠ []) :
    (b.len + cipher.overhead ≤ bufSize → ∃ b₁ b₂, cipher.encodePacket pr key b = .ok b₁ ∧
      cipher.decodePacket pr key b₁ = .ok b₂ ∧ b₂.bytes = l) ∧
    (bufSize < b.len + cipher.overhead → cipher.encodePacket pr key b = .panic) := by
  have hlen : b.len = iv.length + l.length := by rw [Buffer.len, hb, List.length_append]
  cases cipher with
  | none =>
    obtain rfl : iv = [] := List.length_eq_zero_iff.1 hiv
    exact ⟨fun _ => ⟨b, b, rfl, rfl, hb⟩, fun h => absurd b.len_le (not_le.2 h)⟩
  | aead c =>
    have hiv' : iv.length = c.ivBytes := hiv
    have htake : b.bytes.take c.ivBytes = iv := by rw [hb, ← hiv', List.take_left]
    have hdrop : b.bytes.drop c.ivBytes = l := by rw [hb, ← hiv', List.drop_left]
    obtain ⟨hlawful, hoverhead⟩ := createAuthenticator_lawful pr hcipher key iv
    have hstop : b.stop + (c.createAuthenticator pr key iv).overhead = b.len + 16 := by
      rw [hoverhead, Buffer.stop, hstart, Nat.zero_add, Buffer.len]
    rw [overhead, encodePacket, AEADCipher.encodePacket]
    simp only [htake, hdrop, hstop]
    constructor
    · intro hroom
      rw [if_neg (not_lt.2 hroom), hlawful.seal_]
      set s := (c.createAuthenticator pr key iv).aead.seal_
        ((c.createAuthenticator pr key iv).nonceGenerator ({} : Calls).nonce) l
        ((c.createAuthenticator pr key iv).additionalData {}) with hs
      have hslen : s.length = l.length + 16 := by
        rw [hs, AEAD.length_seal, ← hoverhead]
        rfl
      have hbytes : (Buffer.overwrite b.start (iv ++ s)).bytes = iv ++ s := by
        refine Buffer.overwrite_bytes ?_
        rw [hstart, List.length_append]
        omega
      have hpos := List.length_pos_iff.2 hl
      refine ⟨_, .overwrite ((Buffer.overwrite b.start (iv ++ s)).start + c.ivBytes) l, rfl, ?_, ?_⟩
      · rw [decodePacket, AEADCipher.decodePacket, Buffer.len, hbytes]
        dsimp only
        rw [if_neg (by rw [List.length_append]; omega), ← hiv', List.take_left, List.drop_left, hs,
          hlawful.open_seal]
      · refine Buffer.overwrite_bytes ?_
        rw [show (Buffer.overwrite b.start (iv ++ s)).start = min b.start bufSize from rfl, hstart]
        omega
    · intro hfull
      rw [if_pos hfull]

/-! ## Packets -/

section

variable {parseIP : Bytes → Option IPv6} {account : MemoryAccount}
  {iv : { b : Bytes // b.length = account.cipher.ivSize }} {request : RequestHeader}
  {payload : Bytes}

/-- Encoding ends in an error, or in a packet that is decoded to the same destination and
    payload. -/
def RoundTrips (pr : Primitives) (parseIP : Bytes → Option IPv6) (account : MemoryAccount)
    (iv : { b : Bytes // b.length = account.cipher.ivSize }) (request : RequestHeader)
    (payload : Bytes) : Prop :=
  match encodeUDPPacket pr account iv request payload with
  | .error _ => True
  | .panic => False
  | .ok b => ∃ request' payload', decodeUDPPacket pr parseIP account b = .ok (request', payload') ∧
    request'.address = request.address ∧ request'.port = request.port ∧
    Buffer.bytes payload' = payload

/-- The packet fits in a buffer, and the length of its domain on a byte. -/
structure Fits (cipher : Cipher) (address : Address) (payload : Bytes) : Prop where
  wraps : ¬ address.Wraps
  length : cipher.ivSize + address.encodedLength + 2 + payload.length + cipher.overhead ≤ bufSize

theorem roundTrips_of_refused {address : Address} (haddress : request.address = some address)
    (h : address.IsRefused) : RoundTrips pr parseIP account iv request payload := by
  have hwrite := addrParser_registers.writeAddressPort_refused h request.port
  rw [← addrParser] at hwrite
  simp only [RoundTrips, encodeUDPPacket, haddress, hwrite]

/-- Masking leaves the first byte of an address as it is. -/
theorem maskFirst_bytes {address : Address} {a rest : Bytes} {b : Buffer}
    (ha : addrParser.writeAddress address = .ok a) (hb : b.bytes = a ++ rest) :
    (b.maskFirst 0x0F).bytes = a ++ rest := by
  obtain ⟨tb, a, htb, rfl⟩ := AddressParser.writeAddress_eq_cons ha
  have htb' : tb &&& 0x0F = tb := addrParser_isConsistent.plain htb
  rw [show (b.maskFirst 0x0F).bytes = b.bytes.modifyHead (· &&& 0x0F) from rfl, hb, List.cons_append,
    List.modifyHead_cons, htb']

/-- What decoding finds behind the initial vector of what was encoded, if it was. -/
theorem encodeUDPPacket_spec (pr : Primitives)
    (iv : { b : Bytes // b.length = account.cipher.ivSize }) (payload : Bytes)
    (hcipher : account.cipher.IsLawful) {address : Address}
    (haddress : request.address = some address) {a : Bytes}
    (ha : addrParser.writeAddress address = .ok a) {n : ℕ}
    (hn : n = account.cipher.ivSize + address.encodedLength + 2) (hle : n ≤ bufSize) :
    (min (n + payload.length) bufSize + account.cipher.overhead ≤ bufSize →
      ∃ b₁ b₂, encodeUDPPacket pr account iv request payload = .ok b₁ ∧
        account.cipher.decodePacket pr account.key b₁ = .ok b₂ ∧
        b₂.bytes = a ++ AddressParser.writePort request.port ++ payload.take (bufSize - n)) ∧
    (bufSize < min (n + payload.length) bufSize + account.cipher.overhead →
      encodeUDPPacket pr account iv request payload = .panic) := by
  obtain ⟨iv, hivlen⟩ := iv
  have hport : (AddressParser.writePort request.port).length = 2 := length_bigEndian _ _
  have halen := Address.length_writeAddress ha
  obtain ⟨h₁, h₁'⟩ := Buffer.write_take (b := .new) (l := []) rfl rfl iv
  obtain ⟨h₂, h₂'⟩ := Buffer.write_take h₁ h₁' (a ++ AddressParser.writePort request.port)
  obtain ⟨h₃, h₃'⟩ := Buffer.write_take h₂ h₂' payload
  have hwrite : addrParser.writeAddressPort address request.port =
      .ok (a ++ AddressParser.writePort request.port) := by
    rw [AddressParser.writeAddressPort, ha]
    rfl
  set b := (((Buffer.new.write iv).1.write (a ++ AddressParser.writePort request.port)).1.write
    payload).1 with hb
  have hheader : ([] ++ iv ++ (a ++ AddressParser.writePort request.port)).length = n := by
    rw [List.nil_append, List.length_append, List.length_append, hivlen, halen, hport, hn]
    omega
  have hlen : b.len = min (n + payload.length) bufSize := by
    rw [Buffer.len, h₃', List.length_take, List.length_append, hheader, min_comm]
  rw [List.take_append, hheader, List.take_of_length_le (hheader ▸ hle), List.nil_append,
    List.append_assoc] at h₃'
  obtain ⟨hok, hpanic⟩ := Cipher.encodePacket_spec pr hcipher account.key h₃ hivlen h₃' (by
    obtain ⟨tb, a, -, rfl⟩ := AddressParser.writeAddress_eq_cons ha
    exact List.cons_ne_nil _ _)
  rw [hlen] at hok hpanic
  refine ⟨fun hroom => ?_, fun hfull => ?_⟩
  · obtain ⟨b₁, b₂, hb₁, hb₂, hbytes⟩ := hok hroom
    exact ⟨b₁, b₂, by simp only [encodeUDPPacket, haddress, hwrite, ← hb, hb₁], hb₂, hbytes⟩
  · simp only [encodeUDPPacket, haddress, hwrite, ← hb, hpanic hfull]

/-- Decoding reads the address, and leaves what is behind it. -/
theorem decodeUDPPacket_of_fits {address : Address} (hplain : address.IsPlain parseIP)
    (hwraps : ¬ address.Wraps) {a rest : Bytes} (ha : addrParser.writeAddress address = .ok a)
    {b₁ b₂ : Buffer} (hb₁ : account.cipher.decodePacket pr account.key b₁ = .ok b₂) {port : UInt16}
    (hb₂ : b₂.bytes = a ++ AddressParser.writePort port ++ rest) :
    ∃ payload', decodeUDPPacket pr parseIP account b₁ =
        .ok ({ version, command := requestCommandUDP, address := some address, port }, payload') ∧
      payload'.bytes = rest := by
  have hout : addrParser.writeAddressPort address port = .ok (a ++ AddressParser.writePort port) := by
    rw [AddressParser.writeAddressPort, ha]
    rfl
  have hroom : (a ++ AddressParser.writePort port).length ≤ bufSize := by
    have := b₂.len_le
    rw [hb₂, List.length_append] at this
    omega
  rw [List.append_assoc] at hb₂
  obtain ⟨payload', hread, hrest⟩ := AddressParser.readAddressPort_writeAddressPort
    addrParser_isConsistent feeds_buffer (hplain.isReadable_of_writeAddress hwraps ha) (b := []) hout
    (show (b₂.maskFirst 0x0F).bytes = a ++ AddressParser.writePort port ++ rest by
      rw [maskFirst_bytes ha hb₂, List.append_assoc])
    (by rw [List.length_nil, Nat.zero_add]; exact hroom)
  rw [hplain.canonical] at hread
  refine ⟨payload', ?_, hrest⟩
  simp only [decodeUDPPacket, hb₁, hread]

/-- An address whose length wraps around is not decoded. -/
theorem decodeUDPPacket_wraps {address : Address} (hwraps : address.Wraps) {a rest : Bytes}
    (ha : addrParser.writeAddress address = .ok a) {b₁ b₂ : Buffer}
    (hb₁ : account.cipher.decodePacket pr account.key b₁ = .ok b₂)
    (hb₂ : b₂.bytes = a.take 2 ++ rest) :
    decodeUDPPacket pr parseIP account b₁ =
      .error ((newError "failed to parse address").base AddressParser.invalidDomainName) := by
  have hmask : (b₂.maskFirst 0x0F).bytes = a.take 2 ++ rest := by
    obtain ⟨tb, a, htb, rfl⟩ := AddressParser.writeAddress_eq_cons ha
    have htb' : tb &&& 0x0F = tb := addrParser_isConsistent.plain htb
    rw [show (b₂.maskFirst 0x0F).bytes = b₂.bytes.modifyHead (· &&& 0x0F) from rfl, hb₂,
      List.take_succ_cons, List.cons_append, List.modifyHead_cons, htb']
  have hread := AddressParser.readAddressPort_wraps parseIP addrParser_isConsistent rfl
    feeds_buffer hwraps ha hmask
  rw [decodeUDPPacket, hb₁]
  dsimp only
  generalize addrParser.readAddressPort parseIP Buffer.readFull [] (b₂.maskFirst 0x0F) = t at hread
  obtain ⟨out, payload'⟩ := t
  rw [show out = _ from hread]

/-- A packet that is decoded as it was encoded fits. -/
theorem fits_of_roundTrips (hlawful : account.cipher.IsLawful) (hiv : account.cipher.ivSize ≤ 32)
    {address : Address} (haddress : request.address = some address)
    (hplain : address.IsPlain parseIP) (hrefused : ¬ address.IsRefused)
    (h : RoundTrips pr parseIP account iv request payload) :
    Fits account.cipher address payload := by
  obtain ⟨a, ha⟩ := addrParser_registers.writeAddress_ok hrefused
  rw [← addrParser] at ha
  have hale := Address.encodedLength_le hrefused
  set n := account.cipher.ivSize + address.encodedLength + 2 with hn
  obtain ⟨hok, hpanic⟩ := encodeUDPPacket_spec pr iv payload hlawful
    haddress ha hn (by rw [hn, bufSize]; omega)
  rw [RoundTrips] at h
  rcases le_or_gt (min (n + payload.length) bufSize + account.cipher.overhead) bufSize
    with hroom | hfull
  · obtain ⟨b₁, b₂, hencode, hb₁, hb₂⟩ := hok hroom
    rw [hencode] at h
    obtain ⟨request', payload', hdecode, -, -, hpayload⟩ := h
    have hwraps : ¬ address.Wraps := by
      intro hwraps
      rw [← List.take_append_drop 2 a, List.append_assoc, List.append_assoc] at hb₂
      rw [decodeUDPPacket_wraps hwraps ha hb₁ hb₂] at hdecode
      cases hdecode
    -- what is decoded is the payload, cut
    obtain ⟨payload'', hdecode', hrest⟩ := decodeUDPPacket_of_fits hplain hwraps ha hb₁ hb₂
    obtain rfl : payload'' = payload' := by
      rw [hdecode'] at hdecode
      exact (Prod.mk.inj (Outcome.ok.inj hdecode)).2
    have hlen := congrArg List.length (hrest.symm.trans hpayload)
    rw [List.length_take] at hlen
    refine ⟨hwraps, ?_⟩
    rw [bufSize] at hlen hroom ⊢
    omega
  · rw [hpanic hfull] at h
    exact h.elim

theorem roundTrips_of_fits (hlawful : account.cipher.IsLawful) {address : Address}
    (haddress : request.address = some address)
    (hplain : address.IsPlain parseIP) (hrefused : ¬ address.IsRefused)
    (h : Fits account.cipher address payload) :
    RoundTrips pr parseIP account iv request payload := by
  obtain ⟨a, ha⟩ := addrParser_registers.writeAddress_ok hrefused
  rw [← addrParser] at ha
  have hlen := h.length
  set n := account.cipher.ivSize + address.encodedLength + 2 with hn
  obtain ⟨hok, -⟩ := encodeUDPPacket_spec pr iv payload hlawful
    haddress ha hn (by omega)
  obtain ⟨b₁, b₂, hencode, hb₁, hb₂⟩ := hok (by omega)
  rw [List.take_of_length_le (by omega)] at hb₂
  obtain ⟨payload', hdecode, hrest⟩ := decodeUDPPacket_of_fits hplain h.wraps ha hb₁ hb₂
  rw [RoundTrips, hencode]
  exact ⟨_, payload', hdecode, haddress.symm, rfl, hrest⟩

/-- The round trip holds exactly of the packets that fit, and of those that are refused. -/
theorem udpRoundTrip_iff (hpr : pr.IsLawful) {t : CipherType}
    (hcipher : getCipher pr t = .ok account.cipher) {address : Address}
    (haddress : request.address = some address) (hplain : address.IsPlain parseIP) :
    RoundTrips pr parseIP account iv request payload ↔
      address.IsRefused ∨ Fits account.cipher address payload := by
  by_cases hrefused : address.IsRefused
  · exact ⟨fun _ => .inl hrefused, fun _ => roundTrips_of_refused haddress hrefused⟩
  obtain ⟨hlawful, hiv⟩ := isLawful_of_getCipher hpr hcipher
  exact ⟨fun h => .inr (fits_of_roundTrips hlawful hiv haddress hplain hrefused h),
    fun h => roundTrips_of_fits hlawful haddress hplain hrefused (h.resolve_left hrefused)⟩

end

/-- An AEAD whose tags are zero. -/
def exampleAEAD : AEAD where
  nonceSize := 12
  overhead := 16
  seal_ _ plainText _ := plainText ++ List.replicate 16 0
  open_ _ cipherText _ := if cipherText.length < 16 then .error (newError "no tag")
    else .ok (cipherText.take (cipherText.length - 16))
  overhead_le := le_rfl
  length_seal _ p _ := by rw [List.length_append, List.length_replicate]
  length_open _ c _ p h := by
    split at h
    · cases h
    · cases h
      rw [List.length_take]
      omega
  open_error _ c _ e h := by
    split at h
    · cases h
      decide
    · cases h
  open_panic _ c _ h := by split at h <;> cases h

def examplePrimitives : Primitives where
  createAesGcm _ := exampleAEAD
  createChaCha20Poly1305 _ := exampleAEAD
  hkdfSHA1 secret salt size := (secret ++ salt).take size

theorem exampleAEAD_isStandard : IsStandard exampleAEAD where
  nonceSize := rfl
  overhead := rfl
  inverts n p d := by simp [exampleAEAD]

/-- A packet of one byte to a domain, under no cipher. -/
theorem udpRoundTrip_iff_none :
    RoundTrips examplePrimitives (fun _ => none) ⟨.none, []⟩ ⟨[], rfl⟩
        { address := some (.domain (ascii "a.b")), port := 53 } [1] ↔
      (Address.domain (ascii "a.b")).IsRefused ∨ Fits .none (.domain (ascii "a.b")) [1] :=
  udpRoundTrip_iff ⟨fun _ => exampleAEAD_isStandard, fun _ => exampleAEAD_isStandard⟩ (t := .none)
    rfl rfl (show Address.IsPlain (fun _ => none) (.domain (ascii "a.b")) from
      ⟨by decide, by decide, by decide⟩)

def exampleAccount : MemoryAccount := ⟨.aead ⟨16, 16, fun _ => exampleAEAD⟩, []⟩

def exampleAddress : Address := .ofIPv4Bytes 1 2 3 4

/-- With an initial vector of 16 bytes and the seven bytes of the destination, a payload of
    2010 bytes leaves fifteen bytes for the tag. -/
theorem not_roundTrips_of_length {payload : Bytes} (hlen : payload.length = 2010) :
    ¬ RoundTrips examplePrimitives (fun _ => none) exampleAccount ⟨List.replicate 16 0, rfl⟩
      { address := some exampleAddress, port := 53 } payload := by
  intro h
  have hlawful : exampleAccount.cipher.IsLawful := fun _ => exampleAEAD_isStandard
  have hiv : exampleAccount.cipher.ivSize ≤ 32 := show 16 ≤ 32 by decide
  have hplain : exampleAddress.IsPlain fun _ => none := trivial
  have hrefused : ¬ exampleAddress.IsRefused := fun ⟨_, hname, _⟩ => Address.noConfusion hname
  have hroom := (fits_of_roundTrips hlawful hiv rfl hplain hrefused h).length
  rw [hlen] at hroom
  exact absurd hroom (by decide)

theorem not_roundTrips_full :
    getCipher examplePrimitives .aes128Gcm = .ok exampleAccount.cipher ∧
      ¬ RoundTrips examplePrimitives (fun _ => none) exampleAccount ⟨List.replicate 16 0, rfl⟩
        { address := some exampleAddress, port := 53 } (List.replicate 2010 0) :=
  ⟨rfl, not_roundTrips_of_length List.length_replicate⟩

end Shadowsocks

end Gzv2ray
