import Gzv2ray.Vmess.RequestHeader

/-!
# The fields of a request

The server reads the fields that the client wrote one after the other, from a connection that it
decrypts or from what it opened, and stops behind them (`decodeFields_requestFields`): its reader
is any that `Serves` the bytes.

The length of a domain of 256 bytes is written as zero. Then what is read as the domain is all there
is in the buffer, which starts with the version, and no destination is known
(`readDestination_wraps`).
-/

namespace Gzv2ray.Vmess

namespace Encoding

section

variable {ι : Type} {readFull : ReadFull ι} {P : ι → Bytes → Prop}

/-! ## Fields -/

/-- The content of a buffer that starts at its array. -/
structure Filled (b : Buffer) (content : Bytes) : Prop where
  start : b.start = 0
  bytes : b.bytes = content

theorem readFullFrom_filled (h : readFull.Serves P) {b : Buffer} {content : Bytes}
    (hb : Filled b content) {i : ι} {a rest : Bytes} (hi : P i (a ++ rest))
    (hroom : content.length + a.length ≤ bufSize) :
    ∃ b' i', Reading.readFullFrom readFull a.length b i = (.ok (), b', i') ∧
      Filled b' (content ++ a) ∧ P i' rest := by
  obtain ⟨hstart, rfl⟩ := hb
  have hstop : b.stop + a.length ≤ bufSize := by rwa [Buffer.stop, hstart, Nat.zero_add]
  obtain ⟨i', hread, hi'⟩ := Reading.readFullFrom_serves h hi hstop
  exact ⟨_, i', hread, ⟨hstart, b.write_bytes hstop⟩, hi'⟩

theorem byte_of_getElem? {b : Buffer} {i : ι} {k : ℕ} {x : UInt8} (h : b.bytes[k]? = some x) :
    Reading.byte (k : ℤ) b i = (.ok x, b, i) := by
  rw [Reading.byte, if_neg (by omega), Int.toNat_natCast, h]

theorem bytesRange_of_le {b : Buffer} {i : ι} (start stop : ℕ) (hle : start ≤ stop)
    (hstop : stop ≤ b.bytes.length) : Reading.bytesRange (start : ℤ) (stop : ℤ) b i =
      (.ok ((b.bytes.take stop).drop start), b, i) := by
  have hlen : ¬ (b.len : ℤ) < (stop : ℤ) := by
    rw [Buffer.len]
    omega
  rw [Reading.bytesRange, if_neg (by omega), if_neg (by omega), if_neg (by omega)]
  rfl

theorem length_startFields (c : ClientSession) (header : RequestHeader) (n : ℕ) :
    (startFields c header n).length = 38 := by
  simp [startFields, c.requestBodyIV.2, c.requestBodyKey.2]

/-- The bytes behind the version, the initial vector and the key. -/
theorem startFields_getElem? (c : ClientSession) (header : RequestHeader) (n k : ℕ) :
    (startFields c header n)[33 + k]? = [c.responseHeader, header.option,
      UInt8.ofNat n <<< 4 ||| securityNumber header.security, 0, header.command][k]? := by
  have hlength : (version :: (c.requestBodyIV.1 ++ c.requestBodyKey.1)).length = 33 := by
    simp [c.requestBodyIV.2, c.requestBodyKey.2]
  rw [startFields, List.getElem?_append_right (by rw [hlength]; omega), hlength,
    Nat.add_sub_cancel_left]

/-- The length of the padding and the type are told apart. -/
theorem packed_security {n : ℕ} (hn : n < 16) (st : SecurityType) :
    ((UInt8.ofNat n <<< 4 ||| securityNumber st) >>> 4).toNat = n ∧
      parseSecurityType ((UInt8.ofNat n <<< 4 ||| securityNumber st) &&& 0x0F) =
        if st = .unknown then .legacy else st := by
  revert n
  cases st <;> decide +kernel

/-- What the server knows of a header from its start. -/
def fixedFields (c : ClientSession) (header : RequestHeader) (paddingLen : ℕ) : FixedFields where
  version := version
  requestBodyIV := c.requestBodyIV
  requestBodyKey := c.requestBodyKey
  responseHeader := c.responseHeader
  option := header.option
  paddingLen
  security := if header.security = .unknown then .legacy else header.security
  command := header.command

theorem readFixedFields_serves (h : readFull.Serves P) (c : ClientSession) (header : RequestHeader)
    {n : ℕ} (hn : n < 16) {i : ι} {rest : Bytes} (hi : P i (startFields c header n ++ rest)) :
    ∃ b i', readFixedFields readFull .new i = (.ok (fixedFields c header n), b, i') ∧
      Filled b (startFields c header n) ∧ P i' rest := by
  obtain ⟨b, i', hread, hb, hi'⟩ := readFullFrom_filled h
    (show Filled .new [] from ⟨rfl, rfl⟩) hi (by rw [length_startFields]; decide)
  rw [length_startFields] at hread
  rw [List.nil_append] at hb
  refine ⟨b, i', ?_, hb, hi'⟩
  have hlength : b.bytes.length = 38 := by rw [hb.bytes, length_startFields]
  have hversion : Reading.byte 0 b i' = (.ok version, b, i') :=
    byte_of_getElem? (k := 0) (by rw [hb.bytes]; rfl)
  have htail (k : ℕ) {x : UInt8} (hx : [c.responseHeader, header.option,
      UInt8.ofNat n <<< 4 ||| securityNumber header.security, 0, header.command][k]? = some x) :
      Reading.byte ((33 + k : ℕ) : ℤ) b i' = (.ok x, b, i') :=
    byte_of_getElem? (by rw [hb.bytes, startFields_getElem?, hx])
  have hiv : Reading.bytesRange 1 17 b i' = (.ok c.requestBodyIV.1, b, i') := by
    have hdrop : ((startFields c header n).take 17).drop 1 = c.requestBodyIV.1 := by
      simp [startFields, c.requestBodyIV.2]
    rw [← hdrop, ← hb.bytes]
    exact bytesRange_of_le 1 17 (by omega) (by omega)
  have hkey : Reading.bytesRange 17 33 b i' = (.ok c.requestBodyKey.1, b, i') := by
    have hdrop : ((startFields c header n).take 33).drop 17 = c.requestBodyKey.1 := by
      rw [startFields, ← List.cons_append, List.append_assoc, List.drop_take,
        List.drop_left' (by simp [c.requestBodyIV.2]), List.take_left' c.requestBodyKey.2]
    rw [← hdrop, ← hb.bytes]
    exact bytesRange_of_le 17 33 (by omega) (by omega)
  have hresponse : Reading.byte 33 b i' = (.ok c.responseHeader, b, i') := htail 0 rfl
  have hoption : Reading.byte 34 b i' = (.ok header.option, b, i') := htail 1 rfl
  have hpacked : Reading.byte 35 b i' =
      (.ok (UInt8.ofNat n <<< 4 ||| securityNumber header.security), b, i') := htail 2 rfl
  have hcommand : Reading.byte 37 b i' = (.ok header.command, b, i') := htail 4 rfl
  obtain ⟨hpadding, hsecurity⟩ := packed_security hn header.security
  rw [readFixedFields, Reading.bind_of_ok hread, Reading.bind_of_ok hversion, Reading.bind_of_ok hiv,
    Reading.bind_of_ok hkey, Reading.bind_of_ok hresponse, Reading.bind_of_ok hoption,
    Reading.bind_of_ok hpacked, Reading.bind_of_ok hcommand, hpadding, hsecurity, toBlock_val,
    toBlock_val]
  rfl

/-! ## Destinations -/

/-- A request with a command that the server knows, for an address that is what it looks like unless
    the connection is multiplexed. -/
structure IsRequest (parseIP : Bytes → Option IPv6) (header : RequestHeader) : Prop where
  command : header.command = requestCommandMux ∨ header.command = requestCommandTCP ∨
    header.command = requestCommandUDP
  security : header.security ∈ [.legacy, .aes128Gcm, .chacha20Poly1305, .none]
  address : header.command ≠ requestCommandMux →
    ∃ address, header.address = some address ∧ address.IsPlain parseIP

/-- The length of the domain of a request wraps around. -/
def HasWrappingAddress (header : RequestHeader) : Prop :=
  header.command ≠ requestCommandMux ∧ ∃ address, header.address = some address ∧ address.Wraps

/-- The destination that is read: that of a multiplexed connection is fixed. -/
def readBack (header : RequestHeader) : Option Address × UInt16 :=
  if header.command = requestCommandMux then (some (.domain (ascii "v1.mux.cool")), 0)
  else (header.address, header.port)

theorem addrParser_isConsistent : addrParser.IsConsistent :=
  AddressParser.addrParser_registers.isConsistent

/-- The destination of a request that is not multiplexed is its port and its address. -/
theorem destinationFields_eq_ok {header : RequestHeader} {out : Bytes}
    (hout : destinationFields header = .ok out) (hmux : header.command ≠ requestCommandMux) :
    ∃ address a, header.address = some address ∧ addrParser.writeAddress address = .ok a ∧
      out = AddressParser.writePort header.port ++ a := by
  rw [destinationFields, if_neg hmux] at hout
  rcases haddress : header.address with - | address <;> rw [haddress] at hout
  · cases hout
  dsimp only at hout
  rw [AddressParser.writeAddressPort] at hout
  rcases ha : addrParser.writeAddress address with e | a <;> rw [ha] at hout
  · cases hout
  · exact ⟨address, a, rfl, ha, (Outcome.ok.inj hout).symm⟩

theorem length_destinationFields {header : RequestHeader} {out : Bytes}
    (hout : destinationFields header = .ok out) : out.length ≤ 260 := by
  by_cases hmux : header.command = requestCommandMux
  · rw [destinationFields, if_pos hmux] at hout
    obtain rfl : [] = out := Outcome.ok.inj hout
    exact Nat.zero_le _
  · obtain ⟨address, a, -, ha, rfl⟩ := destinationFields_eq_ok hout hmux
    have hrefused : ¬ address.IsRefused := by
      rintro ⟨name, rfl, hlong⟩
      obtain ⟨tb, htb⟩ := AddressParser.addrParser_registers.exists_byte .domain
      rw [AddressParser.writeAddress, Address.family, show addrParser.addrByteMap .domain = some tb
        from htb] at ha
      dsimp only at ha
      rw [if_pos hlong] at ha
      cases ha
    have hlength := Address.encodedLength_le hrefused
    rw [← Address.length_writeAddress ha] at hlength
    rw [List.length_append, AddressParser.writePort, length_bigEndian]
    omega

/-- A reader that serves what is to come feeds it. -/
theorem feeds_of_serves (h : readFull.Serves P) : Feeds readFull.full P := by
  intro input b n hinput hn
  rw [← List.take_append_drop n b] at hinput
  obtain ⟨i', hread, hi'⟩ := h input _ _ hinput
  rw [List.length_take_of_le hn] at hread
  exact ⟨i', by rw [ReadFull.full, hread], hi'⟩

theorem readDestination_serves (h : readFull.Serves P) (hfull : readFull.IsFull)
    {parseIP : Bytes → Option IPv6} {header : RequestHeader} (hheader : IsRequest parseIP header)
    (hwraps : ¬ HasWrappingAddress header) {out : Bytes} (hout : destinationFields header = .ok out)
    {b : Buffer} {content : Bytes} (hb : Filled b content)
    (hroom : content.length + out.length ≤ bufSize) {i : ι} {rest : Bytes} (hi : P i (out ++ rest)) :
    ∃ b' i', readDestination readFull parseIP header.command b i = (.ok (readBack header), b', i') ∧
      Filled b' (content ++ out) ∧ P i' rest := by
  by_cases hmux : header.command = requestCommandMux
  · rw [destinationFields, if_pos hmux] at hout
    obtain rfl : [] = out := Outcome.ok.inj hout
    refine ⟨b, i, ?_, by rwa [List.append_nil], hi⟩
    rw [readDestination, if_pos hmux, readBack, if_pos hmux]
  obtain ⟨hstart, rfl⟩ := hb
  obtain ⟨address, a, haddress, ha, rfl⟩ := destinationFields_eq_ok hout hmux
  obtain ⟨_, haddress', hplain⟩ := hheader.address hmux
  obtain rfl := Option.some.inj (haddress.symm.trans haddress')
  have hboth : addrParser.writeAddressPort address header.port =
      .ok (AddressParser.writePort header.port ++ a) := by
    rw [AddressParser.writeAddressPort, ha]
    rfl
  have hreadable : address.IsReadable parseIP :=
    hplain.isReadable_of_writeAddress (fun hw => hwraps ⟨hmux, address, haddress, hw⟩) ha
  obtain ⟨i', hread, hi'⟩ := AddressParser.readAddressPort_writeAddressPort addrParser_isConsistent
    (feeds_of_serves h) hreadable hboth hi hroom
  rw [hplain.canonical] at hread
  have hagrees := AddressParser.readBothInto_agrees hfull addrParser parseIP b i hstart
  dsimp only at hagrees
  rw [hread] at hagrees
  obtain ⟨_, _, _, -, hold⟩ | ⟨both, b', i'', hnew, hold, hstart'⟩ := hagrees
  · cases hold
  · obtain ⟨hok, rfl⟩ := Prod.mk.inj hold
    obtain ⟨rfl, hbytes⟩ := Prod.mk.inj (Except.ok.inj hok)
    refine ⟨b', i', ?_, ⟨hstart', hbytes.symm⟩, hi'⟩
    rw [readDestination, if_neg hmux, if_pos (hheader.command.resolve_left hmux),
      AddressParser.readAddressPortInto, Option.getD_some, hnew, readBack, if_neg hmux, haddress]

/-- Nothing is known of a destination whose length wraps around: what is read as a domain starts with
    the version. -/
theorem readDestination_wraps (h : readFull.Serves P) (hfull : readFull.IsFull)
    (parseIP : Bytes → Option IPv6) {header : RequestHeader} (hknown : header.command =
      requestCommandTCP ∨ header.command = requestCommandUDP) (hwraps : HasWrappingAddress header)
    {out : Bytes} (hout : destinationFields header = .ok out) {b : Buffer} {content : Bytes}
    (hb : Filled b (version :: content)) (hroom : content.length + 5 ≤ bufSize) {i : ι} {rest : Bytes}
    (hi : P i (out ++ rest)) : ∃ b' i',
      readDestination readFull parseIP header.command b i = (.ok (none, 0), b', i') := by
  obtain ⟨hmux, _, haddress', hlength⟩ := hwraps
  obtain ⟨hstart, hbytes⟩ := hb
  obtain ⟨address, a, haddress, ha, rfl⟩ := destinationFields_eq_ok hout hmux
  obtain rfl := Option.some.inj (haddress.symm.trans haddress')
  have hdomain (b' : Bytes) : AddressParser.domainAddress parseIP (version :: b') =
      .error AddressParser.invalidDomainName := by
    rw [AddressParser.domainAddress, isIPLiteral, List.headD_cons,
      show maybeIPPrefix version = false by decide, Bool.false_and, isValidDomain, List.all_cons,
      show isDomainChar version = false by decide]
    rfl
  rw [List.append_assoc] at hi
  obtain ⟨i₁, hport, hi₁⟩ := AddressParser.readPort_writePort (feeds_of_serves h) (b := b.bytes) hi
    (by rw [hbytes, List.length_cons]; omega)
  rw [← List.take_append_drop 2 a, List.append_assoc] at hi₁
  have hread := AddressParser.readAddress_wraps parseIP addrParser_isConsistent (feeds_of_serves h)
    hlength ha (b := b.bytes ++ AddressParser.writePort header.port)
    (fun tb _ => by rw [hbytes]; exact hdomain _)
    (by rw [List.length_append, AddressParser.writePort, length_bigEndian, hbytes, List.length_cons]
        omega) hi₁
  have hagrees := AddressParser.readBothInto_agrees hfull addrParser parseIP b i hstart
  dsimp only at hagrees
  rw [AddressParser.readAddressPort, if_pos (show addrParser.portFirst = true from rfl), hport]
    at hagrees
  dsimp only at hagrees
  rcases haddr : addrParser.readAddress parseIP readFull.full
    (b.bytes ++ AddressParser.writePort header.port) i₁ with ⟨e | both, i₂⟩ <;>
    rw [haddr] at hread hagrees
  · obtain ⟨e', b', i', hnew, -⟩ | ⟨_, _, _, -, hold, -⟩ := hagrees
    · refine ⟨b', i', ?_⟩
      rw [readDestination, if_neg hmux, if_pos hknown, AddressParser.readAddressPortInto,
        Option.getD_some, hnew]
    · cases hold
  · cases hread

/-! ## Padding and checksum -/

theorem readPadding_serves (h : readFull.Serves P) {b : Buffer} {content : Bytes}
    (hb : Filled b content) {i : ι} {padding rest : Bytes} (hi : P i (padding ++ rest))
    (hroom : content.length + padding.length ≤ bufSize) :
    ∃ b' i', readPadding readFull padding.length b i = (.ok (), b', i') ∧
      Filled b' (content ++ padding) ∧ P i' rest := by
  rw [readPadding]
  split_ifs with hpos
  · exact readFullFrom_filled h hb hi hroom
  · obtain rfl : padding = [] := List.length_eq_zero_iff.1 (by omega)
    exact ⟨b, i, rfl, by rwa [List.append_nil], hi⟩

theorem verifyChecksum_withChecksum {b : Buffer} {content : Bytes}
    (hb : Filled b (withChecksum content)) (i : ι) : verifyChecksum b i = (.ok true, b, i) := by
  have hbytes : b.bytes = content ++ bigEndian 4 (authenticate content).toNat := hb.bytes
  have hlength : (bigEndian 4 (authenticate content).toNat).length = 4 := length_bigEndian _ _
  have hlen : (b.len : ℤ) = content.length + 4 := by
    rw [Buffer.len, hbytes, List.length_append, hlength]
    rfl
  have hto : Reading.bytesTo (-4) b i = (.ok content, b, i) := by
    have hstart : (if (0 : ℤ) < 0 then 0 + (b.len : ℤ) else 0) = 0 := if_neg (lt_irrefl 0)
    have hstop : (if (-4 : ℤ) < 0 then -4 + (b.len : ℤ) else -4) = content.length := by
      rw [if_pos (by decide), hlen]
      omega
    rw [Reading.bytesTo, Reading.bytesRange, hstart, hstop, if_neg (by omega), Int.toNat_natCast,
      hbytes, List.take_left]
    rfl
  have hfrom : Reading.bytesFrom (-4) b i = (.ok (bigEndian 4 (authenticate content).toNat), b, i) := by
    have hlast := Reading.bytesFrom_append (i := i) hbytes (List.length_pos_iff.1 (by omega))
    rwa [hlength] at hlast
  rw [verifyChecksum, Reading.bind_of_ok hto, Reading.bind_of_ok hfrom,
    ofBigEndian_bigEndian (authenticate content).toNat_lt]
  exact congrArg (fun r : Bool => (Outcome.ok r, b, i)) (decide_eq_true rfl)

/-! ## Behind the fixed fields -/

section

variable {F : Type}

/-- The rest of a header is read, and what follows it is left. -/
theorem decodeRest_serves (h : readFull.Serves P) (hfull : readFull.IsFull)
    {parseIP : Bytes → Option IPv6} {header : RequestHeader} (hheader : IsRequest parseIP header)
    (hwraps : ¬ HasWrappingAddress header) {out : Bytes} (hout : destinationFields header = .ok out)
    {b : Buffer} {content : Bytes} (hb : Filled b content) (padding : Bytes)
    (hroom : content.length + out.length + padding.length + 4 ≤ bufSize) (fixed : FixedFields)
    (hcommand : fixed.command = header.command) (hpadding : fixed.paddingLen = padding.length)
    (authID : Bytes) (s : Server F) {i : ι} {rest : Bytes}
    (hi : P i (out ++ (padding ++
      (bigEndian 4 (authenticate (content ++ out ++ padding)).toNat ++ rest)))) :
    ∃ b' i', decodeRest parseIP readFull fixed authID s b i =
        (checkRequest { fixed with address := (readBack header).1, port := (readBack header).2 },
          s, b', i') ∧
      P i' rest := by
  obtain ⟨b₁, i₁, hread₁, hb₁, hi₁⟩ := readDestination_serves h hfull hheader hwraps hout hb
    (by omega) hi
  obtain ⟨b₂, i₂, hread₂, hb₂, hi₂⟩ := readPadding_serves h hb₁ hi₁
    (by rw [List.length_append]; omega)
  obtain ⟨b₃, i₃, hread₃, hb₃, hi₃⟩ := readFullFrom_filled h hb₂ hi₂
    (by rw [length_bigEndian, List.length_append, List.length_append]; omega)
  rw [length_bigEndian] at hread₃
  refine ⟨b₃, i₃, ?_, hi₃⟩
  rw [decodeRest, hcommand, hread₁, hpadding]
  dsimp only
  rw [hread₂]
  dsimp only
  rw [hread₃]
  dsimp only
  rw [verifyChecksum_withChecksum hb₃]

/-- A header of which no destination is known is not accepted. -/
theorem decodeRest_none {parseIP : Bytes → Option IPv6} {fixed : FixedFields} {authID : Bytes}
    {s : Server F} {b b' : Buffer} {i i' : ι}
    (hread : readDestination readFull parseIP fixed.command b i = (.ok (none, 0), b', i'))
    (request : RequestHeader) :
    (decodeRest parseIP readFull fixed authID s b i).1 ≠ .accepted request := by
  have hcut (text : String) (e : Error) : (s.rejectCut authID text e).1 ≠ .accepted request := by
    rw [Server.rejectCut]
    split_ifs <;> simp
  have hchecksum : (s.rejectChecksum authID).1 ≠ .accepted request := by
    rw [Server.rejectChecksum]
    split_ifs <;> simp
  rw [decodeRest, hread]
  dsimp only
  rcases readPadding readFull fixed.paddingLen b' i' with ⟨- | e | -, b₁, i₁⟩ <;> dsimp only
  · rcases Reading.readFullFrom readFull 4 b₁ i₁ with ⟨- | e | -, b₂, i₂⟩ <;> dsimp only
    · rcases verifyChecksum b₂ i₂ with ⟨(- | -) | e | -, b₃, i₃⟩
      · exact hchecksum
      · simp [checkRequest]
      · simp
      · simp
    · exact hcut _ e
    · simp
  · exact hcut _ e
  · simp

/-- The request that the server returns. -/
def receivedRequest (header : RequestHeader) : RequestHeader where
  version := version
  command := header.command
  option := header.option
  security := header.security
  address := (readBack header).1
  port := (readBack header).2

theorem checkRequest_fixedFields {parseIP : Bytes → Option IPv6} (c : ClientSession)
    {header : RequestHeader} (hheader : IsRequest parseIP header) (n : ℕ) :
    checkRequest { fixedFields c header n with
      address := (readBack header).1, port := (readBack header).2 } =
      .accepted (receivedRequest header) := by
  have haddress : (readBack header).1 ≠ none := by
    rw [readBack]
    split_ifs with hmux
    · simp
    · obtain ⟨address, haddress, -⟩ := hheader.address hmux
      simp [haddress]
  have hsecurity : header.security ≠ .unknown ∧ header.security ≠ .auto := by
    constructor <;> intro h <;> have := hheader.security <;> simp [h] at this
  rw [checkRequest, if_neg haddress]
  simp only [fixedFields, if_neg hsecurity.1]
  rw [if_neg (by simp [hsecurity])]
  rfl

/-- What a request is written as. -/
theorem requestFields_eq_ok {c : ClientSession} {header : RequestHeader} {padding buffer : Bytes}
    (hbuffer : requestFields c header padding = .ok buffer) :
    ∃ out, destinationFields header = .ok out ∧
      buffer = withChecksum (startFields c header padding.length ++ out ++ padding) := by
  obtain ⟨out, hout, rfl⟩ := Outcome.map_eq_ok.1 hbuffer
  exact ⟨out, hout, rfl⟩

theorem length_requestFields {c : ClientSession} {header : RequestHeader}
    {padding : { b : Bytes // b.length < 16 }} {buffer : Bytes}
    (hbuffer : requestFields c header padding.1 = .ok buffer) : buffer.length ≤ 317 := by
  obtain ⟨out, hout, rfl⟩ := requestFields_eq_ok hbuffer
  have hlength := length_destinationFields hout
  have hpadding := padding.2
  rw [withChecksum, List.length_append, List.length_append, List.length_append, length_startFields,
    length_bigEndian]
  omega

variable {parseIP : Bytes → Option IPv6} {c : ClientSession} {header : RequestHeader}
  {padding : { b : Bytes // b.length < 16 }} {buffer : Bytes} {user : MemoryUser} {clock : ℤ × ℤ}
  {s : Server F} {i : ι} {rest : Bytes}

/-- The server has not seen the session. -/
def IsFresh (s : Server F) (user : MemoryUser) (c : ClientSession) (clock : ℤ × ℤ) : Prop :=
  (s.sessionHistory.addIfNotExits ⟨user.account.id.uuid, c.requestBodyKey, c.requestBodyIV⟩ clock.1
    clock.2).1 = true

/-- With its fixed fields, a header is that of a session that has been seen, or the rest is read. -/
theorem decodeFields_of_start (parseIP : Bytes → Option IPv6) (user : MemoryUser) (authID : Bytes)
    (clock : ℤ × ℤ) (s : Server F) {i i' : ι} {n : ℕ} {b : Buffer}
    (hread : readFixedFields readFull .new i = (.ok (fixedFields c header n), b, i')) :
    (IsFresh s user c clock → ∃ s' : Server F, s'.session = { s.session with
        requestBodyKey := c.requestBodyKey
        requestBodyIV := c.requestBodyIV
        responseHeader := c.responseHeader } ∧
      decodeFields parseIP readFull user authID clock s i =
        decodeRest parseIP readFull (fixedFields c header n) authID s' b i') ∧
    (¬ IsFresh s user c clock → ∀ request,
      (decodeFields parseIP readFull user authID clock s i).1 ≠ .accepted request) := by
  rw [IsFresh, decodeFields, hread]
  dsimp only [fixedFields]
  rcases s.sessionHistory.addIfNotExits ⟨user.account.id.uuid, c.requestBodyKey, c.requestBodyIV⟩
    clock.1 clock.2 with ⟨- | -, history⟩
  · refine ⟨fun hfresh => absurd hfresh Bool.false_ne_true, fun _ request => ?_⟩
    dsimp only
    rw [Server.rejectDuplicated]
    split_ifs <;> simp
  · exact ⟨fun _ => ⟨_, rfl, rfl⟩, fun hseen => absurd rfl hseen⟩

/-- A header is read to its end, and the session is that of the client. -/
theorem decodeFields_requestFields (h : readFull.Serves P) (hfull : readFull.IsFull)
    (hheader : IsRequest parseIP header) (hwraps : ¬ HasWrappingAddress header)
    (hbuffer : requestFields c header padding.1 = .ok buffer) (hfresh : IsFresh s user c clock)
    (authID : Bytes) (hi : P i (buffer ++ rest)) :
    ∃ s' b' i', decodeFields parseIP readFull user authID clock s i =
        (.accepted (receivedRequest header), s', b', i') ∧ P i' rest ∧
      s'.session = { s.session with
        requestBodyKey := c.requestBodyKey
        requestBodyIV := c.requestBodyIV
        responseHeader := c.responseHeader } := by
  obtain ⟨out, hout, rfl⟩ := requestFields_eq_ok hbuffer
  have hlength := length_destinationFields hout
  have hpadding := padding.2
  rw [withChecksum, List.append_assoc, List.append_assoc, List.append_assoc] at hi
  obtain ⟨b₁, i₁, hread₁, hb₁, hi₁⟩ := readFixedFields_serves h c header hpadding hi
  obtain ⟨s', hsession, hdecode⟩ :=
    (decodeFields_of_start parseIP user authID clock s hread₁).1 hfresh
  obtain ⟨b₂, i₂, hread₂, hi₂⟩ := decodeRest_serves h hfull hheader hwraps hout hb₁
    padding.1 (by rw [length_startFields, bufSize]; omega) (fixedFields c header padding.1.length) rfl
    rfl authID s' hi₁
  refine ⟨s', b₂, i₂, ?_, hi₂, hsession⟩
  rw [hdecode, hread₂, checkRequest_fixedFields c hheader]

/-- A header whose length wraps around is not accepted. -/
theorem decodeFields_wraps (h : readFull.Serves P) (hfull : readFull.IsFull)
    (hheader : IsRequest parseIP header) (hwraps : HasWrappingAddress header)
    (hbuffer : requestFields c header padding.1 = .ok buffer) (authID : Bytes)
    (hi : P i (buffer ++ rest)) (request : RequestHeader) :
    (decodeFields parseIP readFull user authID clock s i).1 ≠ .accepted request := by
  obtain ⟨out, hout, rfl⟩ := requestFields_eq_ok hbuffer
  rw [withChecksum, List.append_assoc, List.append_assoc, List.append_assoc] at hi
  obtain ⟨b₁, i₁, hread₁, hb₁, hi₁⟩ := readFixedFields_serves h c header padding.2 hi
  have hstart := length_startFields c header padding.1.length
  rw [startFields, List.cons_append, List.length_cons] at hstart
  obtain ⟨b₂, i₂, hread₂⟩ := readDestination_wraps h hfull parseIP
    (hheader.command.resolve_left hwraps.1) hwraps hout
    (show Filled b₁ (version :: (startFields c header padding.1.length).tail) from hb₁)
    (by rw [startFields, List.cons_append, List.tail_cons, bufSize]; omega) hi₁
  obtain ⟨hfresh, hseen⟩ := decodeFields_of_start parseIP user authID clock s hread₁
  by_cases hnew : IsFresh s user c clock
  · obtain ⟨s', -, hdecode⟩ := hfresh hnew
    rw [hdecode]
    exact decodeRest_none hread₂ request
  · exact hseen hnew request

end

end

end Encoding

end Gzv2ray.Vmess
