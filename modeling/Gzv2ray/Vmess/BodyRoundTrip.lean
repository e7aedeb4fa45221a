import Gzv2ray.Vmess.BodyReader
import Gzv2ray.Vmess.RequestRoundTrip

/-!
# Round trips of bodies

A server has decoded the header of a request, and the client has the same keys. What either writes
behind its header, the other reads (`bodiesRoundTrip_iff`), exactly if

* no padding is asked for without the masking of sizes, which makes all codecs panic;
* the security is one that the codecs know: there is one that headers may have and that they do not;
* where chunks are not sealed, the length of no write wraps around.
-/

namespace Gzv2ray.Vmess

namespace Encoding

/-! ## Requests that are decoded -/

section

variable {F ι : Type} {setup : Setup F} {chances : Chances} {user user' : MemoryUser}
  {request : RequestHeader}

theorem drainConnection_ne_ok {behavior : DrainBehavior} {n : ℤ} {b : Buffer} {reader : BufferedReader}
    {point : DrainPoint} {e : Error} {s : Server F} {returned : MemoryUser × RequestHeader} :
    (drainConnection behavior n b reader point e s).result ≠ .ok returned := by
  rw [drainConnection]
  split_ifs
  · rcases drainConnN reader (n - b.len) with ⟨- | err, left⟩ <;> simp
  · simp

theorem of_finish_eq_ok {behavior : DrainBehavior} {n : ℤ}
    {out : Verdict × Server F × Buffer × BufferedReader}
    (h : (finish behavior n user' out).result = .ok (user, request)) : out.1 = .accepted request := by
  obtain ⟨request' | e | ⟨point, e⟩ | -, s, b, reader⟩ := out
  · rw [finish, Outcome.ok.injEq] at h
    rw [(Prod.mk.inj h).2]
  · cases h
  · rw [finish] at h
    exact absurd h drainConnection_ne_ok
  · cases h

theorem checkRequest_eq_accepted {request' : RequestHeader} (h : checkRequest request' = .accepted request) :
    request.security ≠ .unknown ∧ request.security ≠ .auto := by
  rw [checkRequest] at h
  split_ifs at h with haddress hsecurity
  rw [← Verdict.accepted.inj h]
  exact not_or.1 hsecurity

theorem decodeRest_eq_accepted {parseIP : Bytes → Option IPv6} {readFull : ReadFull ι}
    {fixed : FixedFields} {authID : Bytes} {s : Server F} {b : Buffer} {i : ι}
    (h : (decodeRest parseIP readFull fixed authID s b i).1 = .accepted request) :
    request.security ≠ .unknown ∧ request.security ≠ .auto := by
  have hcut : ∀ s : Server F, ∀ text e, (s.rejectCut authID text e).1 ≠ .accepted request := by
    intro s text e
    rw [Server.rejectCut]
    split_ifs <;> simp
  have hchecksum : ∀ s : Server F, (s.rejectChecksum authID).1 ≠ .accepted request := by
    intro s
    rw [Server.rejectChecksum]
    split_ifs <;> simp
  rw [decodeRest] at h
  rcases hdestination : readDestination readFull parseIP fixed.command b i with
    ⟨⟨address, port⟩ | e | -, b₁, i₁⟩ <;> rw [hdestination] at h
  · dsimp only at h
    rcases hpadding : readPadding readFull fixed.paddingLen b₁ i₁ with ⟨_ | e | -, b₂, i₂⟩ <;>
      rw [hpadding] at h
    · dsimp only at h
      rcases hread : Reading.readFullFrom readFull 4 b₂ i₂ with ⟨_ | e | -, b₃, i₃⟩ <;> rw [hread] at h
      · dsimp only at h
        rcases hverify : verifyChecksum b₃ i₃ with ⟨(- | -) | e | -, b₄, i₄⟩ <;> rw [hverify] at h
        · exact absurd h (hchecksum s)
        · exact checkRequest_eq_accepted h
        · cases h
        · cases h
      · exact absurd h (hcut s _ e)
      · cases h
    · exact absurd h (hcut s _ e)
    · cases h
  · cases h
  · cases h

theorem decodeFields_eq_accepted {parseIP : Bytes → Option IPv6} {readFull : ReadFull ι}
    {authID : Bytes} {clock : ℤ × ℤ} {s : Server F} {i : ι}
    (h : (decodeFields parseIP readFull user authID clock s i).1 = .accepted request) :
    request.security ≠ .unknown ∧ request.security ≠ .auto := by
  have hduplicated : ∀ s : Server F, (s.rejectDuplicated authID).1 ≠ .accepted request := by
    intro s
    rw [Server.rejectDuplicated]
    split_ifs <;> simp
  rw [decodeFields] at h
  rcases hfixed : readFixedFields readFull .new i with ⟨fixed | e | -, b, i₁⟩ <;> rw [hfixed] at h
  · dsimp only at h
    rcases hadd : s.sessionHistory.addIfNotExits
      ⟨user.account.id.uuid, fixed.requestBodyKey, fixed.requestBodyIV⟩ clock.1 clock.2 with
      ⟨- | -, sessionHistory⟩ <;> rw [hadd] at h
    · exact absurd h (hduplicated _)
    · exact decodeRest_eq_accepted h
  · cases h
  · cases h

theorem decodeLegacy_eq_ok {behavior : DrainBehavior} {b : Buffer} {s : Server F} {conn : BufferedReader}
    (h : (decodeLegacy setup chances behavior b s conn).result = .ok (user, request)) :
    request.security ≠ .unknown ∧ request.security ≠ .auto := by
  rw [decodeLegacy] at h
  rcases hget : s.validator.get b.bytes with ⟨e | ⟨user', timestamp⟩, validator⟩ <;> rw [hget] at h
  · exact absurd h drainConnection_ne_ok
  · dsimp only at h
    split_ifs at h
    · exact absurd h drainConnection_ne_ok
    · have haccepted := of_finish_eq_ok h
      exact decodeFields_eq_accepted haccepted

theorem decodeSealed_eq_ok {behavior : DrainBehavior} {b : Buffer} {s : Server F} {conn : BufferedReader}
    (h : (decodeSealed setup chances behavior b user' s conn).result = .ok (user, request)) :
    request.security ≠ .unknown ∧ request.security ≠ .auto := by
  rw [decodeSealed] at h
  dsimp only at h
  generalize openVMessAEADHeader setup.header user'.account.id.cmdKey (toBlock b.bytes) conn = o at h
  rcases hresult : o.result with data | e | - <;> rw [hresult] at h
  · have haccepted := of_finish_eq_ok h
    exact decodeFields_eq_accepted haccepted
  · dsimp only at h
    split_ifs at h
    · exact absurd h drainConnection_ne_ok
    · exact absurd h drainConnection_ne_ok
  · cases h

/-- The security of a request that is returned is known, and chosen. -/
theorem decodeRequestHeader_eq_ok {s : Server F} {conn : BufferedReader}
    (h : (decodeRequestHeader setup chances s conn).result = .ok (user, request)) :
    request.security ≠ .unknown ∧ request.security ≠ .auto := by
  rw [decodeRequestHeader] at h
  dsimp only at h
  rcases hread : Reading.readFullFrom BufferedReader.readInto 16 .new conn with ⟨_ | e | -, b, conn₁⟩ <;>
    rw [hread] at h
  · dsimp only at h
    rcases hmatch : (behaviorSeed s.validator chances.seed).2.getAEAD setup.validator setup.filter
      b.bytes chances.order chances.clock with ⟨e | user', validator⟩ <;> rw [hmatch] at h
    · dsimp only at h
      split_ifs at h
      · exact decodeLegacy_eq_ok h
      · exact absurd h drainConnection_ne_ok
    · exact decodeSealed_eq_ok h
  · cases h
  · cases h

end

/-! ## Behind the header of a response -/

section

variable {ι : Type} {readFull : ReadFull ι} {P : ι → Bytes → Prop} {addressString : Address → Bytes}
  {parseIP : Bytes → Option IPv6} {header header' : ResponseHeader}

/-- A command is read whole, whatever becomes of it. -/
theorem readCommand_stops (h : readFull.Serves P) {cmdID : UInt8} (hcmd : cmdID ≠ 0) {command : Bytes}
    (hlength : command.length ≤ 255) {i : ι} {rest : Bytes} (hi : P i (command ++ rest)) :
    P (readCommand readFull parseIP cmdID (UInt8.ofNat command.length) i).2 rest := by
  obtain ⟨i', hread, hi'⟩ := Reading.readFullFrom_serves h (b := .new) hi
    (show 0 + command.length ≤ bufSize by rw [bufSize]; omega)
  rw [readCommand, if_neg hcmd, UInt8.toNat_ofNat_of_lt' (show command.length < 256 by omega), hread]
  dsimp only
  rcases unmarshalCommand parseIP cmdID (Buffer.new.write command).1.bytes with cmd | e | -
  · exact hi'
  · exact hi'
  · exact hi'

/-- Behind the options are two zeros, or a command with its number and its length. -/
theorem encodeFields_cases (addressString : Address → Bytes) (expected : UInt8)
    (header : ResponseHeader) :
    encodeFields addressString expected header = [expected, header.option, 0, 0] ∨
      ∃ command : Bytes, command.length ≤ 255 ∧ encodeFields addressString expected header =
        [expected, header.option, 1, UInt8.ofNat command.length] ++ command := by
  rcases hcommand : header.command with - | cmd
  · exact .inl (by rw [encodeFields, hcommand]; rfl)
  · have hmarshal := marshalCommand_some addressString cmd
    split_ifs at hmarshal with hlong
    · exact .inl (by rw [encodeFields, hcommand, hmarshal]; rfl)
    · have hlength : (bigEndian 4 (authenticate (switchAccountFields addressString cmd)).toNat ++
          switchAccountFields addressString cmd).length =
            (hostStr addressString cmd).length + 27 := by
        rw [List.length_append, length_bigEndian, length_switchAccountFields]
        omega
      refine .inr ⟨_, by rw [hlength]; omega, ?_⟩
      rw [encodeFields, hcommand, hmarshal, hlength]
      rfl

/-- All fields are read, whatever is read of them. -/
theorem decodeResponseFields_stops (h : readFull.Serves P) (parseIP : Bytes → Option IPv6)
    {expected : UInt8} {i : ι} {rest : Bytes}
    (hi : P i (encodeFields addressString expected header ++ rest)) :
    P (decodeResponseFields readFull parseIP expected i).2 rest := by
  have hstop : ∀ cmdID dataLen command, P i ([expected, header.option, cmdID, dataLen] ++ command) →
      (∀ i', P i' command → P (readCommand readFull parseIP cmdID dataLen i').2 rest) →
        P (decodeResponseFields readFull parseIP expected i).2 rest := by
    intro cmdID dataLen command hi hcommand
    obtain ⟨i', hi', hdecode⟩ : ∃ i', P i' command ∧
        decodeResponseFields readFull parseIP expected i = _ := decodeResponseFields_of_start h hi
    have hstop := hcommand i' hi'
    rw [hdecode]
    generalize readCommand readFull parseIP cmdID dataLen i' = out at hstop ⊢
    rcases out with ⟨command | e | -, i''⟩
    · exact hstop
    · exact hstop
    · exact hstop
  rcases encodeFields_cases addressString expected header with hfields | ⟨command, hlength, hfields⟩
  · rw [hfields] at hi
    refine hstop 0 0 rest hi fun i' hi' => ?_
    rw [readCommand, if_pos rfl]
    exact hi'
  · rw [hfields, List.append_assoc] at hi
    exact hstop 1 _ _ hi fun i' hi' => readCommand_stops h (by decide) hlength hi'

variable {pr : ResponsePrimitives} {conn conn' : BufferedReader} {body : Bytes}

/-- The client that has decoded a header is at the first byte of the body, which it decrypts where the
    server encrypts it. -/
theorem decodeResponseHeader_stops (hpr : pr.IsLawful) {isAEAD : Bool}
    {randomBytes : { b : Bytes // b.length = 33 }} {s : ServerSession}
    (hs : Corresponds s (newClientSession pr isAEAD randomBytes))
    (hconn : conn.bytes = (encodeResponseHeader pr addressString s header).1 ++ body)
    {responseReader : CryptionReader}
    (hdecode : decodeResponseHeader pr parseIP (newClientSession pr isAEAD randomBytes) conn =
      (.ok (header', responseReader), conn')) :
    conn'.bytes = body ∧ conn'.reader.err = conn.reader.err ∧
      Connects (encodeResponseHeader pr addressString s header).2 responseReader conn' := by
  obtain ⟨hkey, hiv, hexpected, haead⟩ := hs
  have hderived : (newClientSession pr isAEAD randomBytes).responseBodyKey =
      responseBody pr s.isAEADRequest s.requestBodyKey := by rw [hkey, haead]; rfl
  have hderived' : (newClientSession pr isAEAD randomBytes).responseBodyIV =
      responseBody pr s.isAEADRequest s.requestBodyIV := by rw [hiv, haead]; rfl
  rw [encodeResponseHeader] at hconn ⊢
  rw [decodeResponseHeader, hderived, hderived', ← hexpected, ← haead] at hdecode
  generalize responseBody pr s.isAEADRequest s.requestBodyKey = key at hconn hdecode ⊢
  generalize responseBody pr s.isAEADRequest s.requestBodyIV = iv at hconn hdecode ⊢
  have hinverts := hpr.stream key.1 iv.1
  split_ifs at hconn hdecode ⊢ with hsealed
  · -- A sealed header is opened by itself: the keystream starts with the body, on both sides.
    obtain ⟨conn₁, hopen, hbody, herr⟩ := openResponse_sealResponse hpr key iv
      (length_encodeFields s.responseHeader header) hconn
    rw [hopen] at hdecode
    dsimp only at hdecode
    rcases hfields : (decodeResponseFields readBytes parseIP s.responseHeader
      (encodeFields addressString s.responseHeader header)).1 with header₁ | e | - <;>
      rw [hfields] at hdecode
    · obtain ⟨hout, rfl⟩ := Prod.mk.inj hdecode
      obtain ⟨-, rfl⟩ := Prod.mk.inj (Outcome.ok.inj hout)
      refine ⟨hbody, herr, fun plain hplain => ?_, rfl⟩
      rw [CryptionReader.bytes, ← hplain]
      exact hinverts plain
    · cases hdecode
    · cases hdecode
  · -- The legacy header is at the start of the keystream, and the body is behind it.
    have hstart := CryptionReader.decrypts_start hinverts hconn
    have hstop := decodeResponseFields_stops
      (CryptionReader.readInto_serves _ conn.bytes conn.reader.err) parseIP hstart
    rcases hfields : decodeResponseFields CryptionReader.readInto parseIP s.responseHeader
      { stream := pr.aesDecryptionStream key.1 iv.1, reader := conn } with ⟨header₁ | e | -, r⟩ <;>
      rw [hfields] at hdecode hstop
    · obtain ⟨hout, rfl⟩ := Prod.mk.inj hdecode
      obtain ⟨-, rfl⟩ := Prod.mk.inj (Outcome.ok.inj hout)
      dsimp only at hstop
      have hbody : r.reader.bytes = body := by
        rw [hconn] at hstop
        exact hstop.reader_bytes (StreamCipher.length_xorKeyStream _ _ _)
      refine ⟨hbody, hstop.err, fun plain hplain => ?_, rfl⟩
      rw [hstop.bytes, ← hbody, ← hplain]
      exact decrypt_behind hinverts _ plain
    · cases hdecode
    · cases hdecode

end

/-! ## Codecs that panic -/

section

variable {request : RequestHeader} {key iv : Block}

/-- The type assertion fails, or no codec is known. -/
theorem encodeBody_eq_panic {pr : BodyPrimitives} (h : ¬ IsSupported request)
    (encryption : CryptionWriter) (rand : ℕ → UInt8) :
    encodeBody pr key iv encryption rand request = .panic := by
  rw [encodeBody]
  by_cases hpadding : has request.option requestOptionGlobalPadding ∧
      ¬ has request.option requestOptionChunkMasking
  · exact if_pos hpadding
  · have hmasked := fun hp => not_not.1 (not_and.1 hpadding hp)
    dsimp only
    rw [if_neg hpadding]
    rcases hsecurity : request.security with - | - | - | - | - | - | -
    · rfl
    · exact absurd ⟨hmasked, .inr (.inl hsecurity)⟩ h
    · rfl
    · exact absurd ⟨hmasked, .inr (.inr (.inl hsecurity))⟩ h
    · exact absurd ⟨hmasked, .inr (.inr (.inr hsecurity))⟩ h
    · exact absurd ⟨hmasked, .inl hsecurity⟩ h
    · rfl

/-- What is written in chunks that are not sealed has a length that does not wrap around. -/
theorem capacity_of_writes {pr : BodyPrimitives} {encryption : CryptionWriter} {rand : ℕ → UInt8}
    {w : BodyWriter} {out : Bytes} {mbs : List MultiBuffer} (hbare : IsBare request)
    (h : encodeBody pr key iv encryption rand request = .ok w) (hwrites : w.writes mbs = .ok out) :
    ∀ mb ∈ mbs, 0 ≤ ChunkSizeParser.capacity mb := by
  have hsupported : IsSupported request := by
    by_contra hnot
    rw [encodeBody_eq_panic hnot] at h
    cases h
  obtain ⟨hchunked, hplain⟩ := hbare
  rw [isSealed, hchunked, Bool.true_and, Bool.not_eq_false', Bool.and_eq_true, decide_eq_true_eq,
    decide_eq_true_eq] at hplain
  obtain ⟨hsecurity, htype⟩ := hplain
  have hchunk : has request.option requestOptionChunkStream = true := by
    simpa [isChunked, hsecurity] using hchunked
  have hpadding : ¬ (has request.option requestOptionGlobalPadding ∧
      ¬ has request.option requestOptionChunkMasking) := fun hp => hp.2 (hsupported.padding hp.1)
  simp only [encodeBody, if_neg hpadding, hsecurity, if_pos hchunk, if_pos htype] at h
  rw [← Outcome.ok.inj h, BodyWriter.writes] at hwrites
  exact fun mb hmb => (ChunkSizeParser.of_writes_eq_ok (Prod.ext hwrites rfl) mb hmb).2

end

/-! ## Round trips -/

section

variable (pr : CodecPrimitives) (addressString : Address → Bytes) (parseIP : Bytes → Option IPv6)
  (c : ClientSession) (s : ServerSession) (request : RequestHeader) (header : ResponseHeader)
  (mbs : List MultiBuffer)

/-- Building none of the four codecs panics. -/
structure NeverPanics : Prop where
  requestWriter (rand) : encodeRequestBody pr.body c rand request ≠ .panic
  requestReader (pool reader) : decodeRequestBody pr s pool reader request ≠ .panic
  responseWriter (rand) : encodeResponseBody pr.body
    (responseBody pr.toResponsePrimitives s.isAEADRequest s.requestBodyKey)
    (responseBody pr.toResponsePrimitives s.isAEADRequest s.requestBodyIV)
    (encodeResponseHeader pr.toResponsePrimitives addressString s header).2 rand request ≠ .panic
  responseReader (responseReader pool reader) :
    decodeResponseBody pr c responseReader pool reader request ≠ .panic

/-- The server reads what the client writes, however the transport is cut. -/
def RequestBodyRoundTrips : Prop :=
  ∀ rand, ∃ w out, encodeRequestBody pr.body c rand request = .ok w ∧ w.writes mbs = .ok out ∧
    (w.KeepsAll mbs → ∀ (conn : BufferedReader) (pool : List Bool), conn.bytes = out →
      ∃ r, decodeRequestBody pr s pool conn request = .ok r ∧
        r.Delivers request mbs conn.reader.err)

/-- The client that has read the header of the response reads what the server writes behind it. -/
def ResponseBodyRoundTrips : Prop :=
  ∀ rand, ∃ w out, encodeResponseBody pr.body
      (responseBody pr.toResponsePrimitives s.isAEADRequest s.requestBodyKey)
      (responseBody pr.toResponsePrimitives s.isAEADRequest s.requestBodyIV)
      (encodeResponseHeader pr.toResponsePrimitives addressString s header).2 rand request = .ok w ∧
    w.writes mbs = .ok out ∧
    (w.KeepsAll mbs → ∀ (conn : BufferedReader) (pool : List Bool),
      conn.bytes = (encodeResponseHeader pr.toResponsePrimitives addressString s header).1 ++ out →
        ∀ header' responseReader conn', decodeResponseHeader pr.toResponsePrimitives parseIP c conn =
            (.ok (header', responseReader), conn') →
          ∃ r, decodeResponseBody pr c responseReader pool conn' request = .ok r ∧
            r.Delivers request mbs conn.reader.err)

/-- The codecs of both bodies are built, and what one end writes the other reads. -/
structure BodiesRoundTrip (mbs' : List MultiBuffer) : Prop where
  neverPanics : NeverPanics pr addressString c s request header
  fromClient : RequestBodyRoundTrips pr c s request mbs
  fromServer : ResponseBodyRoundTrips pr addressString parseIP c s request header mbs'

variable {pr addressString parseIP c s request header mbs}

theorem neverPanics (hpr : pr.IsLawful) (h : IsSupported request) :
    NeverPanics pr addressString c s request header := by
  have hencode : ∀ key iv encryption rand,
      encodeBody pr.body key iv encryption rand request ≠ .panic := by
    intro key iv encryption rand hpanic
    obtain ⟨w, -, hok, -⟩ := decodeBody_encodeBody hpr h key iv encryption rand
    rw [hok] at hpanic
    cases hpanic
  have hdecode : ∀ key iv decryption pool reader,
      decodeBody pr key iv decryption pool reader request ≠ .panic := by
    intro key iv decryption pool reader hpanic
    obtain ⟨-, decode, -, hok, -⟩ := decodeBody_encodeBody hpr h key iv { stream := decryption.stream }
      fun _ => 0
    rw [hok] at hpanic
    cases hpanic
  exact ⟨fun rand => hencode _ _ _ rand, fun pool reader => hdecode _ _ _ pool reader,
    fun rand => hencode _ _ _ rand, fun _ pool reader => hdecode _ _ _ pool reader⟩

theorem requestBodyRoundTrips (hpr : pr.IsLawful) (h : IsSupported request)
    (hkey : s.requestBodyKey = c.requestBodyKey) (hiv : s.requestBodyIV = c.requestBodyIV)
    (hcapacity : IsBare request → ∀ mb ∈ mbs, 0 ≤ ChunkSizeParser.capacity mb) :
    RequestBodyRoundTrips pr c s request mbs := by
  intro rand
  obtain ⟨w, decode, hencode, hdecode, hread⟩ := decodeBody_encodeBody hpr h c.requestBodyKey
    c.requestBodyIV { stream := pr.aesEncryptionStream c.requestBodyKey.1 c.requestBodyIV.1 } rand
  obtain ⟨out, hwrites, hdelivers⟩ := hread mbs hcapacity
  refine ⟨w, out, hencode, hwrites, fun hkeeps conn pool hconn => ?_⟩
  refine ⟨_, by rw [decodeRequestBody, hkey, hiv, hdecode], hdelivers _ pool conn hconn ?_ hkeeps⟩
  refine ⟨fun plain hplain => ?_, rfl⟩
  rw [CryptionReader.bytes, ← hplain]
  exact hpr.response.stream _ _ plain

theorem responseBodyRoundTrips (hpr : pr.IsLawful) (h : IsSupported request) {isAEAD : Bool}
    {randomBytes : { b : Bytes // b.length = 33 }}
    (hs : Corresponds s (newClientSession pr.toResponsePrimitives isAEAD randomBytes))
    (hcapacity : IsBare request → ∀ mb ∈ mbs, 0 ≤ ChunkSizeParser.capacity mb) :
    ResponseBodyRoundTrips pr addressString parseIP
      (newClientSession pr.toResponsePrimitives isAEAD randomBytes) s request header mbs := by
  intro rand
  have hkey : (newClientSession pr.toResponsePrimitives isAEAD randomBytes).responseBodyKey =
      responseBody pr.toResponsePrimitives s.isAEADRequest s.requestBodyKey := by
    rw [hs.requestBodyKey, hs.isAEAD]; rfl
  have hiv : (newClientSession pr.toResponsePrimitives isAEAD randomBytes).responseBodyIV =
      responseBody pr.toResponsePrimitives s.isAEADRequest s.requestBodyIV := by
    rw [hs.requestBodyIV, hs.isAEAD]; rfl
  obtain ⟨w, decode, hencode, hdecode, hread⟩ := decodeBody_encodeBody hpr h
    (responseBody pr.toResponsePrimitives s.isAEADRequest s.requestBodyKey)
    (responseBody pr.toResponsePrimitives s.isAEADRequest s.requestBodyIV)
    (encodeResponseHeader pr.toResponsePrimitives addressString s header).2 rand
  obtain ⟨out, hwrites, hdelivers⟩ := hread mbs hcapacity
  refine ⟨w, out, hencode, hwrites, fun hkeeps conn pool hconn header' responseReader conn' hheader => ?_⟩
  obtain ⟨hbody, herr, hconnects⟩ := decodeResponseHeader_stops hpr.response hs hconn hheader
  rw [← herr]
  exact ⟨_, by rw [decodeResponseBody, hkey, hiv, hdecode],
    hdelivers responseReader pool conn' hbody hconnects hkeeps⟩

end

/-! ## Two requests -/

def exampleCodecPrimitives : CodecPrimitives :=
  { exampleResponsePrimitives with
    newChacha20Poly1305 := fun _ => Shadowsocks.exampleAEAD
    shake128 := fun _ _ => 0 }

theorem exampleCodecPrimitives_isLawful : exampleCodecPrimitives.IsLawful where
  response := exampleResponsePrimitives_isLawful
  nonceSize_gcm _ := rfl
  nonceSize_chacha20Poly1305 _ := rfl
  inverts_chacha20Poly1305 _ := Shadowsocks.exampleAEAD_isStandard.inverts

/-- The session of the client. -/
def exampleCodecSession : ClientSession :=
  newClientSession exampleCodecPrimitives.toResponsePrimitives true exampleRandomBytes

/-- A request of the client, with options and a security. -/
def exampleBody (option : UInt8) (security : SecurityType) : RequestHeader :=
  { exampleRequest (ascii "a.b") with option, security }

/-- What the server receives of it. -/
def exampleBodyConn (option : UInt8) (security : SecurityType) : BufferedReader :=
  exampleConn (encodeRequestHeader exampleRequestPrimitives exampleCodecSession
    (exampleUser "a").account (exampleBody option security) exampleRequestChances).1

/-- A security without a codec is accepted, too. -/
example : (decodeRequestHeader exampleSetup exampleChances exampleServer
    (exampleBodyConn requestOptionChunkStream .zero)).result =
      .ok (exampleUser "a", receivedRequest (exampleBody requestOptionChunkStream .zero)) := by
  decide +kernel

end Encoding

end Gzv2ray.Vmess
