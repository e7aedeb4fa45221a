import Gzv2ray.Vmess.Drain
import Gzv2ray.Vmess.RequestFields
import Gzv2ray.Vmess.Revocation

/-!
# Round trip of the header of a request

A server accepts what the client of a user writes, be it sealed or encrypted by a stream cipher,
returns the same request and stops at the first byte of the body (`requestRoundTrips_iff`). This takes
a session and an identifier that are new to the server, a time near now, and no key of another user
under which the identifier looks like one of that user (`IsAcceptable`).

It does not if the address is a domain of 256 bytes.
-/

namespace Gzv2ray.Vmess

/-! ## Identifiers -/

section

variable (decrypt : Block → Block → Block) (clock : ℕ → ℤ)

/-- Under the key, the identifier is one of a time near now, whenever the clock is read. -/
def IsMatched (key authID : Block) : Prop :=
  let (t, z, _, d) := decode decrypt key authID
  z = checksumIEEE (d.take 12) ∧ 0 ≤ t ∧ ∀ k, isNear t (clock k) = true

/-- Under the key, the identifier is none of a time near now. -/
def IsMissed (key authID : Block) : Prop :=
  let (t, z, _, d) := decode decrypt key authID
  z ≠ checksumIEEE (d.take 12) ∨ t < 0 ∨ ∀ k, isNear t (clock k) = false

variable {decrypt clock} {F τ : Type} {c : CuckooFilter F} {h : AuthIDDecoderHolder F τ}

/-- A decoder that misses the identifier is passed over. -/
theorem matchLoop_of_missed {key authID : Block} (hmissed : IsMissed decrypt clock key authID)
    (ticket : τ) (rest : List (Block × τ)) (tick : ℕ) : ∃ tick',
      h.matchLoop decrypt c clock authID ((key, ticket) :: rest) tick =
        h.matchLoop decrypt c clock authID rest tick' := by
  rw [AuthIDDecoderHolder.matchLoop]
  rw [IsMissed] at hmissed
  generalize decode decrypt key authID = d at hmissed ⊢
  obtain ⟨t, z, rand, d⟩ := d
  dsimp only at hmissed ⊢
  by_cases hz : z ≠ checksumIEEE (d.take 12)
  · exact ⟨tick, if_pos hz⟩
  by_cases ht : t < 0
  · exact ⟨tick, by rw [if_neg hz, if_pos ht]⟩
  · have hnear : (!isNear t (clock tick)) = true := by
      rw [(hmissed.resolve_left hz).resolve_left ht]
      rfl
    exact ⟨tick + 1, by rw [if_neg hz, if_neg ht, if_pos hnear]⟩

/-- An identifier that all decoders miss is not found, and the holder is left as it is. -/
theorem matchLoop_missed {authID : Block} {order : List (Block × τ)}
    (hmissed : ∀ p ∈ order, IsMissed decrypt clock p.1 authID) (tick : ℕ) :
    ∃ tick', h.matchLoop decrypt c clock authID order tick = (.error errNotFound, h, tick') := by
  induction order generalizing tick with
  | nil => exact ⟨tick, rfl⟩
  | cons p rest ih =>
    obtain ⟨tick₁, hrest⟩ := matchLoop_of_missed (c := c) (h := h)
      (hmissed p List.mem_cons_self) p.2 rest tick
    obtain ⟨tick₂, hloop⟩ := ih (fun p' hp' => hmissed p' (List.mem_cons_of_mem _ hp')) tick₁
    exact ⟨tick₂, hrest.trans hloop⟩

/-- The ticket of the only decoder that matches the identifier is found, if the filter has not seen the
    identifier. -/
theorem matchLoop_matched {key authID : Block} {ticket : τ} {order : List (Block × τ)}
    (hmem : (key, ticket) ∈ order) (hkeys : (order.map Prod.fst).Nodup)
    (hmatched : IsMatched decrypt clock key authID)
    (hothers : ∀ p ∈ order, p.1 ≠ key → IsMissed decrypt clock p.1 authID)
    (hnew : ∀ k, (h.filter.check c (clock k) authID.1).1 = true) (tick : ℕ) :
    ∃ filter tick', h.matchLoop decrypt c clock authID order tick =
      (.ok ticket, { h with filter }, tick') := by
  induction order generalizing tick with
  | nil => cases hmem
  | cons p rest ih =>
    rw [List.map_cons, List.nodup_cons] at hkeys
    rcases List.mem_cons.1 hmem with rfl | hmem'
    · rw [IsMatched] at hmatched
      rw [AuthIDDecoderHolder.matchLoop]
      generalize decode decrypt key authID = d at hmatched ⊢
      obtain ⟨t, z, rand, d⟩ := d
      obtain ⟨hz, ht, hnear⟩ := hmatched
      dsimp only
      rw [if_neg (not_not.2 hz), if_neg ht.not_gt, if_neg (by rw [hnear]; exact Bool.false_ne_true)]
      exact ⟨(h.filter.check c (clock (tick + 1)) authID.1).2, tick + 2, by rw [hnew, if_pos rfl]⟩
    · have hne : p.1 ≠ key := by
        rintro rfl
        exact hkeys.1 (List.mem_map.2 ⟨_, hmem', rfl⟩)
      obtain ⟨tick₁, hrest⟩ := matchLoop_of_missed (c := c) (h := h)
        (hothers p List.mem_cons_self hne) p.2 rest tick
      obtain ⟨filter, tick₂, hloop⟩ := ih hmem' hkeys.2
        (fun p' hp' => hothers p' (List.mem_cons_of_mem _ hp')) tick₁
      exact ⟨filter, tick₂, hrest.trans hloop⟩

end

namespace Encoding

section

variable {pr : RequestPrimitives}

/-- An identifier is matched under its key, at times near its own. -/
theorem isMatched_createAuthID {decrypt : Block → Block → Block}
    (hdecrypt : ∀ key data, decrypt key (pr.encrypt key data) = data) {clock : ℕ → ℤ} (key : Block)
    {time : ℤ} (hnonneg : 0 ≤ time) (hlt : time < 2 ^ 63) (hnear : ∀ k, isNear time (clock k) = true)
    (random : { b : Bytes // b.length = 4 }) :
    IsMatched decrypt clock key (createAuthID pr key time random.1) := by
  have hbuf : (bigEndian 8 (time % 2 ^ 64).toNat ++ random.1).length = 12 := by
    rw [List.length_append, length_bigEndian, random.2]
  have hlength : (authIDFields time random.1).length = 16 := by
    rw [authIDFields, List.length_append, hbuf, length_bigEndian]
  have hdata : (toBlock (authIDFields time random.1)).1 = authIDFields time random.1 :=
    congrArg Subtype.val (toBlock_val ⟨authIDFields time random.1, hlength⟩)
  have htime : toSigned 64 (ofBigEndian ((authIDFields time random.1).take 8)) = time := by
    rw [authIDFields, List.append_assoc, List.take_left' (length_bigEndian _ _),
      ofBigEndian_bigEndian (by omega), toSigned, if_pos (by omega)]
    omega
  rw [IsMatched, decode, createAuthID, hdecrypt]
  dsimp only
  rw [hdata, htime]
  refine ⟨?_, hnonneg, hnear⟩
  rw [authIDFields, List.drop_left' hbuf, List.take_left' hbuf,
    ofBigEndian_bigEndian (UInt32.toNat_lt _), UInt32.ofNat_toNat]

/-! ## Sealed headers -/

theorem openSealed_sealPart (hpr : pr.IsLawful) (keySalt ivSalt : Bytes) (key authid : Block)
    (nonce plain : Bytes) :
    pr.openSealed keySalt ivSalt key authid nonce (sealPart pr keySalt ivSalt key authid nonce plain) =
      .ok plain :=
  hpr.inverts _ _ _ _

theorem length_sealPart (hpr : pr.IsLawful) (keySalt ivSalt : Bytes) (key authid : Block)
    (nonce plain : Bytes) :
    (sealPart pr keySalt ivSalt key authid nonce plain).length = plain.length + 16 := by
  rw [sealPart, AEAD.length_seal, hpr.overhead]

/-- What is sealed behind the identifier is opened, and what follows it is left. -/
theorem openVMessAEADHeader_sealed (hpr : pr.IsLawful) (key authid : Block)
    (nonce : { b : Bytes // b.length = 8 }) {data rest : Bytes} (hlength : data.length + 16 < 2 ^ 16)
    {conn : BufferedReader} (hconn : conn.bytes =
      sealPart pr kdfSaltConstVMessHeaderPayloadLengthAEADKey
        kdfSaltConstVMessHeaderPayloadLengthAEADIV key authid nonce.1
        (bigEndian 2 (UInt16.ofNat data.length).toNat) ++
      (nonce.1 ++ (sealPart pr kdfSaltConstVMessHeaderPayloadAEADKey
        kdfSaltConstVMessHeaderPayloadAEADIV key authid nonce.1 data ++ rest))) :
    (openVMessAEADHeader pr.toHeaderPrimitives key authid conn).result = .ok data ∧
      (openVMessAEADHeader pr.toHeaderPrimitives key authid conn).reader.bytes = rest := by
  obtain ⟨conn₁, hread₁, hconn₁⟩ := BufferedReader.readInto_serves conn _ _ hconn
  obtain ⟨conn₂, hread₂, hconn₂⟩ := BufferedReader.readInto_serves conn₁ _ _ hconn₁
  obtain ⟨conn₃, hread₃, hconn₃⟩ := BufferedReader.readInto_serves conn₂ _ _ hconn₂
  rw [length_sealPart hpr, length_bigEndian] at hread₁
  rw [nonce.2] at hread₂
  rw [length_sealPart hpr] at hread₃
  have hlen : (UInt16.ofNat data.length).toNat = data.length :=
    UInt16.toNat_ofNat_of_lt' (show data.length < 2 ^ 16 by omega)
  have hsum : (UInt16.ofNat data.length + 16).toNat = data.length + 16 := by
    rw [UInt16.toNat_add, hlen]
    exact Nat.mod_eq_of_lt hlength
  have htake : (bigEndian 2 (UInt16.ofNat data.length).toNat).take 2 =
      bigEndian 2 (UInt16.ofNat data.length).toNat := List.take_of_length_le (length_bigEndian _ _).le
  rw [openVMessAEADHeader, hread₁]
  dsimp only
  rw [hread₂]
  dsimp only
  rw [openSealed_sealPart hpr]
  dsimp only
  rw [if_neg (by rw [length_bigEndian]; decide), htake, ofBigEndian_bigEndian (UInt16.toNat_lt _),
    UInt16.ofNat_toNat, openPayload, hsum, hread₃]
  dsimp only
  rw [openSealed_sealPart hpr]
  exact ⟨rfl, hconn₃⟩

end

/-! ## The server -/

section

variable {F : Type}

/-- A server that uses the primitives of the client: what one encrypts or seals, the other one decrypts
    or opens. -/
structure IsSetupFor (setup : Setup F) (pr : RequestPrimitives) : Prop where
  header : setup.header = pr.toHeaderPrimitives
  decrypt (key data) : setup.validator.decrypt key (pr.encrypt key data) = data
  lawful : pr.IsLawful

/-- The decoders are those of users, in the order in which they are tried. -/
structure IsOrder (chances : Chances) (v : TimedUserValidator F) : Prop where
  perm : chances.order.Perm v.aeadDecoderHolder.decoders
  keys : (v.aeadDecoderHolder.decoders.map Prod.fst).Nodup

variable (setup : Setup F) (pr : RequestPrimitives) (chances : Chances) (s : Server F)
  (user : MemoryUser) (c : ClientSession) (account : MemoryAccount) (header : RequestHeader)
  (ch : RequestChances)

/-- The identifier of authentication of a request. -/
def authIDOf : Block := createAuthID pr account.id.cmdKey ch.now ch.random.1

/-- The user of a sealed header is registered, its time is near now, and its identifier is new. -/
structure IsSealedFor : Prop where
  registered : (account.id.cmdKey, user) ∈ s.validator.aeadDecoderHolder.decoders
  nonneg : 0 ≤ ch.now
  lt : ch.now < 2 ^ 63
  near (k) : isNear ch.now (chances.clock k) = true
  unseen (k) : (s.validator.aeadDecoderHolder.filter.check setup.filter (chances.clock k)
    (authIDOf pr account ch).1).1 = true
  others : ∀ p ∈ s.validator.aeadDecoderHolder.decoders, p.1 ≠ account.id.cmdKey →
    IsMissed setup.validator.decrypt chances.clock p.1 (authIDOf pr account ch)

/-- The hash in front of a header that is not sealed is that of a registered user and a valid time, and
    no identifier of authentication. The server does not enforce sealed headers. -/
structure IsHashedFor : Prop where
  unforced : s.session.isAEADForced = false
  known : (s.validator.get (userHash pr account ch).1).1 = .ok (user, ch.timestamp)
  others : ∀ p ∈ s.validator.aeadDecoderHolder.decoders,
    IsMissed setup.validator.decrypt chances.clock p.1 (userHash pr account ch)

/-- A request of a registered user, in a new session, that is none of another user. -/
structure IsAcceptable : Prop where
  primitives : IsSetupFor setup pr
  order : IsOrder chances s.validator
  id : account.id = user.account.id
  fresh : IsFresh s user c chances.session
  sealed : c.isAEAD = true → IsSealedFor setup pr chances s user account ch
  hashed : c.isAEAD = false → IsHashedFor setup pr chances s user account ch

/-- The server returns the request and stops at the body, in the session of the client. -/
structure Decoded.Returns (d : Decoded F) (body : Bytes) : Prop where
  result : d.result = .ok (user, receivedRequest header)
  reader : d.reader.bytes = body
  requestBodyKey : d.server.session.requestBodyKey = c.requestBodyKey
  requestBodyIV : d.server.session.requestBodyIV = c.requestBodyIV
  responseHeader : d.server.session.responseHeader = c.responseHeader

/-- Whatever the client writes, and whatever follows, in whatever segments. -/
def RequestRoundTrips : Prop :=
  ∀ out, encodeRequestHeader pr c account header ch = (out, .ok ()) →
    ∀ (conn : BufferedReader) (body : Bytes), conn.bytes = out ++ body →
      (decodeRequestHeader setup chances s conn).Returns user c header body

variable {setup pr chances s user c account header ch}

/-- The reader of the fields of a header that is not sealed. -/
def decryptor (setup : Setup F) (user : MemoryUser) (timestamp : ℤ) (reader : BufferedReader) :
    CryptionReader where
  stream := setup.header.aesDecryptionStream user.account.id.cmdKey.1
    (hashTimestamp setup.header timestamp)
  reader

/-- What is not accepted is not returned. -/
theorem finish_ne_ok {out : Verdict × Server F × Buffer × BufferedReader}
    (hout : ∀ request, out.1 ≠ .accepted request) (behavior : DrainBehavior) (n : ℤ)
    (returned : MemoryUser × RequestHeader) : (finish behavior n user out).result ≠ .ok returned := by
  obtain ⟨request | e | ⟨point, e⟩ | -, server, b, reader⟩ := out
  · exact absurd rfl (hout request)
  · simp [finish]
  · rw [finish, drainConnection]
    split_ifs
    · rcases drainConnN reader (n - b.len) with ⟨- | err, left⟩ <;> simp
    · simp
  · simp [finish]

/-- The sixteen bytes that come first are read. -/
theorem readFullFrom_first {conn : BufferedReader} (first : Block) {rest : Bytes}
    (hconn : conn.bytes = first.1 ++ rest) : ∃ conn' b,
      Reading.readFullFrom BufferedReader.readInto 16 .new conn = (.ok (), b, conn') ∧
      b.bytes = first.1 ∧ conn'.bytes = rest := by
  obtain ⟨b, conn', hread, hb, hconn'⟩ := readFullFrom_filled BufferedReader.readInto_serves
    (show Filled .new [] from ⟨rfl, rfl⟩) hconn (by rw [first.2]; decide)
  rw [first.2] at hread
  exact ⟨conn', b, hread, hb.bytes, hconn'⟩

/-- The fields of a hashed header are read through the stream cipher. -/
theorem decodeRequestHeader_hashed (horder : IsOrder chances s.validator)
    (hhashed : IsHashedFor setup pr chances s user account ch) {conn : BufferedReader} {rest : Bytes}
    (hconn : conn.bytes = (userHash pr account ch).1 ++ rest) :
    ∃ (s' : Server F) (conn' : BufferedReader) (behavior : DrainBehavior) (n : ℤ),
      s'.session = s.session ∧ s'.sessionHistory = s.sessionHistory ∧ conn'.bytes = rest ∧
      ∀ o, decodeFields setup.parseIP CryptionReader.readInto user (userHash pr account ch).1
          chances.session s' (decryptor setup user ch.timestamp conn') = o →
        decodeRequestHeader setup chances s conn =
          finish behavior n user (o.1, o.2.1, o.2.2.1, o.2.2.2.reader) := by
  obtain ⟨conn', b, hread, hb, hconn'⟩ := readFullFrom_first (userHash pr account ch) hconn
  obtain ⟨tick, hloop⟩ := matchLoop_missed (c := setup.filter) (h := s.validator.aeadDecoderHolder)
    (fun p hp => hhashed.others p (horder.perm.mem_iff.1 hp)) 0
  have hmatch : (behaviorSeed s.validator chances.seed).2.getAEAD setup.validator setup.filter b.bytes
      chances.order chances.clock =
        (.error errNotFound, (behaviorSeed s.validator chances.seed).2) := by
    rw [TimedUserValidator.getAEAD, hb, toBlock_val, behaviorSeed]
    dsimp only
    rw [hloop]
  have hget : (behaviorSeed s.validator chances.seed).2.get b.bytes = (.ok (user, ch.timestamp),
      { (behaviorSeed s.validator chances.seed).2 with behaviorFused := true }) := by
    rw [hb]
    exact Prod.ext hhashed.known rfl
  refine ⟨{ s with
      validator := { (behaviorSeed s.validator chances.seed).2 with behaviorFused := true } },
    conn', s.behavior chances, (s.behavior chances).drainSize - b.len, rfl, rfl, hconn', ?_⟩
  rintro o rfl
  rw [decodeRequestHeader, hread]
  dsimp only
  rw [hmatch]
  dsimp only
  rw [if_pos rfl, decodeLegacy, hget]
  dsimp only
  rw [if_neg (by rw [hhashed.unforced]; exact Bool.false_ne_true), hb, toBlock_val]
  rfl

/-- The fields of a sealed header are read from what is opened. -/
theorem decodeRequestHeader_sealed (hsetup : IsSetupFor setup pr) (horder : IsOrder chances s.validator)
    (hid : account.id = user.account.id)
    (hsealed : IsSealedFor setup pr chances s user account ch) {buffer : Bytes}
    (hlength : buffer.length + 16 < 2 ^ 16) {conn : BufferedReader} {rest : Bytes}
    (hconn : conn.bytes = sealVMessAEADHeader pr account.id.cmdKey buffer ch ++ rest) :
    ∃ (s' : Server F) (conn' : BufferedReader) (behavior : DrainBehavior) (n : ℤ),
      s'.session = { s.session with isAEADRequest := true } ∧ s'.sessionHistory = s.sessionHistory ∧
      conn'.bytes = rest ∧
      ∀ o, decodeFields setup.parseIP readBytes user (authIDOf pr account ch).1 chances.session s'
          buffer = o →
        decodeRequestHeader setup chances s conn =
          finish behavior n user (o.1, o.2.1, o.2.2.1, conn') := by
  rw [sealVMessAEADHeader, List.append_assoc, List.append_assoc, List.append_assoc] at hconn
  obtain ⟨conn₁, b, hread, hb, hconn₁⟩ := readFullFrom_first (authIDOf pr account ch) hconn
  obtain ⟨hopen, hrest⟩ := openVMessAEADHeader_sealed hsetup.lawful account.id.cmdKey
    (authIDOf pr account ch) ch.connectionNonce hlength hconn₁
  have hmatched : IsMatched setup.validator.decrypt chances.clock account.id.cmdKey
      (authIDOf pr account ch) :=
    isMatched_createAuthID hsetup.decrypt account.id.cmdKey hsealed.nonneg hsealed.lt hsealed.near
      ch.random
  obtain ⟨filter, tick, hloop⟩ := matchLoop_matched (c := setup.filter)
    (h := s.validator.aeadDecoderHolder) (horder.perm.mem_iff.2 hsealed.registered)
    ((horder.perm.map Prod.fst).nodup_iff.2 horder.keys) hmatched
    (fun p hp => hsealed.others p (horder.perm.mem_iff.1 hp)) hsealed.unseen 0
  have hmatch : (behaviorSeed s.validator chances.seed).2.getAEAD setup.validator setup.filter b.bytes
      chances.order chances.clock = (.ok user, { (behaviorSeed s.validator chances.seed).2 with
        aeadDecoderHolder := { s.validator.aeadDecoderHolder with filter } }) := by
    rw [TimedUserValidator.getAEAD, hb, toBlock_val, behaviorSeed]
    dsimp only
    rw [hloop]
  refine ⟨{ s with
      validator := { (behaviorSeed s.validator chances.seed).2 with
        aeadDecoderHolder := { s.validator.aeadDecoderHolder with filter } }
      session := { s.session with isAEADRequest := true } },
    _, s.behavior chances, (s.behavior chances).drainSize - b.len, rfl, rfl, hrest, ?_⟩
  rintro o rfl
  rw [decodeRequestHeader, hread]
  dsimp only
  rw [hmatch]
  dsimp only
  rw [decodeSealed, hb, toBlock_val, hsetup.header, ← hid]
  dsimp only
  rw [hopen]

theorem readBytes_isFull : readBytes.IsFull := by
  intro b n
  rw [readBytes]
  refine ⟨List.length_take_le n b, fun hnone => ?_⟩
  split_ifs at hnone with hn
  exact List.length_take_of_le hn

/-- What is written of a request that can be encoded. -/
theorem encodeRequestHeader_eq_ok {out : Bytes}
    (hout : encodeRequestHeader pr c account header ch = (out, .ok ())) :
    ∃ buffer, requestFields c header ch.padding.1 = .ok buffer ∧
      out = if c.isAEAD then sealVMessAEADHeader pr account.id.cmdKey buffer ch
        else (userHash pr account ch).1 ++ (pr.aesEncryptionStream account.id.cmdKey.1
          (hashTimestamp pr.toHeaderPrimitives ch.timestamp)).xorKeyStream [] buffer := by
  rw [encodeRequestHeader] at hout
  rcases hbuffer : requestFields c header ch.padding.1 with buffer | e | - <;> rw [hbuffer] at hout
  · refine ⟨buffer, rfl, ?_⟩
    dsimp only at hout
    split_ifs at hout ⊢ with haead <;> exact (congrArg Prod.fst hout).symm
  · exact absurd (congrArg Prod.snd hout) (by simp)
  · exact absurd (congrArg Prod.snd hout) (by simp)

/-- A reader of the fields, which are all that is to come, or come before the body. -/
theorem decryptor_decrypts (hsetup : IsSetupFor setup pr) (hid : account.id = user.account.id)
    {conn : BufferedReader} {buffer body : Bytes}
    (hconn : conn.bytes = (pr.aesEncryptionStream account.id.cmdKey.1
      (hashTimestamp pr.toHeaderPrimitives ch.timestamp)).xorKeyStream [] buffer ++ body) :
    ∃ (stream : StreamCipher) (cipherText rest : Bytes), rest.length = body.length ∧
      CryptionReader.Decrypts stream (cipherText ++ body) conn.reader.err
        (decryptor setup user ch.timestamp conn) (buffer ++ rest) := by
  have hstart := CryptionReader.decrypts_start (hsetup.lawful.stream account.id.cmdKey.1
    (hashTimestamp pr.toHeaderPrimitives ch.timestamp)) hconn
  rw [hconn] at hstart
  rw [decryptor, hsetup.header, ← hid]
  exact ⟨_, _, _, StreamCipher.length_xorKeyStream _ _ _, hstart⟩

/-- Whatever the client writes is returned, unless the length of its domain wraps around. -/
theorem roundTrips_of_not_wraps (hheader : IsRequest setup.parseIP header)
    (h : IsAcceptable setup pr chances s user c account ch) (hwraps : ¬ HasWrappingAddress header) :
    RequestRoundTrips setup pr chances s user c account header ch := by
  intro out hout conn body hconn
  obtain ⟨buffer, hbuffer, rfl⟩ := encodeRequestHeader_eq_ok hout
  have hlength := length_requestFields hbuffer
  cases haead : c.isAEAD with
  | true =>
    rw [haead, if_pos rfl] at hconn
    obtain ⟨s', conn', behavior, n, hsession, hhistory, hbody, hdecode⟩ := decodeRequestHeader_sealed
      h.primitives h.order h.id (h.sealed haead) (by omega) hconn
    have hfresh : IsFresh s' user c chances.session := by rw [IsFresh, hhistory]; exact h.fresh
    obtain ⟨s'', b, i, hfields, -, hsession'⟩ := decodeFields_requestFields readBytes_serves
      readBytes_isFull hheader hwraps hbuffer hfresh (authIDOf pr account ch).1
      (List.append_nil buffer).symm
    rw [hdecode _ hfields]
    exact ⟨rfl, hbody, congrArg (·.requestBodyKey) hsession', congrArg (·.requestBodyIV) hsession',
      congrArg (·.responseHeader) hsession'⟩
  | false =>
    rw [haead, if_neg Bool.false_ne_true, List.append_assoc] at hconn
    obtain ⟨s', conn', behavior, n, hsession, hhistory, hrest, hdecode⟩ :=
      decodeRequestHeader_hashed h.order (h.hashed haead) hconn
    have hfresh : IsFresh s' user c chances.session := by rw [IsFresh, hhistory]; exact h.fresh
    obtain ⟨stream, cipherText, rest, hrestLength, hdecrypts⟩ :=
      decryptor_decrypts h.primitives h.id hrest
    obtain ⟨s'', b, i, hfields, hi, hsession'⟩ := decodeFields_requestFields
      (CryptionReader.readInto_serves _ _ _) CryptionReader.readInto_isLawful.isFull hheader hwraps
      hbuffer hfresh (userHash pr account ch).1 hdecrypts
    rw [hdecode _ hfields]
    exact ⟨rfl, hi.reader_bytes hrestLength, congrArg (·.requestBodyKey) hsession',
      congrArg (·.requestBodyIV) hsession', congrArg (·.responseHeader) hsession'⟩

/-- A domain of 256 bytes is written. -/
theorem requestFields_of_wraps (c : ClientSession) (hwraps : HasWrappingAddress header)
    (padding : Bytes) : ∃ buffer, requestFields c header padding = .ok buffer := by
  obtain ⟨hmux, address, haddress, hlength⟩ := hwraps
  have hrefused : ¬ address.IsRefused := by
    rintro ⟨name, rfl, hlong⟩
    have hlength : name.length = 256 := hlength
    simp [AddressParser.isDomainTooLong, hlength] at hlong
  obtain ⟨a, ha⟩ := AddressParser.addrParser_registers.writeAddress_ok hrefused
  have hout : destinationFields header = .ok (AddressParser.writePort header.port ++ a) := by
    rw [destinationFields, if_neg hmux, haddress]
    dsimp only
    rw [AddressParser.writeAddressPort, addrParser, ha]
    rfl
  exact ⟨_, Outcome.map_eq_ok.2 ⟨_, hout, rfl⟩⟩

/-- The request is rejected. -/
theorem not_roundTrips_of_wraps (hheader : IsRequest setup.parseIP header)
    (h : IsAcceptable setup pr chances s user c account ch) (hwraps : HasWrappingAddress header) :
    ¬ RequestRoundTrips setup pr chances s user c account header ch := by
  intro hround
  obtain ⟨buffer, hbuffer⟩ := requestFields_of_wraps c hwraps ch.padding.1
  have hlength := length_requestFields hbuffer
  cases haead : c.isAEAD with
  | true =>
    have hout : encodeRequestHeader pr c account header ch =
        (sealVMessAEADHeader pr account.id.cmdKey buffer ch, .ok ()) := by
      rw [encodeRequestHeader, hbuffer, haead]
      rfl
    have hconn := (exampleConn_bytes (sealVMessAEADHeader pr account.id.cmdKey buffer ch)).trans
      (List.append_nil _).symm
    obtain ⟨s', conn', behavior, n, -, -, -, hdecode⟩ := decodeRequestHeader_sealed
      h.primitives h.order h.id (h.sealed haead) (by omega) hconn
    have hresult := (hround _ hout _ _ hconn).result
    rw [hdecode _ rfl] at hresult
    exact finish_ne_ok (decodeFields_wraps readBytes_serves readBytes_isFull hheader hwraps hbuffer _
      (List.append_nil buffer).symm) behavior n _ hresult
  | false =>
    have hout : encodeRequestHeader pr c account header ch =
        ((userHash pr account ch).1 ++ (pr.aesEncryptionStream account.id.cmdKey.1
          (hashTimestamp pr.toHeaderPrimitives ch.timestamp)).xorKeyStream [] buffer, .ok ()) := by
      rw [encodeRequestHeader, hbuffer, haead]
      rfl
    have hconn := (exampleConn_bytes ((userHash pr account ch).1 ++
      (pr.aesEncryptionStream account.id.cmdKey.1
        (hashTimestamp pr.toHeaderPrimitives ch.timestamp)).xorKeyStream [] buffer)).trans
      (List.append_nil _).symm
    obtain ⟨s', conn', behavior, n, -, -, hrest, hdecode⟩ := decodeRequestHeader_hashed h.order
      (h.hashed haead) (hconn.trans (List.append_assoc _ _ _))
    obtain ⟨stream, cipherText, rest, -, hdecrypts⟩ := decryptor_decrypts h.primitives h.id hrest
    have hresult := (hround _ hout _ _ hconn).result
    rw [hdecode _ rfl] at hresult
    exact finish_ne_ok (decodeFields_wraps (CryptionReader.readInto_serves _ _ _)
      CryptionReader.readInto_isLawful.isFull hheader hwraps hbuffer _ hdecrypts) behavior n _ hresult

/-- A server reads what the client of a registered user writes, unless the address is a domain of 256
    bytes. -/
theorem requestRoundTrips_iff (hheader : IsRequest setup.parseIP header)
    (h : IsAcceptable setup pr chances s user c account ch) :
    RequestRoundTrips setup pr chances s user c account header ch ↔ ¬ HasWrappingAddress header :=
  ⟨fun hround hwraps => not_roundTrips_of_wraps hheader h hwraps hround,
    roundTrips_of_not_wraps hheader h⟩

end

/-! ## Two requests -/

/-- An identifier is encrypted by nothing. -/
def exampleRequestPrimitives : RequestPrimitives :=
  { exampleResponsePrimitives with
    hasher := examplePrimitives.hasher
    encrypt := fun _ data => data }

def exampleSetup : Setup (List Bytes) where
  validator := examplePrimitives
  filter := exactFilter
  header := exampleResponsePrimitives.toHeaderPrimitives
  parseIP _ := none

/-- A server with a user. -/
def exampleServer : Server (List Bytes) := ⟨exampleValidator, ⟨fun _ => none⟩, {}⟩

def exampleChances : Chances :=
  { probeChances with
    order := [(toBlock (ascii "a"), exampleUser "a")]
    clock := fun _ => 1000 }

theorem examplePadding_lt : ([7, 8, 9] : Bytes).length < 16 := by decide

theorem exampleRandom_length : ([1, 2, 3, 4] : Bytes).length = 4 := rfl

theorem exampleNonce_length : ([8, 7, 6, 5, 4, 3, 2, 1] : Bytes).length = 8 := rfl

/-- A request at the second 1000, with a padding of three bytes. -/
def exampleRequestChances : RequestChances where
  timestamp := 1000
  alterID := 0
  padding := ⟨[7, 8, 9], examplePadding_lt⟩
  now := 1000
  random := ⟨[1, 2, 3, 4], exampleRandom_length⟩
  connectionNonce := ⟨[8, 7, 6, 5, 4, 3, 2, 1], exampleNonce_length⟩

def exampleSession (isAEAD : Bool) : ClientSession :=
  newClientSession exampleResponsePrimitives isAEAD exampleRandomBytes

/-- A request for a domain. -/
def exampleRequest (name : Bytes) : RequestHeader where
  command := requestCommandTCP
  option := 1
  security := .aes128Gcm
  port := 80
  address := some (.domain name)

theorem example_isAcceptable (isAEAD : Bool) : IsAcceptable exampleSetup exampleRequestPrimitives
    exampleChances exampleServer (exampleUser "a") (exampleSession isAEAD) (exampleUser "a").account
    exampleRequestChances where
  primitives := ⟨rfl, fun _ _ => rfl, exampleResponsePrimitives_isLawful⟩
  order := ⟨.refl _, List.nodup_singleton _⟩
  id := rfl
  fresh := rfl
  sealed _ := {
    registered := List.mem_singleton_self _
    nonneg := by decide
    lt := by decide
    near := fun _ => show isNear 1000 1000 = true by decide +kernel
    unseen := fun _ => rfl
    others := fun _ hp hne => absurd (congrArg Prod.fst (List.mem_singleton.1 hp)) hne }
  hashed _ := {
    unforced := rfl
    known := by decide +kernel
    others := fun p hp => by
      obtain rfl : p = (toBlock (ascii "a"), exampleUser "a") := List.mem_singleton.1 hp
      exact .inl (by decide +kernel) }

theorem exampleRequest_isRequest {name : Bytes} (hne : name ≠ []) (hvalid : isValidDomain name = true) :
    IsRequest exampleSetup.parseIP (exampleRequest name) where
  command := .inr (.inl rfl)
  security := by simp [exampleRequest]
  address _ := ⟨.domain name, rfl, hne, hvalid, rfl⟩

/-- A domain of three letters, behind a hash. -/
theorem requestRoundTrips_iff_short :
    RequestRoundTrips exampleSetup exampleRequestPrimitives exampleChances exampleServer
      (exampleUser "a") (exampleSession false) (exampleUser "a").account
      (exampleRequest (ascii "a.b")) exampleRequestChances ↔
    ¬ HasWrappingAddress (exampleRequest (ascii "a.b")) :=
  requestRoundTrips_iff (exampleRequest_isRequest (by decide) (by decide)) (example_isAcceptable false)

/-- A domain of 256 letters, in a sealed header. -/
theorem not_requestRoundTrips_long :
    IsRequest exampleSetup.parseIP (exampleRequest (List.replicate 256 0x61)) ∧
    IsAcceptable exampleSetup exampleRequestPrimitives exampleChances exampleServer (exampleUser "a")
      (exampleSession true) (exampleUser "a").account exampleRequestChances ∧
    ¬ RequestRoundTrips exampleSetup exampleRequestPrimitives exampleChances exampleServer
      (exampleUser "a") (exampleSession true) (exampleUser "a").account
      (exampleRequest (List.replicate 256 0x61)) exampleRequestChances := by
  have hvalid : isValidDomain (List.replicate 256 0x61) = true := by
    rw [isValidDomain, List.all_replicate]
    rfl
  have hrequest := exampleRequest_isRequest (List.cons_ne_nil _ _) hvalid
  exact ⟨hrequest, example_isAcceptable true, not_roundTrips_of_wraps hrequest
    (example_isAcceptable true) ⟨by decide, _, rfl, List.length_replicate⟩⟩

end Encoding

end Gzv2ray.Vmess
