import Gzv2ray.Buf.Delivery
import Gzv2ray.Crypto.StreamRoundTrip
import Gzv2ray.Net.AddressDecoder
import Gzv2ray.Shadowsocks.RoundTrip
import Gzv2ray.Shadowsocks.Session

/-!
# Round trip of a session of Shadowsocks

What the writer of a body puts on a connection, the reader delivers
(`delivers_writes`): the key is derived from the initial vector on both sides, and
their nonces stay in step. The destination is written first, and it is read through a
buffered reader, which then delivers what is behind it (`session_roundTrip`).
-/

namespace Gzv2ray.Shadowsocks

/-! ## Bodies -/

/-- What the calls of a reader that decrypts return is delivered. -/
theorem decrypting_delivers {c : ChunkCodec} {r : AuthenticationReader c} {mb : MultiBuffer}
    {e : Error} (h : r.Drains mb e) :
    ∃ n, Delivers BodyReader.readMultiBuffer n (.decrypting c r) (MultiBuffer.bytes mb) e := by
  induction h with
  | @error r e hcall =>
    exact ⟨0, .error (Prod.ext hcall rfl)⟩
  | @ok r mb mb' e hcall _ ih =>
    obtain ⟨n, h⟩ := ih
    rw [MultiBuffer.bytes_append]
    exact ⟨n + 1, .ok (Prod.ext hcall rfl) h⟩

theorem plain_delivers {n : ℕ} {conn : BufferedReader} {b : Bytes} {e : Error}
    (h : Delivers BufferedReader.readBuffers n conn b e) :
    Delivers BodyReader.readMultiBuffer n (.plain conn) b e := by
  induction h with
  | @error conn conn' e hread =>
    exact .error (show BodyReader.readMultiBuffer (.plain conn) = (.error e, .plain conn') by
      rw [BodyReader.readMultiBuffer, hread])
  | @ok n conn conn' mb b e hread _ ih =>
    exact .ok (show BodyReader.readMultiBuffer (.plain conn) = (.ok mb, .plain conn') by
      rw [BodyReader.readMultiBuffer, hread]) ih

theorem BodyWriter.writes_encrypting {c : ChunkCodec} (w : AuthenticationWriter c)
    (mbs : List MultiBuffer) :
    (BodyWriter.encrypting c w).writes mbs = ((w.writes mbs).1, .encrypting c (w.writes mbs).2) := by
  induction mbs generalizing w with
  | nil => rfl
  | cons mb mbs ih =>
    rw [BodyWriter.writes, AuthenticationWriter.writes, BodyWriter.writeMultiBuffer]
    rcases w.writeMultiBuffer mb with ⟨out | e | _, w'⟩ <;> dsimp only
    · rw [ih]
      rcases w'.writes mbs with ⟨out' | e | _, w''⟩ <;> rfl
    · exact ih w'

theorem BodyWriter.writes_plain (mbs : List MultiBuffer) :
    plain.writes mbs = (.ok (mbs.flatMap MultiBuffer.bytes), plain) := by
  induction mbs with
  | nil => rfl
  | cons mb mbs ih =>
    rw [writes, writeMultiBuffer]
    dsimp only
    rw [ih, List.flatMap_cons]

/-- The bytes of what is written, the writes of too many buffers left aside: where they are to be
    encrypted, these return an error. -/
def Cipher.written : Cipher → List MultiBuffer → Bytes
  | aead _, mbs => AuthenticationWriter.written mbs
  | none, mbs => mbs.flatMap MultiBuffer.bytes

theorem AEADCipher.chunkCodec_lawful (pr : Primitives) {c : AEADCipher}
    (h : (Cipher.aead c).IsLawful) (key iv : Bytes) : (c.chunkCodec pr key iv).Lawful where
  auth := (createAuthenticator_lawful pr h key iv).1
  sizeParser _ h := by cases h

/-- What is written is delivered, however it is cut into segments. -/
theorem delivers_writes (pr : Primitives) {cipher : Cipher} (hlawful : cipher.IsLawful)
    (key iv : Bytes) {mbs : List MultiBuffer} (hne : ∀ mb ∈ mbs, MultiBuffer.bytes mb ≠ []) :
    ∃ out w, (cipher.newEncryptionWriter pr key iv).writes mbs = (.ok out, w) ∧
      ∀ pool (conn : BufferedReader), conn.bytes = out →
        ∃ n, Delivers BodyReader.readMultiBuffer n (cipher.newDecryptionReader pr key iv pool conn)
          (cipher.written mbs) conn.reader.err := by
  rcases cipher with c | -
  · obtain ⟨out, w, pieces, hwrites, -, hcarries, hpieces⟩ :=
      AuthenticationWriter.writes_carries (c.chunkCodec_lawful pr hlawful key iv)
        { transferType := .stream } rfl hne
    refine ⟨out, .encrypting _ w, ?_, fun pool conn hconn => ?_⟩
    · rw [Cipher.newEncryptionWriter, BodyWriter.writes_encrypting, hwrites]
    · obtain ⟨mb, hdrains, hmb⟩ := AuthenticationReader.drains_of_wire hcarries
        (congrArg Prod.fst (Wire.next_ended w.st conn.reader.err pool)) (.inr rfl)
        (r := { reader := conn, pool }) (by
          rw [List.append_nil, ← hconn]
          rfl)
      have hbytes : MultiBuffer.bytes mb = AuthenticationWriter.written mbs := by
        rw [← hpieces, ← hmb, MultiBuffer.bytes, List.flatMap_def]
      rw [Cipher.written, ← hbytes]
      exact decrypting_delivers hdrains
  · refine ⟨_, .plain, BodyWriter.writes_plain mbs, fun pool conn hconn => ?_⟩
    obtain ⟨n, h⟩ := conn.delivers
    rw [hconn] at h
    exact ⟨n, plain_delivers h⟩

/-! ## Initial vectors -/

theorem readIV_append {iv rest : Bytes} {r : BufferedReader} (hiv : iv.length ≤ bufSize)
    (hr : r.bytes = iv ++ rest) : ∃ b r', readIV iv.length .new r = (.ok iv, b, r') ∧
      r'.bytes = rest ∧ r'.reader.err = r.reader.err := by
  rw [readIV]
  split_ifs with hpos
  · obtain ⟨r', hbytes, herr, hread⟩ := r.readInto_eq iv.length
    rw [hr, List.take_left, if_pos (by simp)] at hread
    rw [hr, List.drop_left] at hbytes
    have hroom : ¬ Buffer.new.stop + iv.length > bufSize := by
      rw [show Buffer.new.stop = 0 from rfl]
      omega
    have hwrite : (Buffer.new.write iv).1.bytes = iv := Buffer.write_new iv hiv
    have hfull : Reading.readFullFrom BufferedReader.readInto iv.length .new r =
        (.ok (), (Buffer.new.write iv).1, r') := by
      rw [Reading.readFullFrom, if_neg hroom, hread]
    refine ⟨(Buffer.new.write iv).1, r', (Reading.bind_of_ok hfull).trans ?_, hbytes, herr⟩
    rw [Reading.bytesTo, Reading.bytesRange, if_neg (lt_irrefl 0),
      if_neg (not_lt.2 (Int.natCast_nonneg _)), Buffer.len, hwrite, if_neg (by omega),
      Int.toNat_natCast, List.take_length]
    rfl
  · obtain rfl := List.length_eq_zero_iff.1 (Nat.eq_zero_of_not_pos hpos)
    exact ⟨.new, r, rfl, hr, rfl⟩

variable {Φ : Type} {setup : Setup Φ}

/-- The initial vector is written if it is fresh, and if there is one. -/
theorem writeIV_fresh {account : MemoryAccount} {filter : Option Φ} {iv : Bytes}
    (hlen : iv.length = account.cipher.ivSize)
    (hfresh : 0 < account.cipher.ivSize → (checkIV setup filter iv).1 = none) :
    ∃ filter', writeIV setup account filter iv = (.ok iv, filter') := by
  rw [writeIV]
  split_ifs with hpos
  · have hnone := hfresh hpos
    generalize checkIV setup filter iv = checked at hnone
    rcases checked with ⟨_ | e, filter'⟩
    · exact ⟨filter', rfl⟩
    · cases hnone
  · obtain rfl := List.length_eq_zero_iff.1 (hlen.trans (Nat.eq_zero_of_not_pos hpos))
    exact ⟨filter, rfl⟩

/-! ## Sessions -/

/-- The bytes of a destination fit in a buffer. -/
theorem writeAddressPort_fits {address : Address} (hrefused : ¬ address.IsRefused) (port : UInt16) :
    ∃ b, addrParser.writeAddressPort address port = .ok b ∧ b.length ≤ bufSize ∧ b ≠ [] := by
  obtain ⟨a, ha⟩ := addrParser_registers.writeAddress_ok hrefused
  rw [← addrParser] at ha
  have hlength : (a ++ AddressParser.writePort port).length = address.encodedLength + 2 := by
    rw [List.length_append, Address.length_writeAddress ha]
    exact congrArg _ (length_bigEndian _ _)
  have hle := Address.encodedLength_le hrefused
  refine ⟨a ++ AddressParser.writePort port, ?_, by rw [hlength, bufSize]; omega, ?_⟩
  · rw [AddressParser.writeAddressPort, ha]
    rfl
  · exact List.ne_nil_of_length_pos (by omega)

/-- A destination is written as a chunk of its own, before the others. -/
theorem writeDestination_spec (pr : Primitives) {cipher : Cipher} (hlawful : cipher.IsLawful)
    (key iv : Bytes) {address : Address} {request : RequestHeader}
    (haddress : request.address = some address) {b : Bytes}
    (hb : addrParser.writeAddressPort address request.port = .ok b) (hfits : b.length ≤ bufSize)
    (hbne : b ≠ []) {mbs : List MultiBuffer} (hne : ∀ mb ∈ mbs, MultiBuffer.bytes mb ≠ []) :
    ∃ header w out w', writeDestination (cipher.newEncryptionWriter pr key iv) request =
        (header, .ok w) ∧ w.writes mbs = (.ok out, w') ∧
      ∀ pool (conn : BufferedReader), conn.bytes = header ++ out →
        ∃ n, Delivers BodyReader.readMultiBuffer n (cipher.newDecryptionReader pr key iv pool conn)
          (b ++ cipher.written mbs) conn.reader.err := by
  have hbytes : MultiBuffer.bytes [(Buffer.new.write b).1] = b := by
    rw [MultiBuffer.bytes_cons, MultiBuffer.bytes_nil, List.append_nil, Buffer.write_new b hfits]
  obtain ⟨out, w', hwrites, hdelivers⟩ := delivers_writes pr hlawful key iv
    (List.forall_mem_cons.2 ⟨hbytes.symm ▸ hbne, hne⟩)
  have hwritten : cipher.written ([(Buffer.new.write b).1] :: mbs) = b ++ cipher.written mbs := by
    rcases cipher with c | -
    · rw [Cipher.written, Cipher.written, AuthenticationWriter.written, if_neg (by simp), hbytes]
    · rw [Cipher.written, Cipher.written, List.flatMap_cons, hbytes]
  rw [hwritten] at hdelivers
  obtain ⟨header, w, hheader⟩ : ∃ header w, (cipher.newEncryptionWriter pr key iv).writeMultiBuffer
      [(Buffer.new.write b).1] = (.ok header, w) := by
    rcases cipher with c | -
    · rcases AuthenticationWriter.writeMultiBuffer_carries (c.chunkCodec_lawful pr hlawful key iv)
        { transferType := .stream } rfl (hbytes.symm ▸ hbne) with
        ⟨hlarge, -⟩ | ⟨-, header, w, -, hwrite, -⟩
      · exact absurd hlarge (by simp)
      · exact ⟨header, .encrypting _ w, by
          rw [Cipher.newEncryptionWriter, BodyWriter.writeMultiBuffer, hwrite]⟩
    · exact ⟨_, .plain, rfl⟩
  rw [BodyWriter.writes, hheader] at hwrites
  dsimp only at hwrites
  rcases hmbs : w.writes mbs with ⟨out' | e | _, w''⟩ <;> rw [hmbs] at hwrites
  · obtain ⟨hout, rfl⟩ := Prod.mk.inj hwrites
    obtain rfl := Outcome.ok.inj hout
    refine ⟨header, w, out', w'', ?_, hmbs, hdelivers⟩
    simp only [writeDestination, haddress, hb, hheader]
  · cases hwrites
  · cases hwrites

/-- Behind the initial vector, the destination is read from what is delivered. -/
theorem readRequest_of_delivers {filter : Option Φ} {iv : Bytes}
    (hfresh : (checkIV setup filter iv).1 = none) {address : Address} {port : UInt16}
    (hplain : address.IsPlain setup.parseIP)
    (hlen : ∀ name, address = .domain name → name.length ≤ 255) {b rest : Bytes}
    (hb : addrParser.writeAddressPort address port = .ok b) (hfits : b.length ≤ bufSize) {n : ℕ}
    {r : BodyReader} {e : Error}
    (h : Delivers BodyReader.readMultiBuffer n r (b ++ rest) e) {fuel : ℕ} (hfuel : n ≤ fuel)
    (remain : ℤ) :
    ∃ request br filter', readRequest setup filter iv fuel remain { reader := r } =
        (.opened request br, filter') ∧ request.address = some address ∧ request.port = port ∧
      ∃ n, Delivers (NestedReader.readMultiBuffer BodyReader.readMultiBuffer) n br rest e := by
  have hholding : NestedReader.Holding BodyReader.readMultiBuffer fuel e { reader := r }
      (b ++ rest) := ⟨rfl, n, b ++ rest, hfuel, rfl, h⟩
  obtain ⟨br, hread, hrest⟩ := AddressParser.readAddressPort_writeAddressPort
    addrParser_isConsistent (NestedReader.readInto_feeds BodyReader.readMultiBuffer fuel e)
    (hplain.isReadable hlen) (b := []) hb hholding (by simpa using hfits)
  have hfull : (NestedReader.readInto BodyReader.readMultiBuffer fuel).IsFull :=
    NestedReader.readInto_isFull fuel
  have heq := AddressParser.readAddressPort_eq hfull addrParser setup.parseIP (b := .new) rfl
    { reader := r }
  rw [show Buffer.new.bytes = [] from rfl, hread, hplain.canonical] at heq
  rw [readRequest]
  generalize addrParser.readAddressPortInto setup.parseIP
    (NestedReader.readInto BodyReader.readMultiBuffer fuel) (some .new) { reader := r } = out at heq ⊢
  rcases out with ⟨⟨address', port'⟩ | e' | _, buffer, br'⟩
  · simp only [Prod.mk.injEq, Except.ok.injEq] at heq
    obtain ⟨⟨rfl, rfl, -⟩, rfl⟩ := heq
    simp only [hrest.stuck, acceptRequest]
    generalize checkIV setup filter iv = checked at hfresh
    rcases checked with ⟨_ | ivError, filter'⟩
    · exact ⟨_, br, filter', rfl, rfl, rfl, hrest.delivers_all⟩
    · cases hfresh
  · cases heq
  · cases heq

/-- The start of a request is read, and the body behind it is delivered. -/
theorem readTCPSession_writeTCPRequest (setup : Setup Φ) {account : MemoryAccount}
    (hlawful : account.cipher.IsLawful) (hsize : account.cipher.ivSize ≤ 32)
    (iv : { b : Bytes // b.length = account.cipher.ivSize }) {filter filter' : Option Φ}
    (hmark : 0 < account.cipher.ivSize → (checkIV setup filter iv).1 = none)
    (hfresh : (checkIV setup filter' iv).1 = none) {address : Address} {request : RequestHeader}
    (haddress : request.address = some address) (hplain : address.IsPlain setup.parseIP)
    (hlen : ∀ name, address = .domain name → name.length ≤ 255) {mbs : List MultiBuffer}
    (hne : ∀ mb ∈ mbs, MultiBuffer.bytes mb ≠ []) :
    ∃ out w marked out' w', writeTCPRequest setup account filter iv request = (out, .ok w, marked) ∧
      w.writes mbs = (.ok out', w') ∧
      ∀ dice pool (conn : BufferedReader), conn.bytes = out ++ out' →
        ∃ calls, ∀ fuel ≥ calls, ∃ request' br filter'',
          readTCPSession setup dice account filter' fuel pool conn =
            (.opened request' br, filter'') ∧
          request'.address = some address ∧ request'.port = request.port ∧
          ∃ n, Delivers (NestedReader.readMultiBuffer BodyReader.readMultiBuffer) n br
            (account.cipher.written mbs) conn.reader.err := by
  have hrefused : ¬ address.IsRefused := by
    rintro ⟨name, rfl, hlong⟩
    have hle := hlen name rfl
    rw [AddressParser.isDomainTooLong, decide_eq_true_iff] at hlong
    omega
  obtain ⟨b, hb, hfits, hbne⟩ := writeAddressPort_fits hrefused request.port
  obtain ⟨header, w, out', w', hheader, hwrites, hdelivers⟩ :=
    writeDestination_spec setup.primitives hlawful account.key iv haddress hb hfits hbne hne
  obtain ⟨marked, hwriteIV⟩ := writeIV_fresh iv.2 hmark
  refine ⟨iv ++ header, w, marked, out', w', ?_, hwrites, fun dice pool conn hconn => ?_⟩
  · simp only [writeTCPRequest, hwriteIV, hheader]
  rw [List.append_assoc] at hconn
  obtain ⟨buffer, conn', hreadIV, hbytes, herr⟩ :=
    readIV_append (by rw [iv.2, bufSize]; omega) hconn
  obtain ⟨n, hdelivered⟩ := hdelivers pool conn' hbytes
  refine ⟨n, fun fuel hfuel => ?_⟩
  rw [readTCPSession, ← iv.2, hreadIV, ← herr]
  exact readRequest_of_delivers hfresh hplain hlen hb hfits hdelivered hfuel _

/-- The start of an answer is read, and the body behind it is delivered. -/
theorem readTCPResponse_writeTCPResponse (setup : Setup Φ) {account : MemoryAccount}
    (hlawful : account.cipher.IsLawful)
    (iv : { b : Bytes // b.length = account.cipher.ivSize }) {filter filter' : Option Φ}
    (hmark : 0 < account.cipher.ivSize → (checkIV setup filter iv).1 = none)
    (hfresh : (checkIV setup filter' iv).1 = none) {mbs : List MultiBuffer}
    (hne : ∀ mb ∈ mbs, MultiBuffer.bytes mb ≠ []) :
    ∃ out w marked out' w', writeTCPResponse setup account filter iv = (out, .ok w, marked) ∧
      w.writes mbs = (.ok out', w') ∧
      ∀ pool (conn : BufferedReader), conn.bytes = out ++ out' → ∃ r filter'',
        readTCPResponse setup account filter' pool conn = (.ok r, filter'') ∧
        ∃ n, Delivers BodyReader.readMultiBuffer n r (account.cipher.written mbs)
          conn.reader.err := by
  obtain ⟨out', w', hwrites, hdelivers⟩ := delivers_writes setup.primitives hlawful account.key iv hne
  obtain ⟨marked, hwriteIV⟩ := writeIV_fresh iv.2 hmark
  refine ⟨iv, _, marked, out', w', by simp only [writeTCPResponse, hwriteIV], hwrites,
    fun pool conn hconn => ?_⟩
  obtain ⟨conn', hreadIV, hbytes, herr⟩ : ∃ conn', (if 0 < account.cipher.ivSize then
      conn.readFull account.cipher.ivSize else (.ok [], conn)) = (.ok iv.1, conn') ∧
      conn'.bytes = out' ∧ conn'.reader.err = conn.reader.err := by
    split_ifs with hpos
    · obtain ⟨conn', hread, hbytes, herr⟩ := conn.readFull_ok (n := account.cipher.ivSize)
        (by rw [hconn, List.length_append, iv.2]; exact Nat.le_add_right _ _)
      rw [hconn, List.take_left' iv.2] at hread
      rw [hconn, List.drop_left' iv.2] at hbytes
      exact ⟨conn', hread, hbytes, herr⟩
    · have hnil : iv.1 = [] := List.length_eq_zero_iff.1 (iv.2.trans (Nat.eq_zero_of_not_pos hpos))
      rw [hnil, List.nil_append] at hconn
      exact ⟨conn, by rw [hnil], hconn, rfl⟩
  obtain ⟨n, hdelivered⟩ := hdelivers pool conn' hbytes
  rw [readTCPResponse, hreadIV, ← herr]
  dsimp only
  generalize checkIV setup filter' iv = checked at hfresh
  rcases checked with ⟨_ | ivError, filter''⟩
  · exact ⟨_, filter'', rfl, n, hdelivered⟩
  · cases hfresh

/-- A server without a filter of initial vectors. -/
def exampleSessionSetup : Setup Unit where
  primitives := examplePrimitives
  hmacSHA256 key message := key ++ message
  check filter _ := (true, filter)
  parseIP _ := none

end Gzv2ray.Shadowsocks
