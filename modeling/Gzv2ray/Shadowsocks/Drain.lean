import Gzv2ray.Crypto.Cost
import Gzv2ray.Net.AddressLength
import Gzv2ray.Shadowsocks.RoundTrip
import Gzv2ray.Shadowsocks.Session

/-!
# How much of a rejected session is taken

What remains to be drained is counted down by the bytes of the initial vector and of
the destination, as they are in the buffer. What is taken from the connection is
more: under an AEAD, there are the sizes and the tags (`decrypting_overspends`), and
without one, whatever the last read brought behind the destination.

So the drain size is taken exactly if nothing is encrypted, a read of the connection
ends with the destination and this is not longer (`readTCPSession_uniform_iff`).
-/

namespace Gzv2ray

/-! ## The reads of a connection -/

namespace BufferedReader

/-- What the reads of the connection bring: what is at hand, and then its segments. -/
def reads (r : BufferedReader) : List MultiBuffer :=
  if MultiBuffer.isEmpty r.buffer then r.reader.segments else r.buffer :: r.reader.segments

/-- A read ends behind so many bytes. -/
def EndsAt (r : BufferedReader) (n : ℕ) : Prop :=
  ∃ read rest, r.reads = read ++ rest ∧ (read.flatMap MultiBuffer.bytes).length = n

theorem bytes_eq_reads (r : BufferedReader) : r.bytes = r.reads.flatMap MultiBuffer.bytes := by
  rw [bytes, reads, Source.bytes]
  split_ifs with hempty
  · rw [(MultiBuffer.isEmpty_iff _).1 hempty, List.nil_append]
  · rw [List.flatMap_cons]

theorem readBuffers_cases (r : BufferedReader) :
    (∃ e, r.readBuffers = (.error e, r) ∧ r.reads = []) ∨
      ∃ mb r', r.readBuffers = (.ok mb, r') ∧ r.reads = mb :: r'.reads := by
  rw [readBuffers, readMultiBuffer, reads]
  rcases hempty : MultiBuffer.isEmpty r.buffer with - | -
  · exact .inr ⟨r.buffer, _, rfl, rfl⟩
  · rw [Source.readMultiBuffer]
    rcases hsegments : r.reader.segments with - | ⟨mb, segments⟩
    · refine .inl ⟨r.reader.err, ?_, by simp⟩
      simp
    · refine .inr ⟨mb, _, rfl, ?_⟩
      simp [reads, hempty]

end BufferedReader

namespace Shadowsocks

open BufferedReader (EndsAt)

/-! ## Ciphers -/

/-- What the connection pays for the next call beyond what it returns. -/
def BodyReader.cost : BodyReader → ℕ
  | decrypting _ r => if r.done then 0 else r.sizeCost
  | plain _ => 0

theorem BodyReader.pays (r : BodyReader) : Pays r.connection
    (r.cost + (AuthenticationReader.returned r.readMultiBuffer.1).length)
    r.readMultiBuffer.2.connection := by
  rcases r with ⟨c, r⟩ | r
  · exact r.readMultiBuffer_pays
  · change Pays r (0 + (AuthenticationReader.returned r.readBuffers.1).length) r.readBuffers.2
    rcases r.readBuffers_cases with ⟨e, hread, -⟩ | ⟨mb, r', hread, hreads⟩ <;> rw [hread]
    · exact .refl r
    · refine .inr (le_of_eq ?_)
      rw [r.bytes_eq_reads, hreads, List.flatMap_cons, List.length_append, ← r'.bytes_eq_reads,
        Nat.zero_add]
      rfl

/-- The bytes at hand, and those of the connection. -/
def total (r : NestedReader BodyReader) : ℕ :=
  (MultiBuffer.bytes r.buffer).length + r.reader.connection.bytes.length

/-- So much more than the bytes was taken, or the connection has come to its end. -/
def Spends (extra : ℕ) (r : NestedReader BodyReader) (l : Bytes) (r' : NestedReader BodyReader) :
    Prop :=
  r'.reader.connection.bytes.length ≤ r.reader.connection.bytes.length ∧
    (r'.reader.connection.bytes = [] ∨ extra + l.length + total r' ≤ total r)

theorem Spends.mono {m n : ℕ} {r r' : NestedReader BodyReader} {l : Bytes} (h : Spends n r l r')
    (hle : m ≤ n) : Spends m r l r' :=
  ⟨h.1, h.2.imp_right fun h => by omega⟩

theorem Spends.trans {m n : ℕ} {r r' r'' : NestedReader BodyReader} {l l' : Bytes}
    (h : Spends m r l r') (h' : Spends n r' l' r'') : Spends (m + n) r (l ++ l') r'' := by
  refine ⟨h'.1.trans h.1, ?_⟩
  rcases h'.2 with hend | hspent'
  · exact .inl hend
  rcases h.2 with hend | hspent
  · have hle := h'.1
    rw [hend, List.length_nil] at hle
    exact .inl (List.length_eq_zero_iff.1 (Nat.le_zero.1 hle))
  · rw [List.length_append]
    exact .inr (by omega)

/-- What a call below returns is read or at hand. -/
theorem spends_of_pays {r r' : NestedReader BodyReader} {l : Bytes} {extra got : ℕ}
    (h : Pays r.reader.connection (extra + got) r'.reader.connection)
    (hgot : l.length + (MultiBuffer.bytes r'.buffer).length ≤ got) : Spends extra r l r' := by
  refine ⟨h.length_le, h.imp_right fun h => ?_⟩
  rw [total, total]
  omega

open NestedReader in
/-- With nothing at hand, a read costs as much as the call below. -/
theorem read_spends (r : NestedReader BodyReader) (n : ℕ) :
    Spends (if MultiBuffer.isEmpty r.buffer then r.reader.cost else 0) r
      (taken (r.read BodyReader.readMultiBuffer n).1) (r.read BodyReader.readMultiBuffer n).2 := by
  rw [NestedReader.read]
  rcases hempty : MultiBuffer.isEmpty r.buffer with - | -
  · refine ⟨le_rfl, .inr (le_of_eq ?_)⟩
    simp only [Bool.not_false, if_true, Bool.false_eq_true, if_false, taken, total,
      MultiBuffer.splitBytes_snd, MultiBuffer.splitBytes_fst_bytes, List.length_take,
      List.length_drop]
    omega
  · have hnil : MultiBuffer.bytes r.buffer = [] := (MultiBuffer.isEmpty_iff _).1 hempty
    have hpays := r.reader.pays
    simp only [Bool.not_true, Bool.false_eq_true, if_false, if_true]
    generalize r.reader.readMultiBuffer = out at hpays ⊢
    rcases out with ⟨mb | e | -, reader⟩
    · refine spends_of_pays hpays (le_of_eq ?_)
      rw [taken, MultiBuffer.splitBytes_snd, MultiBuffer.splitBytes_fst_bytes,
        ← List.length_append, List.take_append_drop]
      rfl
    · exact spends_of_pays hpays (by rw [hnil]; exact Nat.zero_le _)
    · exact spends_of_pays hpays (by rw [hnil]; exact Nat.zero_le _)

/-- What any read does, and that it does not get a reader out of where it is stuck. -/
def Continues (r : NestedReader BodyReader) (l : Bytes) (r' : NestedReader BodyReader) : Prop :=
  Spends 0 r l r' ∧ (r.stuck ≠ none → r'.stuck ≠ none)

/-- What the first read does: it costs as much as the call below, or gets stuck. -/
def Begins (extra : ℕ) (r : NestedReader BodyReader) (l : Bytes) (r' : NestedReader BodyReader) :
    Prop :=
  r'.stuck ≠ none ∨ Spends extra r l r'

theorem continues_isPath : IsPath Continues where
  refl r := ⟨⟨le_rfl, .inr (by simp)⟩, id⟩
  trans h h' := ⟨h.1.trans h'.1, h'.2 ∘ h.2⟩

theorem Begins.trans {extra : ℕ} {r r' r'' : NestedReader BodyReader} {l l' : Bytes}
    (h : Begins extra r l r') (h' : Continues r' l' r'') : Begins extra r (l ++ l') r'' :=
  h.imp h'.2 fun h => h.trans h'.1

theorem read_continues (r : NestedReader BodyReader) (n : ℕ) :
    Continues r (NestedReader.taken (r.read BodyReader.readMultiBuffer n).1)
      (r.read BodyReader.readMultiBuffer n).2 := by
  refine ⟨(read_spends r n).mono (Nat.zero_le _), ?_⟩
  rw [NestedReader.read]
  split_ifs
  · exact id
  · rcases r.reader.readMultiBuffer with ⟨mb | e | -, reader⟩ <;> exact id

theorem stuck_continues (r : NestedReader BodyReader) (why : Stuck) :
    Continues r [] { r with stuck := some why } :=
  ⟨⟨le_rfl, .inr (by simp [total])⟩, fun _ => by simp⟩

theorem readInto_continues (fuel : ℕ) :
    (NestedReader.readInto BodyReader.readMultiBuffer fuel).Follows Continues :=
  NestedReader.readInto_follows continues_isPath (fun r n _ => read_continues r n) stuck_continues fuel

/-- With nothing at hand, reading costs as much as the call below. -/
theorem readInto_begins (fuel : ℕ) {r : NestedReader BodyReader}
    (hempty : MultiBuffer.isEmpty r.buffer = true) {n : ℕ} (hn : n ≠ 0) :
    Begins r.reader.cost r (NestedReader.readInto BodyReader.readMultiBuffer fuel r n).1
      (NestedReader.readInto BodyReader.readMultiBuffer fuel r n).2.2 := by
  obtain ⟨hout, hr, -⟩ := NestedReader.readInto_cases BodyReader.readMultiBuffer fuel r n
  rw [hout, hr]
  rcases fuel with - | fuel
  · rw [NestedReader.readFullLoop, if_neg hn]
    exact .inl (by simp)
  rw [NestedReader.readFullLoop, if_neg hn]
  have hspends := read_spends r n
  rw [if_pos hempty] at hspends
  generalize r.read BodyReader.readMultiBuffer n = out at hspends ⊢
  rcases out with ⟨out | e | -, r'⟩
  · exact Begins.trans (.inr hspends) (NestedReader.readFullLoop_follows continues_isPath
      (fun r n _ => read_continues r n) stuck_continues fuel r' (n - out.length))
  · exact .inr hspends
  · exact .inl (by simp)

/-- What the decoder of the destination takes costs as much as the first call below. -/
theorem readDestination_spends (parseIP : Bytes → Option IPv6) (fuel : ℕ)
    {r : NestedReader BodyReader} (hempty : MultiBuffer.isEmpty r.buffer = true)
    {out : Outcome (Option Address × UInt16) × Buffer × NestedReader BodyReader}
    (hout : addrParser.readAddressPortInto parseIP
      (NestedReader.readInto BodyReader.readMultiBuffer fuel) (some .new) r = out)
    (hstuck : out.2.2.stuck = none) : Spends r.reader.cost r out.2.1.bytes out.2.2 := by
  rw [← hout] at hstuck ⊢
  refine Or.resolve_left (show Begins r.reader.cost r _ _ from Reading.Took.of_new
    (AddressParser.readBothInto_took (p := addrParser) Begins.trans (readInto_continues fuel) rfl
      ?_)) fun h => h hstuck
  exact ⟨_, Buffer.new.write_bytes ((Nat.zero_add _).trans_le
    (((readInto_continues fuel).le r 1).trans (by decide))), readInto_begins fuel hempty (by decide)⟩

/-! ## Connections that are not encrypted -/

/-- So many bytes of the connection have been read, and those at hand were read with the last. -/
structure At (conn : BufferedReader) (n : ℕ) (r : NestedReader BodyReader) (left : BufferedReader)
    (read : List MultiBuffer) : Prop where
  reader : r.reader = .plain left
  reads : conn.reads = read ++ left.reads
  length : (read.flatMap MultiBuffer.bytes).length = n + (MultiBuffer.bytes r.buffer).length
  inside : MultiBuffer.bytes r.buffer ≠ [] →
    ∀ k, conn.EndsAt k → k < n ∨ n + (MultiBuffer.bytes r.buffer).length ≤ k

/-- Reading takes a connection further. -/
def Proceeds (conn : BufferedReader) (r : NestedReader BodyReader) (l : Bytes)
    (r' : NestedReader BodyReader) : Prop :=
  ∀ n left read, At conn n r left read → ∃ left' read', At conn (n + l.length) r' left' read'

theorem proceeds_isPath (conn : BufferedReader) : IsPath (Proceeds conn) where
  refl _ _ left read h := ⟨left, read, h⟩
  trans {_ _ _ l l'} h h' n left read hat := by
    obtain ⟨left', read', hat'⟩ := h n left read hat
    obtain ⟨left'', read'', hat''⟩ := h' _ left' read' hat'
    exact ⟨left'', read'', by rwa [List.length_append, ← Nat.add_assoc]⟩

/-- No read ends between the beginning and the end of another one. -/
theorem endsAt_outside {conn : BufferedReader} {read rest : List MultiBuffer} {mb : MultiBuffer}
    (hreads : conn.reads = read ++ mb :: rest) {k : ℕ} (hk : conn.EndsAt k) :
    k ≤ (read.flatMap MultiBuffer.bytes).length ∨
      (read.flatMap MultiBuffer.bytes).length + (MultiBuffer.bytes mb).length ≤ k := by
  obtain ⟨read', rest', hreads', rfl⟩ := hk
  rw [hreads, List.append_eq_append_iff] at hreads'
  rcases hreads' with ⟨more, rfl, hmore⟩ | ⟨more, rfl, -⟩
  · rcases more with - | ⟨mb', more⟩
    · simp
    · obtain ⟨rfl, -⟩ := List.cons.inj hmore
      refine .inr ?_
      rw [List.flatMap_append, List.flatMap_cons, List.length_append, List.length_append]
      omega
  · refine .inl ?_
    rw [List.flatMap_append, List.length_append]
    exact Nat.le_add_right _ _

theorem read_proceeds (conn : BufferedReader) (r : NestedReader BodyReader) {n : ℕ} (hn : 0 < n) :
    Proceeds conn r (NestedReader.taken (r.read BodyReader.readMultiBuffer n).1)
      (r.read BodyReader.readMultiBuffer n).2 := by
  intro k left read h
  rw [NestedReader.read]
  rcases hempty : MultiBuffer.isEmpty r.buffer with - | -
  · have hne := (MultiBuffer.isEmpty_eq_false_iff _).1 hempty
    have hpos := List.length_pos_iff.2 hne
    refine ⟨left, read, h.reader, h.reads, ?_, fun hne' j hj => ?_⟩
    · have hlength := h.length
      simp only [Bool.not_false, if_true, NestedReader.taken, MultiBuffer.splitBytes_snd,
        MultiBuffer.splitBytes_fst_bytes, List.length_take, List.length_drop]
      omega
    · have hinside := h.inside hne j hj
      simp only [Bool.not_false, if_true, NestedReader.taken, MultiBuffer.splitBytes_snd,
        MultiBuffer.splitBytes_fst_bytes, List.length_take, List.length_drop]
      omega
  · have hnil : MultiBuffer.bytes r.buffer = [] := (MultiBuffer.isEmpty_iff _).1 hempty
    have hlength := h.length
    rw [hnil, List.length_nil, Nat.add_zero] at hlength
    simp only [Bool.not_true, Bool.false_eq_true, if_false]
    rw [h.reader, BodyReader.readMultiBuffer]
    rcases left.readBuffers_cases with ⟨e, hread, -⟩ | ⟨mb, left', hread, hreads⟩ <;> rw [hread]
    · exact ⟨left, read, ⟨rfl, h.reads, h.length, h.inside⟩⟩
    · have hreads' : conn.reads = read ++ mb :: left'.reads := by rw [h.reads, hreads]
      refine ⟨left', read ++ [mb], rfl, by rw [hreads', List.append_assoc]; rfl, ?_, fun hne j hj => ?_⟩
      · simp only [NestedReader.taken, MultiBuffer.splitBytes_snd, MultiBuffer.splitBytes_fst_bytes,
          List.flatMap_append, List.flatMap_singleton, List.length_append, List.length_take,
          List.length_drop]
        omega
      · have hoff := endsAt_outside hreads' hj
        have hpos := List.length_pos_iff.2 hne
        simp only [NestedReader.taken, MultiBuffer.splitBytes_snd, MultiBuffer.splitBytes_fst_bytes,
          List.length_take, List.length_drop] at hpos ⊢
        omega

theorem readInto_proceeds (conn : BufferedReader) (fuel : ℕ) :
    (NestedReader.readInto BodyReader.readMultiBuffer fuel).Follows (Proceeds conn) :=
  NestedReader.readInto_follows (proceeds_isPath conn) (fun r _ hn => read_proceeds conn r hn)
    (fun _ _ _ left read h => ⟨left, read, h.reader, h.reads, h.length, h.inside⟩) fuel

theorem plain_handsOver : NestedReader.HandsOver BodyReader.readMultiBuffer
    (fun r b => ∃ conn, r = .plain conn ∧ conn.bytes = b) fun r => r.connection.bytes = [] := by
  rintro _ b ⟨conn, rfl, rfl⟩
  rw [BodyReader.readMultiBuffer]
  rcases conn.readBuffers_cases with ⟨e, hread, hreads⟩ | ⟨mb, conn', hread, hreads⟩ <;> rw [hread]
  · refine .inl ⟨e, _, rfl, ?_⟩
    change conn.bytes = []
    rw [conn.bytes_eq_reads, hreads, List.flatMap_nil]
  · refine .inr ⟨mb, _, conn'.bytes, rfl, ?_, conn', rfl, rfl⟩
    rw [conn.bytes_eq_reads, hreads, List.flatMap_cons, conn'.bytes_eq_reads]

/-- The decoder of the destination takes its bytes, or it is stuck, or meets the end. -/
theorem readDestination_length {parseIP : Bytes → Option IPv6} {fuel : ℕ} {conn : BufferedReader}
    {out : Outcome (Option Address × UInt16) × Buffer × NestedReader BodyReader}
    (hout : addrParser.readAddressPortInto parseIP
      (NestedReader.readInto BodyReader.readMultiBuffer fuel) (some .new) ⟨[], .plain conn, none⟩ =
        out) :
    (out.2.2.stuck ≠ none ∨ out.2.2.reader.connection.bytes = []) ∨
      out.2.1.len = addrParser.destinationLen parseIP conn.bytes := by
  rw [← hout]
  exact AddressParser.readBothInto_length rfl (NestedReader.readInto_supplies plain_handsOver fuel)
    ⟨conn.bytes, rfl, conn, rfl, rfl⟩

/-! ## Rejected sessions -/

theorem connection_supplies :
    BufferedReader.readInto.Supplies (fun r b => r.bytes = b) fun r => r.bytes = [] := by
  rintro r _ n rfl
  obtain ⟨r', hbytes, -, hread⟩ := r.readInto_eq n
  rw [hread]
  split_ifs with hn
  · exact .inr ⟨hn, r', rfl, hbytes⟩
  · exact .inl ⟨_, _, r', rfl, hbytes.trans (List.drop_of_length_le (Nat.le_of_not_le hn))⟩

/-- The initial vector is read, or the end of the connection is met. -/
theorem readIV_cases {ivLen : ℕ} (hroom : ivLen ≤ bufSize) (r : BufferedReader) :
    (∃ e b r', readIV ivLen .new r = (.error e, b, r') ∧ r'.bytes = []) ∨
      ∃ iv b r', readIV ivLen .new r = (.ok iv, b, r') ∧ b.len = ivLen ∧ Consumes r ivLen r' := by
  rw [readIV]
  split_ifs with hpos
  · rcases Reading.readFullFrom_supplies connection_supplies (b := .new) (n := ivLen) rfl
      ((Nat.zero_add ivLen).trans_le hroom) with
      ⟨e, b, r', hread, hended⟩ | ⟨hn, b, r', hread, hbytes, -, hr'⟩
    · exact .inl ⟨e, b, r', Reading.bind_of_error hread, hended⟩
    have hlen : b.len = ivLen :=
      (congrArg List.length hbytes).trans (List.length_take_of_le hn)
    refine .inr ⟨b.bytes.take ivLen, b, r', (Reading.bind_of_ok hread).trans ?_, hlen, ?_⟩
    · rw [Reading.bytesTo, Reading.bytesRange, if_neg (lt_irrefl 0),
        if_neg (not_lt.2 (Int.natCast_nonneg ivLen)), if_neg (by omega)]
      rfl
    · rw [Consumes, hr', List.length_drop]
      omega
  · exact .inr ⟨[], .new, r, rfl, (Nat.eq_zero_of_not_pos hpos).symm,
      (congrArg (· + _) (Nat.eq_zero_of_not_pos hpos)).trans (Nat.zero_add _)⟩

variable {Φ : Type} {setup : Setup Φ}

theorem reject_left {remain : ℤ} {buffer : Buffer} {connection left : BufferedReader}
    {e e' : Error} {filter filter' : Option Φ}
    (h : (reject remain buffer connection e', filter') = (.rejected e left, filter)) :
    left.bytes = connection.bytes.drop (remain - buffer.len).toNat := by
  rw [reject] at h
  simp only [Prod.mk.injEq, Session.rejected.injEq] at h
  rw [← h.1.2, drainConnN_bytes]

/-- What is left of the connection when the destination, or the initial vector, is rejected. -/
theorem acceptRequest_left {filter filter' : Option Φ} {iv : Bytes} {remain : ℤ}
    {out : Outcome (Option Address × UInt16) × Buffer × NestedReader BodyReader} {e : Error}
    {left : BufferedReader}
    (h : acceptRequest setup filter iv remain out = (.rejected e left, filter')) :
    left.bytes = out.2.2.reader.connection.bytes.drop (remain - out.2.1.len).toNat := by
  rcases out with ⟨⟨_ | address, port⟩ | e' | _, buffer, br⟩
  · exact reject_left h
  · rw [acceptRequest] at h
    generalize checkIV setup filter iv = checked at h
    rcases checked with ⟨_ | ivError, filter''⟩
    · simp at h
    · exact reject_left h
  · exact reject_left h
  · simp [acceptRequest] at h

theorem readRequest_left {filter filter' : Option Φ} {iv : Bytes} {fuel : ℕ} {remain : ℤ}
    {br : NestedReader BodyReader} {e : Error} {left : BufferedReader}
    (h : readRequest setup filter iv fuel remain br = (.rejected e left, filter')) :
    ∃ out, addrParser.readAddressPortInto setup.parseIP
        (NestedReader.readInto BodyReader.readMultiBuffer fuel) (some .new) br = out ∧
      out.2.2.stuck = none ∧
      left.bytes = out.2.2.reader.connection.bytes.drop (remain - out.2.1.len).toNat := by
  refine ⟨_, rfl, ?_⟩
  rw [readRequest] at h
  generalize addrParser.readAddressPortInto setup.parseIP
    (NestedReader.readInto BodyReader.readMultiBuffer fuel) (some .new) br = out at h ⊢
  rcases hstuck : out.2.2.stuck with _ | _ | _ <;> rw [hstuck] at h
  · exact ⟨rfl, acceptRequest_left h⟩
  · simp at h
  · simp at h

/-- A check rejected a session of the account, whose connection has not come to its end. -/
structure Rejects (setup : Setup Φ) (account : MemoryAccount) (dice : Dice)
    (reader left : BufferedReader) : Prop where
  rejected : ∃ filter fuel pool e filter',
    readTCPSession setup dice account filter fuel pool reader = (.rejected e left, filter')
  long : left.bytes ≠ []

/-- Under an AEAD, more than the drain size is taken: the size of the first chunk, at least. -/
theorem decrypting_overspends {account : MemoryAccount} {c : AEADCipher}
    (hcipher : account.cipher = .aead c) (hiv : c.ivBytes ≤ bufSize) {dice : Dice}
    {reader left : BufferedReader} (h : Rejects setup account dice reader left) :
    (drainBehavior setup dice account).drainSize + left.bytes.length < reader.bytes.length := by
  obtain ⟨⟨filter, fuel, pool, e, filter', h⟩, hlong⟩ := h
  rw [readTCPSession, hcipher, Cipher.ivSize] at h
  rcases readIV_cases hiv reader with ⟨e', b, r', hread, hend⟩ | ⟨iv, b, r', hread, hlen, hr'⟩ <;>
    rw [hread] at h
  · exact absurd ((reject_left h).trans (by rw [hend, List.drop_nil])) hlong
  obtain ⟨out, hout, hstuck, hbytes⟩ := readRequest_left h
  have hspends := readDestination_spends setup.parseIP fuel rfl hout hstuck
  rcases hspends.2 with hend | hspent
  · exact absurd (hbytes.trans (by rw [hend, List.drop_nil])) hlong
  have hsize : 2 ≤ (c.chunkCodec setup.primitives account.key iv).sizeBytes :=
    (ChunkCodec.sizeBytes_le _).1
  have hcost : (c.chunkCodec setup.primitives account.key iv).sizeBytes + out.2.1.len +
      (MultiBuffer.bytes out.2.2.buffer).length + out.2.2.reader.connection.bytes.length ≤
      r'.bytes.length := by
    simpa [total, BodyReader.cost, AuthenticationReader.sizeCost, Cipher.newDecryptionReader,
      BodyReader.connection, Buffer.len, Nat.add_assoc] using hspent
  have hleft := congrArg List.length hbytes
  have hpos := List.length_pos_iff.2 hlong
  rw [List.length_drop, hlen] at hleft
  rw [Consumes] at hr'
  omega

/-- Without encryption, the drain size is taken if a read ends with the destination and the latter
    is not longer. -/
theorem plain_consumes_iff {account : MemoryAccount} (hcipher : account.cipher = .none)
    {dice : Dice} {reader left : BufferedReader} (h : Rejects setup account dice reader left) :
    Consumes reader (drainBehavior setup dice account).drainSize left ↔
      EndsAt reader (addrParser.destinationLen setup.parseIP reader.bytes) ∧
      addrParser.destinationLen setup.parseIP reader.bytes ≤
        (drainBehavior setup dice account).drainSize := by
  obtain ⟨⟨filter, fuel, pool, e, filter', h⟩, hlong⟩ := h
  rw [readTCPSession, hcipher] at h
  obtain ⟨out, hout, hstuck, hbytes⟩ := readRequest_left
    (show readRequest setup filter [] fuel
      ((drainBehavior setup dice account).drainSize - Buffer.new.len) ⟨[], .plain reader, none⟩ =
        (.rejected e left, filter') from h)
  have hlength : out.2.1.len = addrParser.destinationLen setup.parseIP reader.bytes := by
    refine (readDestination_length hout).resolve_left (not_or.2 ⟨not_not.2 hstuck, fun hend =>
      hlong ?_⟩)
    exact hbytes.trans ((congrArg _ hend).trans List.drop_nil)
  have hproceeds : Proceeds reader ⟨[], .plain reader, none⟩ out.2.1.bytes out.2.2 := by
    rw [← hout]
    exact Reading.Took.of_new
      (AddressParser.readBothInto_takes (readInto_proceeds reader fuel) .new _)
  obtain ⟨conn, read, hat⟩ := hproceeds 0 reader [] ⟨rfl, rfl, rfl, fun h => absurd rfl h⟩
  have hread := hat.length
  rw [Nat.zero_add, ← Buffer.len, hlength] at hread
  -- A read ends with the destination where nothing is at hand behind it.
  have hends : EndsAt reader (addrParser.destinationLen setup.parseIP reader.bytes) ↔
      (MultiBuffer.bytes out.2.2.buffer).length = 0 := by
    refine ⟨fun hend => by_contra fun hne => ?_, fun hnil => ⟨read, conn.reads, hat.reads, ?_⟩⟩
    · have hinside := hat.inside (fun hnil => hne (congrArg List.length hnil)) _ hend
      rw [Nat.zero_add, ← Buffer.len, hlength] at hinside
      omega
    · omega
  have htotal : reader.bytes.length =
      (read.flatMap MultiBuffer.bytes).length + conn.bytes.length := by
    rw [reader.bytes_eq_reads, hat.reads, List.flatMap_append, List.length_append,
      ← conn.bytes_eq_reads]
  have hleft := congrArg List.length hbytes
  have hpos := List.length_pos_iff.2 hlong
  rw [hat.reader, BodyReader.connection, List.length_drop, hlength] at hleft
  have hnew : Buffer.new.len = 0 := rfl
  rw [Consumes, hends]
  omega

/-- Two sessions of an account that are rejected, drawn for the same size: this size is taken from
    both connections exactly if neither is encrypted, and in each a read ends with the destination,
    which is not longer than the size. -/
theorem readTCPSession_uniform_iff (setup : Setup Φ) {t : CipherType} {account : MemoryAccount}
    (hcipher : getCipher setup.primitives t = .ok account.cipher) {dice dice' : Dice}
    {reader reader' left left' : BufferedReader} (h : Rejects setup account dice reader left)
    (h' : Rejects setup account dice' reader' left') {size : ℕ}
    (hsize : (drainBehavior setup dice account).drainSize = size)
    (hsize' : (drainBehavior setup dice' account).drainSize = size) :
    (Consumes reader size left ∧ Consumes reader' size left') ↔
      account.cipher = .none ∧
      (EndsAt reader (addrParser.destinationLen setup.parseIP reader.bytes) ∧
        addrParser.destinationLen setup.parseIP reader.bytes ≤ size) ∧
      (EndsAt reader' (addrParser.destinationLen setup.parseIP reader'.bytes) ∧
        addrParser.destinationLen setup.parseIP reader'.bytes ≤ size) := by
  rcases hnone : account.cipher with c | -
  · have hiv : c.ivBytes ≤ bufSize := by
      rw [hnone] at hcipher
      rcases t <;> rcases hcipher with ⟨⟩ <;> simp [bufSize]
    have hmore := decrypting_overspends hnone hiv h
    refine ⟨fun hsame => ?_, by simp⟩
    have hconsumes := hsame.1
    rw [Consumes, ← hsize] at hconsumes
    omega
  · have hplain := plain_consumes_iff hnone h
    have hplain' := plain_consumes_iff hnone h'
    rw [hsize] at hplain
    rw [hsize'] at hplain'
    rw [hplain, hplain']
    exact ⟨fun h => ⟨rfl, h⟩, fun h => h.2⟩

def exampleSetup : Setup Unit where
  primitives := examplePrimitives
  hmacSHA256 _ _ := []
  check filter _ := (true, filter)
  parseIP _ := none

/-- Nothing is drawn but zeros. -/
def zeroDice : Dice := ⟨fun _ _ _ => 0, fun _ => 0, fun _ _ _ h => h, fun _ h => h⟩

/-- An initial vector, a chunk of one byte, which is no type of an address, and zeros. -/
def probeBytes : Bytes := List.replicate 17 0 ++ [1] ++ List.replicate 116 0

/-- In two segments. -/
def probe (data : Bytes) (h : data.length ≤ bufSize) (n : ℕ) : BufferedReader :=
  ⟨[], [[⟨0, data.take n, by simp; omega⟩], [⟨0, data.drop n, by simp; omega⟩]], .eof⟩

theorem probeBytes_fits : probeBytes.length ≤ bufSize := by simp [probeBytes, bufSize]

set_option maxRecDepth 2000 in
/-- The same bytes, of which more are taken if the next chunk is at hand. Neither is the drain
    size. -/
theorem readTCPSession_not_uniform :
    getCipher exampleSetup.primitives .aes128Gcm = .ok exampleAccount.cipher ∧
    (drainBehavior exampleSetup zeroDice exampleAccount).drainSize = 54 ∧ ∃ left left',
      Rejects exampleSetup exampleAccount zeroDice (probe probeBytes probeBytes_fits 51) left ∧
      Rejects exampleSetup exampleAccount zeroDice (probe probeBytes probeBytes_fits 134) left' ∧
      Consumes (probe probeBytes probeBytes_fits 51) 88 left ∧
      Consumes (probe probeBytes probeBytes_fits 134) 106 left' ∧
      ¬ ∃ n, Consumes (probe probeBytes probeBytes_fits 51) n left ∧
        Consumes (probe probeBytes probeBytes_fits 134) n left' :=
  ⟨rfl, rfl, _, _, ⟨⟨none, 5, [], _, _, rfl⟩, by decide⟩, ⟨⟨none, 5, [], _, _, rfl⟩, by decide⟩,
    rfl, rfl, Consumes.not_same 88 106 (by decide) rfl rfl⟩

theorem zeros_fit : (List.replicate 100 (0 : UInt8)).length ≤ bufSize := by simp [bufSize]

/-- Nothing is encrypted, and a segment ends with the byte that is refused. -/
theorem readTCPSession_uniform_plain : ∃ left,
    Consumes (probe (List.replicate 100 0) zeros_fit 1) 54 left ∧
      Consumes (probe (List.replicate 100 0) zeros_fit 1) 54 left :=
  have hends : EndsAt (probe (List.replicate 100 0) zeros_fit 1) 1 :=
    ⟨[[⟨0, [0], by decide⟩]], _, rfl, rfl⟩
  have hrejects : Rejects exampleSetup ⟨.none, []⟩ zeroDice
      (probe (List.replicate 100 0) zeros_fit 1) _ :=
    ⟨⟨none, 5, [], _, _, rfl⟩, by decide⟩
  ⟨_, (readTCPSession_uniform_iff exampleSetup (t := .none) rfl hrejects hrejects rfl rfl).2
    ⟨rfl, ⟨hends, by decide⟩, hends, by decide⟩⟩

end Shadowsocks

end Gzv2ray
