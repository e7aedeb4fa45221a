import Gzv2ray.Crypto.AuthWriter
import Gzv2ray.Crypto.ChunkStream
import Gzv2ray.Net.AddressRoundTrip
import Gzv2ray.Vmess.Auth

/-!
# Reading the data of a frame

The data of a frame follow their length. Those of a stream are read as they come
(`newStreamReader`), those of a packet all at once (`PacketReader`). Either reader
leaves what follows the data to be read, once it has handed them over
(`PayloadReader.hands_stream`, `PayloadReader.hands_packet`).
-/

namespace Gzv2ray

namespace Mux

/-- The codec of the data: their size is in plain, and nothing is encrypted. -/
def plainChunks : ChunkCodec where
  auth := Vmess.withoutNonce Vmess.noOpAuthenticator
  sizeParser := .plain
  padding := false
  shake := fun _ => 0

structure PacketReader where
  reader : BufferedReader
  eof : Bool := false

def packetSizeTooLarge : Error := .new (ascii "packet size too large: ")

namespace PacketReader

/-- Reads a packet, and then the end. -/
def readMultiBuffer (r : PacketReader) : Outcome MultiBuffer × PacketReader :=
  if r.eof then (.error .eof, r)
  else
    match r.reader.readFull 2 with
    | (.error e, reader) => (.error e, { r with reader })
    | (.ok b, reader) =>
      let size := ofBigEndian b
      if size > bufSize then (.error packetSizeTooLarge, { r with reader })
      else
        match readFullFrom BufferedReader.readFull [] reader size with
        | (.error e, reader) => (.error e, { r with reader })
        | (.ok b, reader) => (.ok [(Buffer.new.write b).1], { reader, eof := true })

end PacketReader

/-- Reads a single chunk. -/
def newStreamReader (reader : BufferedReader) : ChunkStreamReader plainChunks :=
  { reader, maxNumChunk := 1 }

/-- The reader of the data of a session. -/
inductive PayloadReader
  | stream (r : ChunkStreamReader plainChunks)
  | packet (r : PacketReader)

namespace PayloadReader

/-- What is left to be read. -/
def reader : PayloadReader → BufferedReader
  | stream r => r.reader
  | packet r => r.reader

def readMultiBuffer : PayloadReader → Outcome MultiBuffer × PayloadReader
  | stream r => (r.readMultiBuffer.1, stream r.readMultiBuffer.2)
  | packet r => (r.readMultiBuffer.1, packet r.readMultiBuffer.2)

/-- The reader of a session of the given type. -/
def new (transferType : TransferType) (reader : BufferedReader) : PayloadReader :=
  match transferType with
  | .stream => stream (newStreamReader reader)
  | .packet => packet { reader }

/-- A bound on the reads up to the end of the data. -/
def fuel (r : PayloadReader) : ℕ := r.reader.weight + 2

/-! ## What the readers hand over -/

/-- The bytes are left, and then the rest. -/
def Leaves (rest : Bytes) (r : PayloadReader) (data : Bytes) : Prop := r.reader.bytes = data ++ rest

/-- In its last chunk, the reader of a stream hands over the bytes left. -/
theorem hands_left {n : ℕ} {r : ChunkStreamReader plainChunks} {data rest : Bytes}
    (hweight : r.reader.weight ≤ n) (hmax : r.maxNumChunk = 1) (hnum : r.numChunk = 1)
    (hleft : r.leftOverSize = data.length) (h : r.reader.bytes = data ++ rest) :
    ∃ k pieces r', k ≤ n + 1 ∧ Hands readMultiBuffer (Leaves rest) k (stream r) pieces .eof r' ∧
      pieces.flatMap MultiBuffer.bytes = data ∧ r'.reader.bytes = rest ∧
      r'.reader.reader.err = r.reader.reader.err := by
  induction n generalizing r data with
  | zero =>
    have hdata : data = [] := by
      have : r.reader.bytes.length = 0 := by rw [BufferedReader.weight] at hweight; omega
      rw [h, List.length_eq_zero_iff, List.append_eq_nil_iff] at this
      exact this.1
    subst hdata
    refine ⟨1, [], stream { r with numChunk := r.numChunk + 1 }, le_rfl, .error ?_, rfl, h, rfl⟩
    rw [readMultiBuffer, ChunkStreamReader.readMultiBuffer, if_pos (by simpa using hleft), hmax, hnum]
    rfl
  | succ n ih =>
    by_cases hdata : data = []
    · subst hdata
      refine ⟨1, [], stream { r with numChunk := r.numChunk + 1 }, by omega, .error ?_, rfl, h, rfl⟩
      rw [readMultiBuffer, ChunkStreamReader.readMultiBuffer, if_pos (by simpa using hleft), hmax,
        hnum]
      rfl
    · obtain ⟨mb, data', reader, hread, hsplit, hbytes, herr, hlt⟩ := r.readChunk_spec hleft hdata h
      obtain ⟨k, pieces, r', hk, hhands, hpieces, hrest, herr'⟩ :=
        ih (r := { r with reader, leftOverSize := data'.length })
          (Nat.le_of_lt_succ (hlt.trans_le hweight)) hmax hnum rfl hbytes
      have hleft' : r.leftOverSize ≠ 0 := by
        rw [hleft]
        exact (List.length_pos_iff.2 hdata).ne'
      have hread' : readMultiBuffer (stream r) =
          (.ok mb, stream { r with reader, leftOverSize := data'.length }) := by
        rw [readMultiBuffer, ChunkStreamReader.readMultiBuffer, if_neg hleft', hread]
      have hleaves : Leaves rest (stream { r with reader, leftOverSize := data'.length })
          (pieces.flatMap MultiBuffer.bytes) := by rw [hpieces]; exact hbytes
      by_cases hmb : MultiBuffer.isEmpty mb
      · refine ⟨k + 1, pieces, r', by omega, .skip hread' hmb hleaves hhands, ?_, hrest, herr'.trans herr⟩
        rw [MultiBuffer.isEmpty_iff] at hmb
        rw [hpieces, hsplit, hmb, List.nil_append]
      · refine ⟨k + 1, mb :: pieces, r', by omega, .piece hread' hmb hleaves hhands, ?_, hrest,
          herr'.trans herr⟩
        rw [List.flatMap_cons, hpieces, hsplit]

/-- The reader of a stream hands over the data and leaves what follows them. -/
theorem hands_stream {r : BufferedReader} {data rest : Bytes} (hlen : data.length < 65536)
    (h : r.bytes = bigEndian 2 data.length ++ data ++ rest) :
    ∃ k pieces r', k ≤ (new .stream r).fuel ∧
      Hands readMultiBuffer (Leaves rest) k (new .stream r) pieces .eof r' ∧
      pieces.flatMap MultiBuffer.bytes = data ∧ r'.reader.bytes = rest ∧
      r'.reader.reader.err = r.reader.err := by
  have h2 : (bigEndian 2 data.length).length = 2 := length_bigEndian _ _
  rw [List.append_assoc] at h
  obtain ⟨r₁, hread₁, hbytes₁, herr₁⟩ := r.readFull_ok (n := 2) (by rw [h]; simp)
  have hweight := r.weight_readFull_le 2
  rw [hread₁] at hweight
  rw [h, List.take_left' h2] at hread₁
  rw [h, List.drop_left' h2] at hbytes₁
  have hdecode : plainChunks.decodeSize {} (bigEndian 2 data.length) =
      (.ok (UInt16.ofNat data.length), {}) := by
    rw [ChunkCodec.decodeSize, plainChunks, ChunkCodec.uint16, List.take_of_length_le h2.le,
      ofBigEndian_bigEndian hlen]
  -- the size is read, and the chunk after it
  have hread : (newStreamReader r).readMultiBuffer =
      if UInt16.ofNat data.length = 0 then (.error .eof, ⟨r₁, {}, 0, 1, 1⟩)
      else ChunkStreamReader.readChunk ⟨r₁, {}, 0, 1, 1⟩ (UInt16.ofNat data.length).toNat :=
    (newStreamReader r).readMultiBuffer_next rfl (show ¬ ((1 : UInt32) > 0 ∧ (0 : UInt32) + 1 > 1)
      by decide) hread₁ hdecode
  have htoNat : (UInt16.ofNat data.length).toNat = data.length := UInt16.toNat_ofNat_of_lt' hlen
  by_cases hdata : data = []
  · subst hdata
    refine ⟨1, [], stream ⟨r₁, {}, 0, 1, 1⟩, Nat.succ_le_succ (Nat.zero_le _), .error ?_, rfl,
      hbytes₁, herr₁⟩
    rw [new, readMultiBuffer, hread]
    rfl
  · have hne : UInt16.ofNat data.length ≠ 0 := by
      rw [ne_eq, ← UInt16.toNat_inj, htoNat]
      simpa using hdata
    obtain ⟨mb, data', reader, hchunk, hsplit, hbytes, herr, hlt⟩ :=
      ChunkStreamReader.readChunk_spec (⟨r₁, {}, 0, 1, 1⟩ : ChunkStreamReader plainChunks) htoNat
        hdata hbytes₁
    obtain ⟨k, pieces, r', hk, hhands, hpieces, hrest, herr'⟩ := hands_left
      (r := ⟨reader, {}, data'.length, 1, 1⟩) le_rfl rfl rfl rfl hbytes
    have hfuel : k + 1 ≤ (new .stream r).fuel := by
      have : reader.weight < r₁.weight := hlt
      change k + 1 ≤ r.weight + 2
      change k ≤ reader.weight + 1 at hk
      dsimp only at hweight
      omega
    have hread' : readMultiBuffer (new .stream r) =
        (.ok mb, stream ⟨reader, {}, data'.length, 1, 1⟩) := by
      rw [new, readMultiBuffer, hread, if_neg hne, hchunk]
    have hleaves : Leaves rest (stream ⟨reader, {}, data'.length, 1, 1⟩)
        (pieces.flatMap MultiBuffer.bytes) := by rw [hpieces]; exact hbytes
    by_cases hmb : MultiBuffer.isEmpty mb
    · refine ⟨k + 1, pieces, r', hfuel, .skip hread' hmb hleaves hhands, ?_, hrest,
        herr'.trans (herr.trans herr₁)⟩
      rw [MultiBuffer.isEmpty_iff] at hmb
      rw [hpieces, hsplit, hmb, List.nil_append]
    · refine ⟨k + 1, mb :: pieces, r', hfuel, .piece hread' hmb hleaves hhands, ?_, hrest,
        herr'.trans (herr.trans herr₁)⟩
      rw [List.flatMap_cons, hpieces, hsplit]

/-- The reader of a packet hands it over, if it is not empty, and leaves what follows
    it. -/
theorem hands_packet {r : BufferedReader} {data rest : Bytes} (hlen : data.length ≤ bufSize)
    (h : r.bytes = bigEndian 2 data.length ++ data ++ rest) :
    ∃ r', Hands readMultiBuffer (Leaves rest) 2 (new .packet r)
        (if data = [] then [] else [[(Buffer.new.write data).1]]) .eof r' ∧
      r'.reader.bytes = rest ∧ r'.reader.reader.err = r.reader.err := by
  have h2 : (bigEndian 2 data.length).length = 2 := length_bigEndian _ _
  have hlt : data.length < 256 ^ 2 := lt_of_le_of_lt hlen (by decide)
  rw [List.append_assoc] at h
  obtain ⟨r₁, hread₁, hbytes₁, herr₁⟩ := r.readFull_ok (n := 2) (by rw [h]; simp)
  rw [h, List.take_left' h2] at hread₁
  rw [h, List.drop_left' h2] at hbytes₁
  obtain ⟨r₂, hread₂, hbytes₂, herr₂⟩ := (feeds_bufferedReader r₁.reader.err).readFullFrom
    (b := []) ⟨hbytes₁, rfl⟩ rfl (by simpa using hlen)
  have hread : readMultiBuffer (new .packet r) =
      (.ok [(Buffer.new.write data).1], packet ⟨r₂, true⟩) := by
    rw [new, readMultiBuffer, PacketReader.readMultiBuffer, if_neg Bool.false_ne_true, hread₁]
    dsimp only
    rw [ofBigEndian_bigEndian hlt, if_neg (not_lt.2 hlen), hread₂]
    rfl
  have hend : readMultiBuffer (packet ⟨r₂, true⟩) = (.error .eof, packet ⟨r₂, true⟩) := rfl
  have hbytes : MultiBuffer.bytes [(Buffer.new.write data).1] = data := by
    simp [Buffer.write_new data hlen]
  refine ⟨packet ⟨r₂, true⟩, ?_, hbytes₂, herr₂.trans herr₁⟩
  split
  · rename_i hdata
    exact .skip hread (by rw [MultiBuffer.isEmpty_iff, hbytes, hdata]) hbytes₂ (.error hend)
  · rename_i hdata
    exact .piece hread (by rwa [MultiBuffer.isEmpty_iff, hbytes]) hbytes₂ (.error hend)

end PayloadReader

end Mux

end Gzv2ray
