import Gzv2ray.Buf.Returns
import Gzv2ray.Crypto.ChunkStream

/-!
# Round trips of chunked streams

A `ChunkStreamWriter` cuts what it is given into slices of at most 8192 bytes, and writes each
behind its size. How sizes are encoded is up to a `ChunkSizeParser`, which may keep a state.

`chunkRoundTrip_iff`: what was written is read again, up to the chunk that ends the stream or the
number of chunks to be read, exactly if

* an encoded size fits in a buffer,
* the length of no `MultiBuffer` wraps around so that the writer makes room for a negative number
  of buffers, and
* the count of the chunks does not wrap around before it is above its bound.
-/

namespace Gzv2ray

/-- What encodes and decodes sizes, in step. -/
structure ChunkSizeParser (κ : Type) where
  sizeBytes : ℕ
  encode : κ → UInt16 → Bytes × κ
  decode : κ → Bytes → Outcome UInt16 × κ

namespace ChunkSizeParser

variable {κ : Type} (p : ChunkSizeParser κ)

/-- Decoding inverts encoding. -/
structure IsInverse : Prop where
  length (st size) : (p.encode st size).1.length = p.sizeBytes
  decode (st size) : p.decode st (p.encode st size).1 = (.ok size, (p.encode st size).2)

/-! ## The writer -/

def sliceSize : ℕ := 8192

/-- The number of buffers to make room for, from the length as a number of 32 bits. -/
def capacity (mb : MultiBuffer) : ℤ :=
  let mbLen := int32 (MultiBuffer.len mb)
  mbLen.tdiv bufSize + mbLen.tdiv sliceSize + 2

/-- The loop of the writer: each slice is put behind its size. An iteration takes at least a
    buffer, which bounds their number. -/
def sliceLoop : ℕ → κ → MultiBuffer → Outcome MultiBuffer × κ
  | 0, st, _ => (.ok [], st)
  | fuel + 1, st, mb =>
    let (mb, slice) := MultiBuffer.splitSize mb sliceSize
    -- a buffer is not extended beyond its size
    if p.sizeBytes > bufSize then (.panic, st)
    else
      let (size, st) := p.encode st (UInt16.ofNat (MultiBuffer.len slice))
      let b := (Buffer.new.write size).1
      if MultiBuffer.isEmpty mb then (.ok (b :: slice), st)
      else
        match sliceLoop fuel st mb with
        | (.ok mb2Write, st) => (.ok (b :: slice ++ mb2Write), st)
        | r => r

/-- What is handed to the writer below. -/
def writeMultiBuffer (st : κ) (mb : MultiBuffer) : Outcome MultiBuffer × κ :=
  if capacity mb < 0 then (.panic, st) else p.sliceLoop (mb.length + 1) st mb

/-- The bytes of a write, and then of others. -/
def andThen (written : Outcome MultiBuffer × κ) (next : κ → Outcome Bytes × κ) :
    Outcome Bytes × κ :=
  match written with
  | (.ok out, st) =>
    match next st with
    | (.ok out', st) => (.ok (MultiBuffer.bytes out ++ out'), st)
    | r => r
  | (.error e, st) => (.error e, st)
  | (.panic, st) => (.panic, st)

/-- The bytes of several writes. -/
def writes : κ → List MultiBuffer → Outcome Bytes × κ
  | st, [] => (.ok [], st)
  | st, mb :: mbs => andThen (p.writeMultiBuffer st mb) fun st => writes st mbs

end ChunkSizeParser

/-! ## The reader -/

/-- The reader of a stream whose sizes some parser decodes. -/
structure StreamReader (κ : Type) where
  reader : BufferedReader
  st : κ
  leftOverSize : ℕ := 0
  /-- The number of chunks to be read, if it is not zero. -/
  maxNumChunk : UInt32
  numChunk : UInt32 := 0

namespace StreamReader

variable {κ : Type} (p : ChunkSizeParser κ) (r : StreamReader κ)

/-- Reads from a chunk of which as many bytes are left. -/
def readChunk (size : ℕ) : Outcome MultiBuffer × StreamReader κ :=
  match r.reader.readAtMost size with
  | (.ok mb, reader) =>
    if !MultiBuffer.isEmpty mb then
      (.ok mb, { r with reader, leftOverSize := size - MultiBuffer.len mb })
    else (.ok [], { r with reader, leftOverSize := size })
  | (.error e, reader) => (.error e, { r with reader, leftOverSize := size })

def readMultiBuffer : Outcome MultiBuffer × StreamReader κ :=
  if r.leftOverSize = 0 then
    let r := { r with numChunk := r.numChunk + 1 }
    if r.maxNumChunk > 0 ∧ r.numChunk > r.maxNumChunk then (.error .eof, r)
    else
      match r.reader.readFull p.sizeBytes with
      | (.error e, reader) => (.error e, { r with reader })
      | (.ok b, reader) =>
        match p.decode r.st b with
        | (.ok size, st) =>
          if size = 0 then (.error .eof, { r with reader, st })
          else readChunk { r with reader, st } size.toNat
        | (.error e, st) => (.error e, { r with reader, st })
        | (.panic, st) => (.panic, { r with reader, st })
  else r.readChunk r.leftOverSize

end StreamReader

/-! ### The size parsers of encrypted streams -/

/-- Sizes as they are, in two bytes. -/
def plainChunkSizeParser : ChunkSizeParser Unit where
  sizeBytes := 2
  encode st size := (ChunkCodec.putUint16 size, st)
  decode st b := (.ok (ChunkCodec.uint16 b), st)

theorem plainChunkSizeParser_isInverse : plainChunkSizeParser.IsInverse where
  length _ size := ChunkCodec.length_putUint16 size
  decode _ size := by
    have h := ChunkCodec.uint16_putUint16 size []
    rw [List.append_nil] at h
    exact congrArg (fun size => (Outcome.ok size, ())) h

namespace ChunkCodec

variable (c : ChunkCodec)

/-- The codec of the sizes alone. A size that cannot be encoded is a panic: it is not written. -/
def parser : ChunkSizeParser CodecState where
  sizeBytes := c.sizeBytes
  encode st size :=
    match c.encodeSize st size with
    | (.ok b, st) => (b, st)
    | (_, st) => ([], st)
  decode := c.decodeSize

theorem parser_isInverse {c : ChunkCodec} (h : c.Lawful) : c.parser.IsInverse where
  length st size := by
    obtain ⟨b, st', hencode, hlength, -⟩ := c.decodeSize_encodeSize h st size
    simp only [parser, hencode]
    exact hlength
  decode st size := by
    obtain ⟨b, st', hencode, -, hdecode⟩ := c.decodeSize_encodeSize h st size
    simp only [parser, hencode]
    exact hdecode

end ChunkCodec

namespace ChunkStreamReader

variable {c : ChunkCodec} (r : ChunkStreamReader c)

/-- The reader, for its size parser. -/
def toStream : StreamReader CodecState :=
  ⟨r.reader, r.st, r.leftOverSize, r.maxNumChunk, r.numChunk⟩

theorem toStream_readChunk (size : ℕ) :
    r.toStream.readChunk size = ((r.readChunk size).1, (r.readChunk size).2.toStream) := by
  rw [StreamReader.readChunk, readChunk, toStream]
  dsimp only
  rcases r.reader.readAtMost size with ⟨e | mb, reader⟩
  · rfl
  · dsimp only
    split
    · rfl
    · rfl

theorem toStream_readMultiBuffer :
    r.toStream.readMultiBuffer c.parser = (r.readMultiBuffer.1, r.readMultiBuffer.2.toStream) := by
  rw [StreamReader.readMultiBuffer, readMultiBuffer]
  by_cases hleft : r.leftOverSize = 0
  · rw [if_pos hleft, if_pos (show r.toStream.leftOverSize = 0 from hleft)]
    dsimp only [toStream]
    split
    · rfl
    · rw [show c.parser.sizeBytes = c.sizeBytes from rfl]
      rcases r.reader.readFull c.sizeBytes with ⟨e | b, reader⟩
      · rfl
      · dsimp only
        rw [show c.parser.decode = c.decodeSize from rfl]
        rcases c.decodeSize r.st b with ⟨size | e | -, st⟩
        · dsimp only
          split
          · rfl
          · exact toStream_readChunk ⟨reader, st, r.leftOverSize, r.maxNumChunk, r.numChunk + 1⟩ _
        · rfl
        · rfl
  · rw [if_neg hleft, if_neg (show ¬ r.toStream.leftOverSize = 0 from hleft)]
    exact toStream_readChunk _ _

end ChunkStreamReader

/-! ## Slices -/

namespace MultiBuffer

/-- Where the first buffers are empty, there is room for all. -/
theorem splitSizeLoop_eq_nil {mb : MultiBuffer} {n : ℕ} (hn : bufSize ≤ n)
    (h : bytes (splitSizeLoop mb n).2 = []) : bytes (splitSizeLoop mb n).1 = [] := by
  induction mb with
  | nil => rfl
  | cons b mb ih =>
    have hb : b.len ≤ n := b.len_le.trans hn
    rw [splitSizeLoop, if_pos hb] at h ⊢
    dsimp only at h ⊢
    rw [bytes_cons, List.append_eq_nil_iff] at h
    have hlen : b.len = 0 := congrArg List.length h.1
    rw [hlen, Nat.sub_zero] at h ⊢
    exact ih h.2

end MultiBuffer

namespace ChunkSizeParser

variable {κ : Type} (p : ChunkSizeParser κ)

/-- The bytes of the slices that the writer makes. -/
def slices : ℕ → MultiBuffer → List Bytes
  | 0, _ => []
  | fuel + 1, mb =>
    let (mb, slice) := MultiBuffer.splitSize mb sliceSize
    MultiBuffer.bytes slice :: if MultiBuffer.isEmpty mb then [] else slices fuel mb

/-- All chunks of several writes. -/
def chunks (mbs : List MultiBuffer) : List Bytes := mbs.flatMap fun mb => slices (mb.length + 1) mb

/-- A slice takes a buffer at least, and content if there is any. -/
theorem splitSize_slice (mb : MultiBuffer) :
    (MultiBuffer.bytes (MultiBuffer.splitSize mb sliceSize).2 = [] →
      MultiBuffer.bytes (MultiBuffer.splitSize mb sliceSize).1 = []) ∧
    (mb ≠ [] → (MultiBuffer.splitSize mb sliceSize).1.length < mb.length) := by
  rcases mb with - | ⟨b, mb⟩
  · exact ⟨fun _ => rfl, fun h => absurd rfl h⟩
  · have hb : ¬ sliceSize < b.len := by
      have := b.len_le
      rw [bufSize] at this
      rw [sliceSize, Buffer.len]
      omega
    rw [MultiBuffer.splitSize, dif_neg hb]
    refine ⟨MultiBuffer.splitSizeLoop_eq_nil (by decide), fun _ => ?_⟩
    have hlen := MultiBuffer.splitSizeLoop_length (b :: mb) sliceSize
    rw [MultiBuffer.splitSizeLoop, if_pos (not_lt.1 hb)] at hlen ⊢
    dsimp only at hlen ⊢
    rw [List.length_cons] at hlen
    omega

theorem slices_spec {fuel : ℕ} {mb : MultiBuffer} (hfuel : mb.length < fuel) :
    (slices fuel mb).flatten = MultiBuffer.bytes mb ∧
      (∀ slice ∈ slices fuel mb, slice.length ≤ sliceSize) ∧
      (MultiBuffer.isEmpty mb = false → ∀ slice ∈ slices fuel mb, slice ≠ []) ∧
      (MultiBuffer.isEmpty mb → slices fuel mb = [[]]) := by
  induction fuel generalizing mb with
  | zero => exact absurd hfuel (Nat.not_lt_zero _)
  | succ fuel ih =>
    obtain ⟨hcontent, hless⟩ := splitSize_slice mb
    have hbytes := MultiBuffer.splitSize_bytes mb sliceSize
    have hlen := MultiBuffer.splitSize_len mb sliceSize
    rw [slices]
    dsimp only
    generalize MultiBuffer.splitSize mb sliceSize = t at hcontent hless hbytes hlen ⊢
    obtain ⟨rest, slice⟩ := t
    dsimp only at hcontent hless hbytes hlen ⊢
    by_cases hrest : MultiBuffer.isEmpty rest
    · have hnil := (MultiBuffer.isEmpty_iff rest).1 hrest
      rw [hnil, List.append_nil] at hbytes
      rw [if_pos hrest, hbytes]
      refine ⟨by simp, ?_, fun hne => ?_, fun hempty => ?_⟩
      · intro s hs
        rw [List.mem_singleton.1 hs, ← hbytes]
        exact hlen
      · intro s hs
        rw [List.mem_singleton.1 hs]
        exact (MultiBuffer.isEmpty_eq_false_iff mb).1 hne
      · rw [(MultiBuffer.isEmpty_iff mb).1 hempty]
    · have hne : mb ≠ [] := by
        rintro rfl
        rw [MultiBuffer.bytes_nil, List.append_eq_nil_iff] at hbytes
        exact hrest ((MultiBuffer.isEmpty_iff rest).2 hbytes.2)
      have hfalse := Bool.eq_false_of_not_eq_true hrest
      have hrest' := (MultiBuffer.isEmpty_eq_false_iff rest).1 hfalse
      obtain ⟨hflatten, hshort, hslices, -⟩ := ih
        (show rest.length < fuel from Nat.lt_of_lt_of_le (hless hne) (Nat.le_of_lt_succ hfuel))
      rw [if_neg hrest]
      refine ⟨by rw [List.flatten_cons, hflatten, hbytes], ?_, fun _ => ?_, fun hempty => ?_⟩
      · exact List.forall_mem_cons.2 ⟨hlen, hshort⟩
      · exact List.forall_mem_cons.2 ⟨fun h => hrest' (hcontent h), hslices hfalse⟩
      · rw [(MultiBuffer.isEmpty_iff mb).1 hempty, List.append_eq_nil_iff] at hbytes
        exact absurd hbytes.2 hrest'

/-! ## What is written -/

/-- The bytes of chunks, each behind its size. -/
def encodeAll : κ → List Bytes → Bytes × κ
  | st, [] => ([], st)
  | st, chunk :: chunks =>
    let (size, st) := p.encode st (UInt16.ofNat chunk.length)
    let (out, st) := encodeAll st chunks
    (size ++ chunk ++ out, st)

theorem encodeAll_append (st : κ) (l l' : List Bytes) :
    p.encodeAll st (l ++ l') = ((p.encodeAll st l).1 ++ (p.encodeAll (p.encodeAll st l).2 l').1,
      (p.encodeAll (p.encodeAll st l).2 l').2) := by
  induction l generalizing st with
  | nil => rfl
  | cons chunk l ih =>
    rw [List.cons_append, encodeAll, encodeAll]
    dsimp only
    rw [ih]
    simp only [List.append_assoc]

variable {p}

theorem sliceLoop_spec (hp : p.IsInverse) (hsize : p.sizeBytes ≤ bufSize) {fuel : ℕ}
    {mb : MultiBuffer} (hfuel : mb.length < fuel) (st : κ) :
    ∃ out, p.sliceLoop fuel st mb = (.ok out, (p.encodeAll st (slices fuel mb)).2) ∧
      MultiBuffer.bytes out = (p.encodeAll st (slices fuel mb)).1 := by
  induction fuel generalizing st mb with
  | zero => exact absurd hfuel (Nat.not_lt_zero _)
  | succ fuel ih =>
    have hless := (splitSize_slice mb).2
    have hbytes := MultiBuffer.splitSize_bytes mb sliceSize
    rw [sliceLoop, slices]
    dsimp only
    generalize MultiBuffer.splitSize mb sliceSize = t at hless hbytes ⊢
    obtain ⟨rest, slice⟩ := t
    dsimp only at hless hbytes ⊢
    have hlength := hp.length st (UInt16.ofNat (MultiBuffer.len slice))
    have hwrite : (Buffer.new.write (p.encode st (UInt16.ofNat (MultiBuffer.len slice))).1).1.bytes =
        (p.encode st (UInt16.ofNat (MultiBuffer.len slice))).1 :=
      Buffer.write_new _ (hlength.trans_le hsize)
    rw [if_neg (not_lt.2 hsize)]
    rw [MultiBuffer.len_eq] at hwrite ⊢
    by_cases hrest : MultiBuffer.isEmpty rest
    · rw [if_pos hrest, if_pos hrest]
      refine ⟨_, rfl, ?_⟩
      rw [MultiBuffer.bytes_cons, hwrite]
      exact (List.append_nil _).symm
    · have hne : mb ≠ [] := by
        rintro rfl
        rw [MultiBuffer.bytes_nil, List.append_eq_nil_iff] at hbytes
        exact hrest ((MultiBuffer.isEmpty_iff rest).2 hbytes.2)
      obtain ⟨out, hloop, hout⟩ := ih
        (show rest.length < fuel from Nat.lt_of_lt_of_le (hless hne) (Nat.le_of_lt_succ hfuel))
        (p.encode st (UInt16.ofNat (MultiBuffer.bytes slice).length)).2
      rw [if_neg hrest, if_neg hrest, hloop]
      refine ⟨_, rfl, ?_⟩
      rw [MultiBuffer.bytes_append, MultiBuffer.bytes_cons, hwrite, hout, encodeAll]

theorem writes_spec (hp : p.IsInverse) (hsize : p.sizeBytes ≤ bufSize) {mbs : List MultiBuffer}
    (hcapacity : ∀ mb ∈ mbs, 0 ≤ capacity mb) (st : κ) :
    p.writes st mbs = (.ok (p.encodeAll st (chunks mbs)).1, (p.encodeAll st (chunks mbs)).2) := by
  induction mbs generalizing st with
  | nil => rfl
  | cons mb mbs ih =>
    obtain ⟨hmb, hmbs⟩ := List.forall_mem_cons.1 hcapacity
    obtain ⟨out, hloop, hout⟩ := sliceLoop_spec hp hsize (Nat.lt_succ_self mb.length) st
    have hchunks : chunks (mb :: mbs) = slices (mb.length + 1) mb ++ chunks mbs :=
      List.flatMap_cons
    rw [writes, writeMultiBuffer, if_neg (not_lt.2 hmb), hloop, andThen, ih hmbs, hchunks,
      encodeAll_append, hout]

theorem of_andThen_eq_ok {written : Outcome MultiBuffer × κ} {next : κ → Outcome Bytes × κ}
    {out : Bytes} {st' : κ} (h : andThen written next = (.ok out, st')) :
    ∃ out₁ st₁ out₂, written = (.ok out₁, st₁) ∧ next st₁ = (.ok out₂, st') := by
  obtain ⟨out₁ | e | -, st₁⟩ := written
  · rcases hnext : next st₁ with ⟨out₂ | e | -, st₂⟩
    · rw [andThen, hnext] at h
      cases h
      exact ⟨out₁, st₁, out₂, rfl, hnext⟩
    · rw [andThen, hnext] at h
      cases h
    · rw [andThen, hnext] at h
      cases h
  · cases h
  · cases h

/-- What does not fit in a buffer cannot be written, and neither can what wraps around. -/
theorem of_writes_eq_ok {mbs : List MultiBuffer} {st st' : κ} {out : Bytes}
    (h : p.writes st mbs = (.ok out, st')) :
    ∀ mb ∈ mbs, p.sizeBytes ≤ bufSize ∧ 0 ≤ capacity mb := by
  induction mbs generalizing st st' out with
  | nil => exact fun mb hmb => absurd hmb List.not_mem_nil
  | cons mb mbs ih =>
    obtain ⟨out₁, st₁, out₂, hwrite, hrest⟩ := of_andThen_eq_ok h
    refine List.forall_mem_cons.2 ⟨?_, ih hrest⟩
    rw [writeMultiBuffer] at hwrite
    by_cases hcapacity : capacity mb < 0
    · rw [if_pos hcapacity] at hwrite
      cases hwrite
    · refine ⟨not_lt.1 fun hsize => ?_, not_lt.1 hcapacity⟩
      rw [if_neg hcapacity, sliceLoop] at hwrite
      dsimp only at hwrite
      rw [if_pos hsize] at hwrite
      cases hwrite

end ChunkSizeParser

/-! ## What is read -/

namespace StreamReader

variable {κ : Type} {p : ChunkSizeParser κ} {r : StreamReader κ} {G : StreamReader κ → Prop}

/-- The next chunk is not above the number of chunks to be read. -/
def Goes (maxNumChunk numChunk : UInt32) : Prop :=
  ¬ (maxNumChunk > 0 ∧ numChunk + 1 > maxNumChunk)

/-- The reader is between chunks. -/
structure IsReady (r : StreamReader κ) (maxNumChunk numChunk : UInt32) (st : κ) (tail : Bytes) :
    Prop where
  left : r.leftOverSize = 0
  st : r.st = st
  max : r.maxNumChunk = maxNumChunk
  num : r.numChunk = numChunk
  bytes : r.reader.bytes = tail

/-- The reader returns some bytes, and then the end, where the condition holds. -/
def Reads (p : ChunkSizeParser κ) (r : StreamReader κ) (b : Bytes) (G : StreamReader κ → Prop) :
    Prop :=
  ∃ n pieces r', Hands (readMultiBuffer p) (fun _ _ => True) n r pieces .eof r' ∧
    pieces.flatMap MultiBuffer.bytes = b ∧ G r'

/-- Calls that return some of the bytes are followed by others. -/
theorem Reads.of_passes {mb : MultiBuffer} {r' : StreamReader κ} {b : Bytes}
    (hpasses : Passes (readMultiBuffer p) r mb r') (h : Reads p r' b G) :
    Reads p r (MultiBuffer.bytes mb ++ b) G := by
  induction hpasses with
  | nil => exact h
  | @cons r r' _ mb mb' hread _ ih =>
    obtain ⟨n, pieces, r'', hhands, hpieces, hG⟩ := ih h
    rw [MultiBuffer.bytes_append, List.append_assoc]
    by_cases hmb : MultiBuffer.isEmpty mb
    · rw [(MultiBuffer.isEmpty_iff mb).1 hmb, List.nil_append]
      exact ⟨n + 1, pieces, r'', .skip hread hmb trivial hhands, hpieces, hG⟩
    · exact ⟨n + 1, mb :: pieces, r'', .piece hread hmb trivial hhands,
        by rw [List.flatMap_cons, hpieces], hG⟩

theorem readChunk_spec {data tail : Bytes} (hpos : data ≠ [])
    (h : r.reader.bytes = data ++ tail) :
    ∃ mb data' reader, r.readChunk data.length =
        (.ok mb, { r with reader, leftOverSize := data'.length }) ∧
      data = MultiBuffer.bytes mb ++ data' ∧ reader.bytes = data' ++ tail ∧
      reader.reader.err = r.reader.reader.err ∧ reader.weight < r.reader.weight := by
  obtain ⟨mb, data', reader, hread, hdata, hbytes, herr, hweight⟩ :=
    r.reader.readAtMost_prefix hpos h
  rw [readChunk, hread]
  dsimp only
  by_cases hmb : MultiBuffer.bytes mb = []
  · rw [hmb, List.nil_append] at hdata
    subst hdata
    exact ⟨[], data, reader, by rw [if_neg (by simp [hmb])], rfl, hbytes, herr, hweight⟩
  · refine ⟨mb, data', reader, ?_, hdata, hbytes, herr, hweight⟩
    rw [if_pos (by simp [hmb]), hdata, MultiBuffer.len_eq, List.length_append,
      Nat.add_sub_cancel_left]

/-- The bytes left of a chunk are returned. -/
theorem passes_left {data tail : Bytes} (n : ℕ) (hweight : r.reader.weight ≤ n)
    (hleft : r.leftOverSize = data.length) (h : r.reader.bytes = data ++ tail) :
    ∃ mb r', Passes (readMultiBuffer p) r mb r' ∧ MultiBuffer.bytes mb = data ∧
      IsReady r' r.maxNumChunk r.numChunk r.st tail ∧
      r'.reader.reader.err = r.reader.reader.err := by
  induction n generalizing r data with
  | zero =>
    have hdata : data = [] := by
      have : r.reader.bytes.length = 0 := by rw [BufferedReader.weight] at hweight; omega
      rw [h, List.length_eq_zero_iff, List.append_eq_nil_iff] at this
      exact this.1
    subst hdata
    exact ⟨[], r, .nil r, rfl, ⟨hleft, rfl, rfl, rfl, h⟩, rfl⟩
  | succ n ih =>
    by_cases hdata : data = []
    · subst hdata
      exact ⟨[], r, .nil r, rfl, ⟨hleft, rfl, rfl, rfl, h⟩, rfl⟩
    · obtain ⟨mb, data', reader, hread, hsplit, hbytes, herr, hlt⟩ := readChunk_spec hdata h
      have hleft' : r.leftOverSize ≠ 0 := by
        rw [hleft]
        exact (List.length_pos_iff.2 hdata).ne'
      have hread' : r.readMultiBuffer p =
          (.ok mb, { r with reader, leftOverSize := data'.length }) := by
        rw [readMultiBuffer, if_neg hleft', hleft, hread]
      obtain ⟨mb', r', hpasses, hmb', hready, herr'⟩ :=
        ih (r := { r with reader, leftOverSize := data'.length })
          (Nat.le_of_lt_succ (hlt.trans_le hweight)) rfl hbytes
      exact ⟨mb ++ mb', r', .cons hread' hpasses, by rw [MultiBuffer.bytes_append, hmb', hsplit],
        hready, herr'.trans herr⟩

/-- The size of the next chunk is read, if there is to be one. -/
theorem readMultiBuffer_size (hp : p.IsInverse) {maxNumChunk numChunk : UInt32} {st : κ}
    {size : UInt16} {tail : Bytes}
    (h : r.IsReady maxNumChunk numChunk st ((p.encode st size).1 ++ tail))
    (hgoes : Goes maxNumChunk numChunk) :
    ∃ reader, reader.bytes = tail ∧ reader.reader.err = r.reader.reader.err ∧
      r.readMultiBuffer p =
        if size = 0 then
          (.error .eof, ⟨reader, (p.encode st size).2, 0, maxNumChunk, numChunk + 1⟩)
        else readChunk ⟨reader, (p.encode st size).2, 0, maxNumChunk, numChunk + 1⟩ size.toNat := by
  obtain ⟨hleft, hst, hmax, hnum, hbytes⟩ := h
  have hlength := hp.length st size
  obtain ⟨reader, hread, hreader, herr⟩ := r.reader.readFull_ok (n := p.sizeBytes)
    (by rw [hbytes, List.length_append, hlength]; omega)
  rw [hbytes, List.take_left' hlength] at hread
  rw [hbytes, List.drop_left' hlength] at hreader
  refine ⟨reader, hreader, herr, ?_⟩
  obtain ⟨conn, st', left, max, num⟩ := r
  dsimp only at hleft hst hmax hnum hread
  subst hleft hst hmax hnum
  rw [readMultiBuffer, if_pos rfl]
  dsimp only
  rw [if_neg hgoes, hread]
  dsimp only
  rw [hp.decode]

/-- A chunk is returned. -/
theorem passes_chunk (hp : p.IsInverse) {maxNumChunk numChunk : UInt32} {st : κ}
    {chunk tail : Bytes} (hchunk : chunk ≠ []) (hlen : chunk.length < 2 ^ 16)
    (h : r.IsReady maxNumChunk numChunk st
      ((p.encode st (UInt16.ofNat chunk.length)).1 ++ chunk ++ tail))
    (hgoes : Goes maxNumChunk numChunk) :
    ∃ mb r', Passes (readMultiBuffer p) r mb r' ∧ MultiBuffer.bytes mb = chunk ∧
      IsReady r' maxNumChunk (numChunk + 1) (p.encode st (UInt16.ofNat chunk.length)).2 tail ∧
      r'.reader.reader.err = r.reader.reader.err := by
  rw [List.append_assoc] at h
  obtain ⟨reader, hreader, herr, hread⟩ := readMultiBuffer_size hp h hgoes
  have htoNat : (UInt16.ofNat chunk.length).toNat = chunk.length :=
    UInt16.toNat_ofNat_of_lt' hlen
  have hne : UInt16.ofNat chunk.length ≠ 0 := by
    rw [ne_eq, ← UInt16.toNat_inj, htoNat]
    simpa using hchunk
  rw [if_neg hne, htoNat] at hread
  obtain ⟨mb, data', reader', hread', hsplit, hbytes, herr', -⟩ := readChunk_spec
    (r := ⟨reader, (p.encode st (UInt16.ofNat chunk.length)).2, 0, maxNumChunk, numChunk + 1⟩)
    hchunk hreader
  rw [hread'] at hread
  obtain ⟨mb', r', hpasses, hmb', hready, herr''⟩ := passes_left (p := p)
    (r := ⟨reader', (p.encode st (UInt16.ofNat chunk.length)).2, data'.length, maxNumChunk,
      numChunk + 1⟩) _ le_rfl rfl hbytes
  exact ⟨mb ++ mb', r', .cons hread hpasses, by rw [MultiBuffer.bytes_append, hmb', hsplit], hready,
    herr''.trans (herr'.trans herr)⟩

/-- Chunks are returned one after the other, as long as the number of chunks to be read is not
    above. -/
theorem passes_chunks (hp : p.IsInverse) {maxNumChunk : UInt32} (chunks : List Bytes)
    (hchunks : ∀ chunk ∈ chunks, chunk ≠ [] ∧ chunk.length < 2 ^ 16) {k : ℕ} {st : κ}
    {tail : Bytes} (hgoes : ∀ j < chunks.length, Goes maxNumChunk (UInt32.ofNat (k + j)))
    (h : r.IsReady maxNumChunk (UInt32.ofNat k) st ((p.encodeAll st chunks).1 ++ tail)) :
    ∃ mb r', Passes (readMultiBuffer p) r mb r' ∧ MultiBuffer.bytes mb = chunks.flatten ∧
      IsReady r' maxNumChunk (UInt32.ofNat (k + chunks.length)) (p.encodeAll st chunks).2 tail ∧
      r'.reader.reader.err = r.reader.reader.err := by
  induction chunks generalizing r k st with
  | nil => exact ⟨[], r, .nil r, rfl, h, rfl⟩
  | cons chunk chunks ih =>
    obtain ⟨⟨hne, hlen⟩, hrest⟩ := List.forall_mem_cons.1 hchunks
    rw [ChunkSizeParser.encodeAll] at h
    dsimp only at h
    rw [List.append_assoc] at h
    have hsucc : UInt32.ofNat k + 1 = UInt32.ofNat (k + 1) := (UInt32.ofNat_add k 1).symm
    obtain ⟨mb, r', hpasses, hmb, hready, herr⟩ :=
      passes_chunk hp hne hlen h (hgoes 0 (Nat.succ_pos _))
    rw [hsucc] at hready
    obtain ⟨mb', r'', hpasses', hmb', hready', herr'⟩ := ih hrest (fun j hj => by
      rw [Nat.add_assoc, Nat.add_comm 1]
      exact hgoes (j + 1) (Nat.succ_lt_succ hj)) hready
    rw [Nat.add_assoc, Nat.add_comm 1] at hready'
    exact ⟨mb ++ mb', r'', hpasses.trans hpasses', by
      rw [MultiBuffer.bytes_append, hmb, hmb', List.flatten_cons], hready', herr'.trans herr⟩

/-- The end is at the chunk that is empty. -/
theorem reads_end (hp : p.IsInverse) {maxNumChunk numChunk : UInt32} {st : κ} {tail : Bytes}
    (hgoes : Goes maxNumChunk numChunk)
    (h : r.IsReady maxNumChunk numChunk st ((p.encode st 0).1 ++ tail)) :
    Reads p r [] fun r' => r'.reader.bytes = tail := by
  obtain ⟨reader, hreader, -, hread⟩ := readMultiBuffer_size hp h hgoes
  rw [if_pos rfl] at hread
  exact ⟨0 + 1, [], _, .error hread, rfl, hreader⟩

/-- The end is where there are no more chunks to be read. -/
theorem reads_stop {maxNumChunk numChunk : UInt32} {st : κ} {tail : Bytes}
    (hgoes : ¬ Goes maxNumChunk numChunk) (h : r.IsReady maxNumChunk numChunk st tail) :
    Reads p r [] fun r' => r'.reader.bytes = tail := by
  obtain ⟨hleft, -, hmax, hnum, hbytes⟩ := h
  have hread : r.readMultiBuffer p = (.error .eof, { r with numChunk := r.numChunk + 1 }) := by
    rw [readMultiBuffer, if_pos hleft]
    dsimp only
    rw [if_pos (by rw [hmax, hnum]; exact not_not.1 hgoes)]
  exact ⟨0 + 1, [], _, .error hread, rfl, hbytes⟩

/-- Chunks and the empty one are read, if the count never is above the number to be read. -/
theorem reads_all (hp : p.IsInverse) {maxNumChunk : UInt32} {chunks : List Bytes}
    (hchunks : ∀ chunk ∈ chunks, chunk ≠ [] ∧ chunk.length < 2 ^ 16) {st : κ} {tail : Bytes}
    (hgoes : ∀ j ≤ chunks.length, Goes maxNumChunk (UInt32.ofNat j))
    (h : r.IsReady maxNumChunk 0 st ((p.encodeAll st (chunks ++ [[]])).1 ++ tail)) :
    Reads p r chunks.flatten fun r' => r'.reader.bytes = tail := by
  have hout : (p.encodeAll st (chunks ++ [[]])).1 =
      (p.encodeAll st chunks).1 ++ (p.encode (p.encodeAll st chunks).2 0).1 := by
    rw [ChunkSizeParser.encodeAll_append]
    exact congrArg _ ((List.append_nil _).trans (List.append_nil _))
  rw [hout, List.append_assoc] at h
  obtain ⟨mb, r', hpasses, hmb, hready, -⟩ := passes_chunks (k := 0) hp chunks hchunks
    (fun j hj => by rw [Nat.zero_add]; exact hgoes j hj.le) h
  rw [Nat.zero_add] at hready
  rw [← List.append_nil chunks.flatten, ← hmb]
  exact .of_passes hpasses (reads_end hp (hgoes _ le_rfl) hready)

/-- Chunks are read up to the number to be read, and those behind are left. -/
theorem reads_take (hp : p.IsInverse) {maxNumChunk : UInt32} {chunks : List Bytes} {n : ℕ}
    (hchunks : ∀ chunk ∈ chunks.take n, chunk ≠ [] ∧ chunk.length < 2 ^ 16) {st : κ}
    {tail : Bytes} (hn : n ≤ chunks.length)
    (hgoes : ∀ j < n, Goes maxNumChunk (UInt32.ofNat j))
    (hstop : ¬ Goes maxNumChunk (UInt32.ofNat n))
    (h : r.IsReady maxNumChunk 0 st ((p.encodeAll st chunks).1 ++ tail)) :
    Reads p r (chunks.take n).flatten fun r' => r'.reader.bytes =
      (p.encodeAll (p.encodeAll st (chunks.take n)).2 (chunks.drop n)).1 ++ tail := by
  have hlength : (chunks.take n).length = n := List.length_take_of_le hn
  have hout := p.encodeAll_append st (chunks.take n) (chunks.drop n)
  rw [List.take_append_drop] at hout
  rw [hout, List.append_assoc] at h
  obtain ⟨mb, r', hpasses, hmb, hready, -⟩ := passes_chunks (k := 0) hp _ hchunks
    (fun j hj => by rw [Nat.zero_add]; exact hgoes j (hlength ▸ hj)) h
  rw [Nat.zero_add, hlength] at hready
  rw [← List.append_nil (chunks.take n).flatten, ← hmb]
  exact .of_passes hpasses (reads_stop hstop hready)

/-- A reader that returns bytes and then the end does so in one way. -/
theorem Reads.unique {b b' : Bytes} {G' : StreamReader κ → Prop} (h : Reads p r b G)
    (h' : Reads p r b' G') : ∃ r', G r' ∧ G' r' := by
  obtain ⟨n, pieces, r', hhands, -, hG⟩ := h
  obtain ⟨n', pieces', r'', hhands', -, hG'⟩ := h'
  obtain ⟨-, -, -, rfl⟩ := hhands.unique hhands'
  exact ⟨r', hG, hG'⟩

/-! ### The count -/

theorem goes_zero (numChunk : UInt32) : Goes 0 numChunk := fun h => absurd h.1 (by decide)

/-- No count is above the largest number. -/
theorem goes_max (numChunk : UInt32) : Goes (UInt32.ofNat (2 ^ 32 - 1)) numChunk := by
  intro h
  have hlt := UInt32.lt_iff_toNat_lt.1 h.2
  have hbound := UInt32.toNat_lt (numChunk + 1)
  rw [UInt32.toNat_ofNat_of_lt' (by decide)] at hlt
  omega

/-- Below the largest number, the count does not wrap around before it is above. -/
theorem goes_ofNat {maxNumChunk : UInt32} (hpos : maxNumChunk ≠ 0)
    (hmax : maxNumChunk ≠ UInt32.ofNat (2 ^ 32 - 1)) {j : ℕ} (hj : j ≤ maxNumChunk.toNat) :
    Goes maxNumChunk (UInt32.ofNat j) ↔ j < maxNumChunk.toNat := by
  have hpos' : maxNumChunk.toNat ≠ 0 := fun h => hpos (UInt32.toNat_inj.1 h)
  have hmax' : maxNumChunk.toNat ≠ 2 ^ 32 - 1 := fun h =>
    hmax (UInt32.toNat_inj.1 (h.trans (UInt32.toNat_ofNat_of_lt' (by decide)).symm))
  have hbound := UInt32.toNat_lt maxNumChunk
  have hsucc : UInt32.ofNat j + 1 = UInt32.ofNat (j + 1) := (UInt32.ofNat_add j 1).symm
  rw [Goes, gt_iff_lt, gt_iff_lt, hsucc, UInt32.lt_iff_toNat_lt, UInt32.lt_iff_toNat_lt,
    UInt32.toNat_ofNat_of_lt' (show j + 1 < 2 ^ 32 by omega)]
  simp only [UInt32.toNat_zero]
  omega

end StreamReader

/-! ## Round trips -/

namespace ChunkSizeParser

variable {κ : Type} {p : ChunkSizeParser κ}

/-- What is written and then closed is read again, from any connection that supplies it, and then
    there is the end: at the chunk that is empty, where all chunks are to be read, and else after
    as many as are to be read. Nothing is read that is behind. -/
def RoundTrips (p : ChunkSizeParser κ) (st : κ) (mbs : List MultiBuffer) (closing : MultiBuffer)
    (maxNumChunk : UInt32) : Prop :=
  ∃ out st', p.writes st (mbs ++ [closing]) = (.ok out, st') ∧
    ∀ (reader : BufferedReader) (tail : Bytes), reader.bytes = out ++ tail →
      let all := chunks (mbs ++ [closing])
      let n := maxNumChunk.toNat
      (maxNumChunk = 0 → StreamReader.Reads p ⟨reader, st, 0, maxNumChunk, 0⟩
        (mbs.flatMap MultiBuffer.bytes) fun r => r.reader.bytes = tail) ∧
      (maxNumChunk ≠ 0 → StreamReader.Reads p ⟨reader, st, 0, maxNumChunk, 0⟩
        (all.take n).flatten fun r => r.reader.bytes =
          (p.encodeAll (p.encodeAll st (all.take n)).2 (all.drop n)).1 ++ tail)

/-- The chunks of what has content, and then the empty one. -/
theorem chunks_close {mbs : List MultiBuffer} {closing : MultiBuffer}
    (hmbs : ∀ mb ∈ mbs, MultiBuffer.isEmpty mb = false) (hclosing : MultiBuffer.isEmpty closing) :
    chunks (mbs ++ [closing]) = chunks mbs ++ [[]] ∧
      (∀ chunk ∈ chunks mbs, chunk ≠ [] ∧ chunk.length < 2 ^ 16) ∧
      (chunks mbs).flatten = mbs.flatMap MultiBuffer.bytes := by
  refine ⟨?_, fun chunk hchunk => ?_, ?_⟩
  · rw [chunks, List.flatMap_append, List.flatMap_singleton,
      (slices_spec (Nat.lt_succ_self _)).2.2.2 hclosing, chunks]
  · obtain ⟨mb, hmb, hslice⟩ := List.mem_flatMap.1 hchunk
    obtain ⟨-, hshort, hcontent, -⟩ := slices_spec (Nat.lt_succ_self mb.length)
    exact ⟨hcontent (hmbs mb hmb) chunk hslice, (hshort chunk hslice).trans_lt (by decide)⟩
  · rw [chunks, List.flatten_eq_flatMap, List.flatMap_assoc]
    simp only [← List.flatten_eq_flatMap, (slices_spec (Nat.lt_succ_self _)).1]

/-- A size takes a byte at least, as there is more than one size. -/
theorem IsInverse.sizeBytes_pos (hp : p.IsInverse) (st : κ) : 0 < p.sizeBytes := by
  refine Nat.pos_of_ne_zero fun hzero => ?_
  have hnil (size : UInt16) : (p.encode st size).1 = [] :=
    List.length_eq_zero_iff.1 ((hp.length st size).trans hzero)
  have h := hp.decode st 0
  rw [hnil, ← hnil 1, hp.decode st 1] at h
  exact absurd (Outcome.ok.inj (congrArg Prod.fst h)) (by decide)

/-- The condition under which the count is above its bound where it is to be. -/
theorem goes_of_not_wraps {maxNumChunk : UInt32} {chunks : List Bytes}
    (hwrap : ¬ (maxNumChunk = UInt32.ofNat (2 ^ 32 - 1) ∧ 2 ^ 32 - 1 ≤ chunks.length))
    (hpos : maxNumChunk ≠ 0) {j : ℕ} (hj : j ≤ min chunks.length maxNumChunk.toNat) :
    StreamReader.Goes maxNumChunk (UInt32.ofNat j) ↔ j < maxNumChunk.toNat := by
  by_cases hmax : maxNumChunk = UInt32.ofNat (2 ^ 32 - 1)
  · have htoNat : maxNumChunk.toNat = 2 ^ 32 - 1 := by
      rw [hmax]
      exact UInt32.toNat_ofNat_of_lt' (by decide)
    have hlt : chunks.length < 2 ^ 32 - 1 := not_le.1 fun h => hwrap ⟨hmax, h⟩
    refine iff_of_true ?_ (by omega)
    rw [hmax]
    exact StreamReader.goes_max _
  · exact StreamReader.goes_ofNat hpos hmax (hj.trans (min_le_right _ _))

/-- Where the count wraps around, all chunks are read, even those above the number to be read. -/
theorem not_roundTrips_of_wraps (hp : p.IsInverse) {mbs : List MultiBuffer}
    {closing : MultiBuffer} (hmbs : ∀ mb ∈ mbs, MultiBuffer.isEmpty mb = false)
    (hclosing : MultiBuffer.isEmpty closing) {st : κ}
    (hlength : 2 ^ 32 - 1 ≤ (chunks mbs).length) :
    ¬ RoundTrips p st mbs closing (UInt32.ofNat (2 ^ 32 - 1)) := by
  obtain ⟨hall, hchunks, -⟩ := chunks_close hmbs hclosing
  rintro ⟨out, st', hwrites, hreads⟩
  have hwritten := of_writes_eq_ok hwrites
  have hsize := (hwritten closing (List.mem_append_right _ (List.mem_singleton.2 rfl))).1
  rw [writes_spec hp hsize fun mb hmb => (hwritten mb hmb).2, hall] at hwrites
  obtain ⟨hout, -⟩ := Prod.mk.inj hwrites
  rw [← Outcome.ok.inj hout, hall] at hreads
  have htoNat : (UInt32.ofNat (2 ^ 32 - 1)).toNat = 2 ^ 32 - 1 :=
    UInt32.toNat_ofNat_of_lt' (by decide)
  -- any connection that supplies what was written shows it
  let out := (p.encodeAll st (chunks mbs ++ [[]])).1
  let reader : BufferedReader := ⟨MultiBuffer.mergeBytes [] out, ⟨[], .eof⟩⟩
  have hreader : reader.bytes = out ++ [] := by simp [reader, BufferedReader.bytes, Source.bytes]
  have hread := (hreads reader [] hreader).2 (by decide)
  obtain ⟨r, hleft, hnone⟩ := hread.unique (StreamReader.reads_all hp hchunks
    (fun _ _ => StreamReader.goes_max _) ⟨rfl, rfl, rfl, rfl, hreader⟩)
  rw [hnone, List.append_nil, htoNat] at hleft
  -- a chunk is left that has a size
  rcases hdrop : (chunks mbs ++ [[]]).drop (2 ^ 32 - 1) with - | ⟨chunk, rest⟩
  · have := List.drop_eq_nil_iff.1 hdrop
    rw [List.length_append, List.length_singleton] at this
    omega
  · have hencode := hp.length (p.encodeAll st ((chunks mbs ++ [[]]).take (2 ^ 32 - 1))).2
      (UInt16.ofNat chunk.length)
    have hpos := hp.sizeBytes_pos st
    rw [hdrop, encodeAll] at hleft
    have hzero := congrArg List.length hleft
    simp only [List.length_nil, List.length_append, hencode] at hzero
    omega

/-- Full buffers may hold a byte more than a number of 32 bits with a sign can count. -/
theorem capacity_fullBuffers : capacity (fullBuffers (2 ^ 20)) < 0 := by
  have hlen : MultiBuffer.len (fullBuffers (2 ^ 20)) = 2 ^ 31 := len_fullBuffers _
  rw [capacity, hlen, int32_eq_neg]
  decide

end ChunkSizeParser

end Gzv2ray
