import Gzv2ray.Buf.Copy
import Gzv2ray.Crypto.Codec

/-!
# Chunked streams

A `ChunkStreamReader` reads a stream of chunks that are not encrypted: the size of
a chunk, and then its bytes as they come. It can be told to stop after a number of
chunks.

Every read takes bytes, buffers or segments from the transport, of which
`BufferedReader.weight` counts those to come.
-/

namespace Gzv2ray

/-! ## Weights -/

namespace MultiBuffer

theorem splitSizeLoop_length (mb : MultiBuffer) (n : ℕ) :
    (splitSizeLoop mb n).1.length + (splitSizeLoop mb n).2.length = mb.length := by
  induction mb generalizing n with
  | nil => rfl
  | cons b mb ih =>
    rw [splitSizeLoop]
    split
    · simp only [List.length_cons, ← ih (n - b.len)]
      omega
    · rfl

/-- Splitting takes bytes or buffers. -/
theorem splitSize_shrinks {mb : MultiBuffer} (hmb : mb ≠ []) {n : ℕ} (hn : 0 < n) :
    (bytes (splitSize mb n).1).length + (splitSize mb n).1.length < (bytes mb).length + mb.length := by
  have hbytes := congrArg List.length (splitSize_bytes mb n)
  rw [List.length_append] at hbytes
  cases mb with
  | nil => exact absurd rfl hmb
  | cons b mb =>
    rw [splitSize] at hbytes ⊢
    split
    · rename_i h
      rw [dif_pos h] at hbytes
      simp only [bytes_cons, List.length_append, List.length_cons, List.length_drop,
        Buffer.len] at h ⊢
      omega
    · rename_i h
      rw [dif_neg h] at hbytes
      have hlen := splitSizeLoop_length mb (n - b.len)
      rw [splitSizeLoop, if_pos (not_lt.1 h)] at hbytes ⊢
      dsimp only at hbytes ⊢
      simp only [List.length_cons]
      omega

theorem length_splitBytes_le (mb : MultiBuffer) (n : ℕ) :
    (splitBytes mb n).1.length ≤ mb.length := by
  induction mb generalizing n with
  | nil => exact le_rfl
  | cons b mb ih =>
    rw [splitBytes]
    dsimp only
    split
    · exact Nat.le_succ_of_le (ih _)
    · exact le_rfl

end MultiBuffer

namespace BufferedReader

/-- The number of bytes, buffers and segments to come. -/
def weight (r : BufferedReader) : ℕ :=
  r.bytes.length + r.buffer.length + (r.reader.segments.map fun mb => mb.length + 1).sum

theorem weight_read_le (r : BufferedReader) (n : ℕ) : (r.read n).2.weight ≤ r.weight := by
  rw [read]
  split
  · have := MultiBuffer.length_splitBytes_le r.buffer n
    simp only [weight, bytes, MultiBuffer.splitBytes_fst_bytes, List.length_append, List.length_drop]
    omega
  · rw [Source.readMultiBuffer]
    cases hs : r.reader.segments with
    | nil => exact le_rfl
    | cons mb segments =>
      have := MultiBuffer.length_splitBytes_le mb n
      simp only [weight, bytes, Source.bytes, MultiBuffer.splitBytes_fst_bytes, List.length_append,
        List.length_drop, hs, List.map_cons, List.sum_cons, List.flatMap_cons]
      omega

theorem weight_readFullLoop_le (fuel : ℕ) (r : BufferedReader) (n : ℕ) :
    (readFullLoop fuel r n).2.2.weight ≤ r.weight := by
  induction fuel generalizing r n with
  | zero => exact le_rfl
  | succ fuel ih =>
    have hread := r.weight_read_le n
    rw [readFullLoop]
    split
    · exact le_rfl
    · cases h : r.read n with
      | mk out r' =>
        rw [h] at hread
        cases out with
        | ok out => exact (ih _ _).trans hread
        | error e => exact hread

theorem weight_readFull_le (r : BufferedReader) (n : ℕ) : (r.readFull n).2.weight ≤ r.weight := by
  have h := weight_readFullLoop_le (r.reader.segments.length + 2) r n
  rw [readFull]
  generalize readFullLoop (r.reader.segments.length + 2) r n = t at h ⊢
  obtain ⟨out, err, r'⟩ := t
  rcases err with _ | e
  · exact h
  · cases e <;> exact h

/-- What a read of at most `n` bytes does: it hands over some of the next bytes, or
    there are none. -/
theorem readAtMost_cases (r : BufferedReader) {n : ℕ} (hn : 0 < n) :
    (∃ mb r', r.readAtMost n = (.ok mb, r') ∧ MultiBuffer.bytes mb ++ r'.bytes = r.bytes ∧
      (MultiBuffer.bytes mb).length ≤ n ∧ r'.reader.err = r.reader.err ∧ r'.weight < r.weight) ∨
    r.readAtMost n = (.error r.reader.err, r) ∧ r.bytes = [] ∧ r.reader.segments = [] := by
  rw [readAtMost]
  cases he : MultiBuffer.isEmpty r.buffer with
  | false =>
    have hne : r.buffer ≠ [] := by
      rintro h
      rw [h] at he
      cases he
    have hbytes := MultiBuffer.splitSize_bytes r.buffer n
    have hlen := MultiBuffer.splitSize_len r.buffer n
    have hweight := MultiBuffer.splitSize_shrinks hne hn
    refine .inl ⟨(MultiBuffer.splitSize r.buffer n).2,
      { r with buffer := (MultiBuffer.splitSize r.buffer n).1 }, rfl, ?_, hlen, rfl, ?_⟩
    · simp only [bytes, ← List.append_assoc, hbytes]
    · simp only [weight, bytes, List.length_append]
      omega
  | true =>
    have hnil := (MultiBuffer.isEmpty_iff r.buffer).1 he
    rw [if_pos rfl, Source.readMultiBuffer]
    cases hs : r.reader.segments with
    | nil => exact .inr ⟨rfl, by simp [bytes, Source.bytes, hnil, hs], rfl⟩
    | cons mb segments =>
      have hbytes := MultiBuffer.splitSize_bytes mb n
      have hlen := MultiBuffer.splitSize_len mb n
      have hweight : (MultiBuffer.bytes (MultiBuffer.splitSize mb n).1).length +
          (MultiBuffer.splitSize mb n).1.length ≤ (MultiBuffer.bytes mb).length + mb.length := by
        rcases eq_or_ne mb [] with rfl | hmb
        · exact le_rfl
        · exact (MultiBuffer.splitSize_shrinks hmb hn).le
      refine .inl ⟨(MultiBuffer.splitSize mb n).2,
        ⟨(MultiBuffer.splitSize mb n).1, { r.reader with segments }⟩, rfl, ?_, hlen, rfl, ?_⟩
      · simp [bytes, Source.bytes, hs, hnil, ← List.append_assoc, hbytes]
      · simp only [weight, bytes, Source.bytes, hs, hnil, List.length_append, List.nil_append,
          List.flatMap_cons, List.map_cons, List.sum_cons]
        omega

/-- Of some next bytes, a read of at most as many hands over the first. -/
theorem readAtMost_prefix (r : BufferedReader) {data rest : Bytes} (hpos : data ≠ [])
    (h : r.bytes = data ++ rest) :
    ∃ mb data' r', r.readAtMost data.length = (.ok mb, r') ∧
      data = MultiBuffer.bytes mb ++ data' ∧ r'.bytes = data' ++ rest ∧
      r'.reader.err = r.reader.err ∧ r'.weight < r.weight := by
  rcases r.readAtMost_cases (List.length_pos_iff.2 hpos) with
    ⟨mb, r', hread, hbytes, hlen, herr, hweight⟩ | ⟨-, hnil, -⟩
  · rw [h] at hbytes
    obtain ⟨data', hdata⟩ : MultiBuffer.bytes mb <+: data :=
      List.prefix_of_prefix_length_le ⟨_, hbytes⟩ (List.prefix_append _ _) hlen
    rw [← hdata, List.append_assoc, List.append_cancel_left_eq] at hbytes
    exact ⟨mb, data', r', hread, hdata.symm, hbytes, herr, hweight⟩
  · rw [h, List.append_eq_nil_iff] at hnil
    exact absurd hnil.1 hpos

end BufferedReader

/-! ## The reader -/

structure ChunkStreamReader (c : ChunkCodec) where
  reader : BufferedReader
  st : CodecState := {}
  leftOverSize : ℕ := 0
  /-- The number of chunks to be read, if it is not zero. -/
  maxNumChunk : UInt32 := 0
  numChunk : UInt32 := 0

namespace ChunkStreamReader

variable {c : ChunkCodec} (r : ChunkStreamReader c)

/-- Reads from a chunk of which as many bytes are left. -/
def readChunk (size : ℕ) : Outcome MultiBuffer × ChunkStreamReader c :=
  match r.reader.readAtMost size with
  | (.ok mb, reader) =>
    if !MultiBuffer.isEmpty mb then
      (.ok mb, { r with reader, leftOverSize := size - MultiBuffer.len mb })
    else (.ok [], { r with reader, leftOverSize := size })
  | (.error e, reader) => (.error e, { r with reader, leftOverSize := size })

def readMultiBuffer : Outcome MultiBuffer × ChunkStreamReader c :=
  if r.leftOverSize = 0 then
    let r := { r with numChunk := r.numChunk + 1 }
    if r.maxNumChunk > 0 ∧ r.numChunk > r.maxNumChunk then (.error .eof, r)
    else
      match r.reader.readFull c.sizeBytes with
      | (.error e, reader) => (.error e, { r with reader })
      | (.ok b, reader) =>
        match c.decodeSize r.st b with
        | (.ok size, st) =>
          if size = 0 then (.error .eof, { r with reader, st })
          else readChunk { r with reader, st } size.toNat
        | (.error e, st) => (.error e, { r with reader, st })
        | (.panic, st) => (.panic, { r with reader, st })
  else r.readChunk r.leftOverSize

/-- In a chunk, a read hands over some of the bytes left. -/
theorem readChunk_spec {size : ℕ} {data rest : Bytes} (hsize : size = data.length)
    (hpos : data ≠ []) (h : r.reader.bytes = data ++ rest) :
    ∃ mb data' reader, r.readChunk size =
        (.ok mb, { r with reader, leftOverSize := data'.length }) ∧
      data = MultiBuffer.bytes mb ++ data' ∧ reader.bytes = data' ++ rest ∧
      reader.reader.err = r.reader.reader.err ∧ reader.weight < r.reader.weight := by
  obtain ⟨mb, data', reader, hread, hdata, hbytes, herr, hweight⟩ :=
    r.reader.readAtMost_prefix hpos h
  rw [← hsize] at hread
  rw [readChunk, hread]
  dsimp only
  by_cases hmb : MultiBuffer.bytes mb = []
  · rw [hmb, List.nil_append] at hdata
    subst hdata
    refine ⟨[], data, reader, ?_, rfl, hbytes, herr, hweight⟩
    rw [if_neg (by simp [hmb]), hsize]
  · refine ⟨mb, data', reader, ?_, hdata, hbytes, herr, hweight⟩
    rw [if_pos (by simp [hmb]), hsize, hdata, MultiBuffer.len_eq, List.length_append,
      Nat.add_sub_cancel_left]

/-- Between chunks, a read goes on in the chunk of the next size, unless that is
    zero. -/
theorem readMultiBuffer_next {b : Bytes} {reader : BufferedReader} {size : UInt16} {st : CodecState}
    (hleft : r.leftOverSize = 0) (hnum : ¬ (r.maxNumChunk > 0 ∧ r.numChunk + 1 > r.maxNumChunk))
    (hread : r.reader.readFull c.sizeBytes = (.ok b, reader))
    (hdecode : c.decodeSize r.st b = (.ok size, st)) :
    r.readMultiBuffer =
      if size = 0 then (.error .eof, { r with reader, st, numChunk := r.numChunk + 1 })
      else readChunk { r with reader, st, numChunk := r.numChunk + 1 } size.toNat := by
  simp only [readMultiBuffer, hleft, if_true, hnum, if_false, hread, hdecode]

end ChunkStreamReader

end Gzv2ray
