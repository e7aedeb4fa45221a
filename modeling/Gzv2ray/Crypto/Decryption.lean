import Gzv2ray.Buf.Returns
import Gzv2ray.Crypto.CryptionReader

/-!
# Buffers from a stream cipher

Over a `CryptionReader`, a reader of buffers reads one at a time (`CryptionReader.readMultiBuffer`).
What a `BufferedReader` over it is handed is that of a transport (`CryptionReader.source`): the
buffers read one after the other, and then the error of the connection.

* `source_readMultiBuffer`: a read of the transport is one of the reader;
* `bytes_source`: its bytes are those decrypted.
-/

namespace Gzv2ray.CryptionReader

/-! ## Reads -/

/-- `Read`: up to `n` bytes. -/
def read (r : CryptionReader) (n : ℕ) : Except Error Bytes × CryptionReader :=
  match r.reader.read n with
  | (.ok out, reader) =>
    (.ok (r.stream.xorKeyStream r.past out), { r with past := r.past ++ out, reader })
  | (.error e, reader) => (.error e, { r with reader })

/-- `SingleReader.ReadMultiBuffer`: a buffer, which nothing may have been read into. -/
def readMultiBuffer (r : CryptionReader) : Except Error MultiBuffer × CryptionReader :=
  match r.read bufSize with
  | (.ok out, r) => (.ok [(Buffer.new.write out).1], r)
  | (.error e, r) => (.error e, r)

def readBuffers : MultiReader CryptionReader := fun r =>
  match r.readMultiBuffer with
  | (.ok mb, r) => (.ok mb, r)
  | (.error e, r) => (.error e, r)

/-- A read takes bytes from the connection or uses a segment up. -/
def rank (r : CryptionReader) : ℕ := r.reader.reader.segments.length + r.reader.bytes.length

/-- What a read does: it decrypts some of the bytes to come, or there are none. -/
theorem readMultiBuffer_cases (r : CryptionReader) :
    (∃ mb r', r.readMultiBuffer = (.ok mb, r') ∧ MultiBuffer.bytes mb ++ r'.bytes = r.bytes ∧
      r'.reader.reader.err = r.reader.reader.err ∧ r'.rank < r.rank) ∨
    r.readMultiBuffer = (.error r.reader.reader.err, r) ∧ r.bytes = [] := by
  rcases r.reader.read_cases bufSize with
    ⟨out, reader, hread, hbytes, hlength, herr, -⟩ | ⟨hread, hbytes, -⟩
  · have hless := r.reader.read_less (by decide) hread
    have hwrite : (Buffer.new.write (r.stream.xorKeyStream r.past out)).1.bytes =
        r.stream.xorKeyStream r.past out :=
      Buffer.write_new _ (by rwa [StreamCipher.length_xorKeyStream])
    refine .inl ⟨_, { r with past := r.past ++ out, reader },
      by rw [readMultiBuffer, read, hread], ?_, herr, hless⟩
    rw [MultiBuffer.bytes_cons, hwrite, MultiBuffer.bytes_nil, List.append_nil, bytes, bytes, ← hbytes,
      StreamCipher.xorKeyStream_append]
  · refine .inr ⟨by rw [readMultiBuffer, read, hread], ?_⟩
    rw [bytes, hbytes, StreamCipher.xorKeyStream]

/-! ## The transport -/

/-- The buffers read one after the other, as many as given at most. -/
def segments : ℕ → CryptionReader → List MultiBuffer
  | 0, _ => []
  | fuel + 1, r =>
    match r.readMultiBuffer with
    | (.ok mb, r) => mb :: segments fuel r
    | (.error _, _) => []

/-- What the readers above are handed. -/
def source (r : CryptionReader) : Source where
  segments := segments r.rank r
  err := r.reader.reader.err

/-- A `BufferedReader` over the buffers. -/
def buffered (r : CryptionReader) : BufferedReader where
  reader := r.source

/-- There are no more buffers than reads may take. -/
theorem segments_of_le {fuel : ℕ} {r : CryptionReader} (h : r.rank ≤ fuel) :
    segments fuel r = segments r.rank r := by
  induction fuel using Nat.strong_induction_on generalizing r with
  | _ fuel ih =>
    rcases r.readMultiBuffer_cases with ⟨mb, r', hread, -, -, hless⟩ | ⟨hread, -⟩
    · obtain ⟨n, rfl⟩ := Nat.exists_eq_add_one_of_ne_zero (show fuel ≠ 0 by omega)
      obtain ⟨m, hm⟩ := Nat.exists_eq_add_one_of_ne_zero (show r.rank ≠ 0 by omega)
      rw [hm, segments, segments, hread]
      dsimp only
      rw [ih n (by omega) (by omega), ih m (by omega) (by omega)]
    · have hnil : ∀ n, segments n r = [] := by
        intro n
        cases n with
        | zero => rfl
        | succ n => rw [segments, hread]
      rw [hnil, hnil]

theorem source_of_ok {r r' : CryptionReader} {mb : MultiBuffer}
    (h : r.readMultiBuffer = (.ok mb, r')) :
    r.source = ⟨mb :: r'.source.segments, r'.source.err⟩ := by
  rcases r.readMultiBuffer_cases with ⟨_, _, hread, -, herr, hless⟩ | ⟨hread, -⟩
  · obtain ⟨hmb, rfl⟩ := Prod.mk.inj (hread.symm.trans h)
    obtain ⟨m, hm⟩ := Nat.exists_eq_add_one_of_ne_zero (show r.rank ≠ 0 by omega)
    rw [source, hm, segments, h, source, herr]
    dsimp only
    rw [segments_of_le (by omega)]
  · exact absurd (congrArg Prod.fst (hread.symm.trans h)) (by simp)

theorem source_of_error {r r' : CryptionReader} {e : Error}
    (h : r.readMultiBuffer = (.error e, r')) : r.source = ⟨[], e⟩ ∧ r' = r ∧ r.bytes = [] := by
  rcases r.readMultiBuffer_cases with ⟨_, _, hread, -⟩ | ⟨hread, hbytes⟩
  · exact absurd (congrArg Prod.fst (hread.symm.trans h)) (by simp)
  · obtain ⟨he, hr⟩ := Prod.mk.inj (hread.symm.trans h)
    have hsegments : segments r.rank r = [] := by
      rcases r.rank with - | n
      · rfl
      · rw [segments, hread]
    exact ⟨by rw [source, hsegments, Except.error.inj he], hr.symm, hbytes⟩

/-- A read of the transport is a read of the reader. -/
theorem source_readMultiBuffer (r : CryptionReader) :
    r.source.readMultiBuffer = (r.readMultiBuffer.1, r.readMultiBuffer.2.source) := by
  rcases hread : r.readMultiBuffer with ⟨e | mb, r'⟩
  · obtain ⟨hsource, rfl, -⟩ := source_of_error hread
    rw [hsource]
    rfl
  · rw [source_of_ok hread]
    rfl

theorem bytes_source (r : CryptionReader) : r.source.bytes = r.bytes := by
  generalize hn : r.rank = n
  induction n using Nat.strong_induction_on generalizing r with
  | _ n ih =>
    rcases r.readMultiBuffer_cases with ⟨mb, r', hread, hbytes, -, hless⟩ | ⟨hread, hbytes⟩
    · rw [source_of_ok hread, ← hbytes, ← ih _ (hn ▸ hless) r' rfl]
      rfl
    · rw [(source_of_error hread).1, hbytes]
      rfl

theorem bytes_buffered (r : CryptionReader) : r.buffered.bytes = r.bytes := r.bytes_source

/-- With nothing at hand, the `BufferedReader` reads what the reader reads. -/
theorem buffered_readBuffers (r : CryptionReader) :
    BufferedReader.readBuffers r.buffered = ((readBuffers r).1, (readBuffers r).2.buffered) := by
  have hsource := r.source_readMultiBuffer
  rw [BufferedReader.readBuffers, readBuffers, BufferedReader.readMultiBuffer,
    show MultiBuffer.isEmpty r.buffered.buffer = true from rfl, if_neg (by decide),
    show r.buffered.reader = r.source from rfl, hsource]
  rcases r.readMultiBuffer with ⟨e | mb, r'⟩
  · rfl
  · rfl

/-- What was decrypted is returned, and then the error of the connection. -/
theorem returns (r : CryptionReader) :
    ∃ mb, Returns readBuffers r mb r.reader.reader.err ∧ MultiBuffer.bytes mb = r.bytes := by
  obtain ⟨mb, hreturns, hmb⟩ := r.buffered.returns
  exact ⟨mb, hreturns.of_map buffered_readBuffers, hmb.trans r.bytes_buffered⟩

end Gzv2ray.CryptionReader
