import Gzv2ray.Buf.Reading

/-!
# Reading and writing through a stream cipher

`CryptionReader` decrypts what it reads, byte by byte, and `CryptionWriter` encrypts
what it writes. A byte is decrypted after those before it, on which the key stream
may depend, so that it does not matter how the bytes are cut into reads
(`StreamCipher.xorKeyStream_append`).
-/

namespace Gzv2ray

/-- A stream cipher: what becomes of a byte after others. -/
def StreamCipher := (past : Bytes) → UInt8 → UInt8

namespace StreamCipher

variable (stream : StreamCipher)

/-- `XORKeyStream`, after some bytes. -/
def xorKeyStream : (past : Bytes) → Bytes → Bytes
  | _, [] => []
  | past, x :: b => stream past x :: xorKeyStream (past ++ [x]) b

theorem xorKeyStream_append (past b b' : Bytes) :
    stream.xorKeyStream past (b ++ b') =
      stream.xorKeyStream past b ++ stream.xorKeyStream (past ++ b) b' := by
  induction b generalizing past with
  | nil => rw [List.nil_append, List.append_nil, xorKeyStream, List.nil_append]
  | cons x b ih =>
    rw [List.cons_append, xorKeyStream, ih, xorKeyStream, List.append_assoc, List.singleton_append,
      List.cons_append]

@[simp] theorem length_xorKeyStream (past b : Bytes) :
    (stream.xorKeyStream past b).length = b.length := by
  induction b generalizing past with
  | nil => rfl
  | cons x b ih => rw [xorKeyStream, List.length_cons, ih, List.length_cons]

/-- What the other one encrypts from its start, this one decrypts from its start. -/
def Inverts (encryption : StreamCipher) : Prop :=
  ∀ b, stream.xorKeyStream [] (encryption.xorKeyStream [] b) = b

end StreamCipher

/-- A writer that encrypts, and the bytes that it has encrypted so far. -/
structure CryptionWriter where
  stream : StreamCipher
  past : Bytes := []

/-- The bytes that a write puts on the connection. -/
def CryptionWriter.write (w : CryptionWriter) (data : Bytes) : Bytes × CryptionWriter :=
  (w.stream.xorKeyStream w.past data, { w with past := w.past ++ data })

/-- A reader that decrypts, and the bytes that it has decrypted so far. -/
structure CryptionReader where
  stream : StreamCipher
  past : Bytes := []
  reader : BufferedReader

namespace CryptionReader

/-- The decrypted bytes to come. -/
def bytes (r : CryptionReader) : Bytes := r.stream.xorKeyStream r.past r.reader.bytes

/-- `io.ReadFull`: what the reader below returns is decrypted, with its error. -/
def readInto : ReadFull CryptionReader := fun r n =>
  let (p, err, reader) := r.reader.readInto n
  (r.stream.xorKeyStream r.past p, err, { r with past := r.past ++ p, reader })

theorem readInto_isLawful : readInto.IsLawful bytes := by
  intro r n
  obtain ⟨htaken, hle, hfull⟩ := BufferedReader.readInto_isLawful r.reader n
  rw [readInto]
  dsimp only
  rw [StreamCipher.length_xorKeyStream]
  refine ⟨?_, hle, hfull⟩
  rw [bytes, htaken, StreamCipher.xorKeyStream_append]
  rfl

/-- The state of a reader of some ciphertext, with bytes to come. -/
structure Decrypts (stream : StreamCipher) (cipherText : Bytes) (err : Error) (r : CryptionReader)
    (b : Bytes) : Prop where
  stream : r.stream = stream
  bytes : r.bytes = b
  past : r.past ++ r.reader.bytes = cipherText
  err : r.reader.reader.err = err

theorem readInto_serves (stream : StreamCipher) (cipherText : Bytes) (err : Error) :
    readInto.Serves (Decrypts stream cipherText err) := by
  rintro r a rest ⟨hstream, hbytes, hpast, herr⟩
  obtain ⟨reader, hreader, herr', hread⟩ := r.reader.readInto_eq a.length
  have hlength : r.reader.bytes.length = a.length + rest.length := by
    rw [← StreamCipher.length_xorKeyStream r.stream r.past, ← bytes, hbytes, List.length_append]
  rw [if_pos (by omega)] at hread
  -- The plaintext is cut where the ciphertext is.
  have hcut : r.stream.xorKeyStream r.past (r.reader.bytes.take a.length) ++
      r.stream.xorKeyStream (r.past ++ r.reader.bytes.take a.length) reader.bytes = a ++ rest := by
    rw [← StreamCipher.xorKeyStream_append, hreader, List.take_append_drop, ← hbytes, bytes]
  obtain ⟨hleft, hright⟩ := List.append_inj hcut (by
    rw [StreamCipher.length_xorKeyStream, List.length_take_of_le (by omega)])
  refine ⟨{ r with past := r.past ++ r.reader.bytes.take a.length, reader }, ?_, hstream, hright, ?_,
    herr'.trans herr⟩
  · rw [readInto, hread]
    dsimp only
    rw [hleft]
  · rw [List.append_assoc, hreader, List.take_append_drop, hpast]

/-- A reader of what was encrypted, at its start. -/
theorem decrypts_start {decryption encryption : StreamCipher} (h : decryption.Inverts encryption)
    {reader : BufferedReader} {plain rest : Bytes}
    (hreader : reader.bytes = encryption.xorKeyStream [] plain ++ rest) :
    Decrypts decryption reader.bytes reader.reader.err { stream := decryption, reader }
      (plain ++ decryption.xorKeyStream (encryption.xorKeyStream [] plain) rest) where
  stream := rfl
  bytes := by
    rw [bytes, hreader, decryption.xorKeyStream_append, h plain, List.nil_append]
  past := List.nil_append _
  err := rfl

/-- The ciphertext is left where the plaintext is. -/
theorem Decrypts.reader_bytes {stream : StreamCipher} {past rest b : Bytes} {err : Error}
    {r : CryptionReader} (h : Decrypts stream (past ++ rest) err r b) (hlength : b.length = rest.length) :
    r.reader.bytes = rest := by
  obtain ⟨-, hbytes, hpast, -⟩ := h
  refine (List.append_inj' hpast ?_).2
  rw [← hlength, ← hbytes, CryptionReader.bytes, StreamCipher.length_xorKeyStream]

end CryptionReader

end Gzv2ray
