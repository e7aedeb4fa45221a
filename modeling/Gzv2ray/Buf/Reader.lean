import Gzv2ray.Buf.Buffer

/-!
# Readers

The transport bytes come from, and the `BufferedReader` over it. A transport
hands over its bytes in segments, one `MultiBuffer` a read, of any sizes, and
then only an error.

The bytes not read yet (`BufferedReader.bytes`) are all that matters to a
reader of a fixed number of bytes (`readFull_ok`, `readFull_short`): how they
are cut into segments does not.
-/

namespace Gzv2ray

/-- The bytes of an ASCII string. -/
def ascii (s : String) : Bytes := s.toList.map fun c => UInt8.ofNat c.toNat

/-- An error value: those the code compares with by identity, and any other. -/
inductive Error
  /-- `io.EOF` -/
  | eof
  /-- `io.ErrUnexpectedEOF` -/
  | unexpectedEOF
  /-- `io.ErrClosedPipe` -/
  | closedPipe
  /-- `crypto.errSoft` -/
  | errSoft
  /-- An error of the given text. -/
  | new (text : Bytes)
  deriving DecidableEq

/-- The text of an error. -/
def Error.text : Error → Bytes
  | .eof => ascii "EOF"
  | .unexpectedEOF => ascii "unexpected EOF"
  | .closedPipe => ascii "io: read/write on closed pipe"
  | .errSoft => ascii "waiting for more data"
  | .new text => text

/-- An error of a package, which tells its path. -/
def newError (path text : String) : Error := .new (ascii path ++ ascii ": " ++ ascii text)

/-- An error, and the error that caused it. -/
def Error.base (e cause : Error) : Error := .new (e.text ++ ascii " > " ++ cause.text)

/-- How a call ends: it returns, with an error or not, or it panics. -/
inductive Outcome (α : Type)
  | ok (a : α)
  | error (e : Error)
  | panic
  deriving DecidableEq

namespace Outcome

variable {α β : Type}

/-- A call that ends well is followed by another one. -/
def bind : Outcome α → (α → Outcome β) → Outcome β
  | .ok a, f => f a
  | .error e, _ => .error e
  | .panic, _ => .panic

/-- The value is changed, if there is one. -/
def map (f : α → β) : Outcome α → Outcome β
  | .ok a => .ok (f a)
  | .error e => .error e
  | .panic => .panic

theorem map_eq_ok {f : α → β} {o : Outcome α} {b : β} :
    o.map f = .ok b ↔ ∃ a, o = .ok a ∧ f a = b := by
  rcases o with a | e | -
  · exact ⟨fun h => ⟨a, rfl, ok.inj h⟩, fun ⟨_, h, hb⟩ => congrArg ok (ok.inj h ▸ hb)⟩
  · exact ⟨fun h => (by cases h), fun ⟨_, h, _⟩ => (by cases h)⟩
  · exact ⟨fun h => (by cases h), fun ⟨_, h, _⟩ => (by cases h)⟩

instance : Monad Outcome where
  pure := .ok
  bind := bind

@[simp] theorem bind_ok (a : α) (f : α → Outcome β) : (Outcome.ok a >>= f) = f a := rfl

@[simp] theorem pure_eq (a : α) : (pure a : Outcome α) = .ok a := rfl

theorem bind_eq_ok {o : Outcome α} {f : α → Outcome β} {b : β} :
    (o >>= f) = .ok b ↔ ∃ a, o = .ok a ∧ f a = .ok b := by
  rcases o with a | e | -
  · exact ⟨fun h => ⟨a, rfl, h⟩, fun ⟨_, ha, h⟩ => ok.inj ha ▸ h⟩
  · exact ⟨nofun, nofun⟩
  · exact ⟨nofun, nofun⟩

theorem bind_ne_panic {o : Outcome α} {f : α → Outcome β} (ho : o ≠ .panic)
    (hf : ∀ a, o = .ok a → f a ≠ .panic) : (o >>= f) ≠ .panic := by
  rcases o with a | e | -
  · exact hf a rfl
  · exact nofun
  · exact absurd rfl ho

end Outcome

/-- `io.ReadFull` from a buffer. -/
def Buffer.readFull (b : Buffer) (n : ℕ) : Except Error Bytes × Buffer :=
  if n = 0 then (.ok [], b)
  else if n ≤ b.len then
    let (b, out) := b.read n
    (.ok out, b)
  else if b.isEmpty then (.error .eof, b)
  else (.error .unexpectedEOF, .new)

/-- A transport: the segments to come, and the error it ends with. -/
structure Source where
  segments : List MultiBuffer
  err : Error

namespace Source

/-- The bytes to come. -/
def bytes (s : Source) : Bytes := s.segments.flatMap MultiBuffer.bytes

/-- One read. -/
def readMultiBuffer (s : Source) : Except Error MultiBuffer × Source :=
  match s.segments with
  | [] => (.error s.err, s)
  | mb :: segments => (.ok mb, { s with segments })

end Source

/-- A reader that keeps what it has been handed and was not asked for yet. -/
structure BufferedReader where
  buffer : MultiBuffer := []
  reader : Source

namespace BufferedReader

variable (r : BufferedReader)

/-- The bytes to come. -/
def bytes : Bytes := MultiBuffer.bytes r.buffer ++ r.reader.bytes

/-- The number of bytes at hand. -/
def bufferedBytes : ℕ := MultiBuffer.len r.buffer

/-- Reads up to `n` bytes, from the bytes at hand if there are any. -/
def read (n : ℕ) : Except Error Bytes × BufferedReader :=
  if !MultiBuffer.isEmpty r.buffer then
    let (buffer, out) := MultiBuffer.splitBytes r.buffer n
    (.ok out, { r with buffer })
  else
    match r.reader.readMultiBuffer with
    | (.ok mb, reader) =>
      let (buffer, out) := MultiBuffer.splitBytes mb n
      (.ok out, { buffer, reader })
    | (.error e, reader) => (.error e, { r with reader })

/-- Reads whatever comes next. -/
def readMultiBuffer : Except Error MultiBuffer × BufferedReader :=
  if !MultiBuffer.isEmpty r.buffer then (.ok r.buffer, { r with buffer := [] })
  else
    let (out, reader) := r.reader.readMultiBuffer
    (out, { r with reader })

/-- Reads at most `n` bytes, as buffers. A read of the transport comes with
    buffers or with an error, not both. -/
def readAtMost (n : ℕ) : Except Error MultiBuffer × BufferedReader :=
  let (filled, r) : Except Error Unit × BufferedReader :=
    if MultiBuffer.isEmpty r.buffer then
      match r.reader.readMultiBuffer with
      | (.ok mb, reader) => (.ok (), { buffer := mb, reader })
      | (.error e, reader) => (.error e, { r with reader })
    else (.ok (), r)
  match filled with
  | .ok _ =>
    let (buffer, out) := MultiBuffer.splitSize r.buffer n
    (.ok out, { r with buffer })
  | .error e => (.error e, r)

/-- The loop of `io.ReadFull`: reads until there are `n` bytes. An iteration that
    leaves bytes missing uses the bytes at hand up, or a segment, which bounds
    the number of iterations. -/
def readFullLoop : ℕ → BufferedReader → ℕ → Bytes × Option Error × BufferedReader
  | 0, r, _ => ([], none, r)
  | fuel + 1, r, n =>
    if n = 0 then ([], none, r)
    else
      match r.read n with
      | (.ok out, r) =>
        let (out', err, r) := readFullLoop fuel r (n - out.length)
        (out ++ out', err, r)
      | (.error e, r) => ([], some e, r)

/-- `io.ReadFull`: reads exactly `n` bytes. -/
def readFull (n : ℕ) : Except Error Bytes × BufferedReader :=
  match readFullLoop (r.reader.segments.length + 2) r n with
  | (out, none, r) => (.ok out, r)
  | (out, some .eof, r) => (.error (if out.isEmpty then .eof else .unexpectedEOF), r)
  | (_, some e, r) => (.error e, r)

/-! ## Reading depends on the bytes only -/

/-- What a read of up to `n` bytes does: it hands over the next bytes, or there
    are none. -/
theorem read_cases (n : ℕ) :
    (∃ out r', r.read n = (.ok out, r') ∧ out ++ r'.bytes = r.bytes ∧ out.length ≤ n ∧
      r'.reader.err = r.reader.err ∧ r'.reader.segments.length ≤ r.reader.segments.length ∧
      (out.length < n → MultiBuffer.bytes r'.buffer = [] ∧
        (MultiBuffer.bytes r.buffer = [] →
          r'.reader.segments.length < r.reader.segments.length))) ∨
    r.read n = (.error r.reader.err, r) ∧ r.bytes = [] ∧ r.reader.segments = [] := by
  unfold read
  split
  · rename_i h
    rw [Bool.not_eq_true', MultiBuffer.isEmpty_eq_false_iff] at h
    refine .inl ⟨_, _, rfl, ?_, ?_, rfl, le_rfl, fun hlt => ⟨?_, fun h' => absurd h' h⟩⟩
    · simp [bytes, ← List.append_assoc]
    · simp
    · simp only [MultiBuffer.splitBytes_snd, List.length_take] at hlt
      simp only [MultiBuffer.splitBytes_fst_bytes, List.drop_eq_nil_iff]
      omega
  · rename_i h
    rw [Bool.not_eq_true', Bool.not_eq_false, MultiBuffer.isEmpty_iff] at h
    unfold Source.readMultiBuffer
    cases hs : r.reader.segments with
    | nil => exact .inr ⟨rfl, by simp [bytes, Source.bytes, h, hs], rfl⟩
    | cons mb segments =>
      refine .inl ⟨_, _, rfl, ?_, ?_, rfl, by simp, fun hlt => ⟨?_, fun _ => by simp⟩⟩
      · simp [bytes, Source.bytes, h, hs, ← List.append_assoc]
      · simp
      · simp only [MultiBuffer.splitBytes_snd, List.length_take] at hlt
        simp only [MultiBuffer.splitBytes_fst_bytes, List.drop_eq_nil_iff]
        omega

/-- The loop of `io.ReadFull` takes the bytes asked for, or all there are. -/
theorem readFullLoop_spec (fuel : ℕ) (r : BufferedReader) (n : ℕ)
    (hfuel : r.reader.segments.length + (if MultiBuffer.bytes r.buffer = [] then 1 else 2) ≤ fuel) :
    ∃ r', r'.bytes = r.bytes.drop n ∧ r'.reader.err = r.reader.err ∧
      (r.bytes.length < n → r'.reader.segments = []) ∧
      readFullLoop fuel r n =
        (r.bytes.take n, if n ≤ r.bytes.length then none else some r.reader.err, r') := by
  induction fuel generalizing r n with
  | zero => split at hfuel <;> omega
  | succ fuel ih =>
    rw [readFullLoop]
    split
    · rename_i hn
      exact ⟨r, by simp [hn], rfl, by simp [hn], by simp [hn]⟩
    · rename_i hn
      rcases r.read_cases n with
        ⟨out, r', hr, hbytes, hlen, herr, hsegs, hshort⟩ | ⟨hr, hbytes, hsegs⟩
      · rw [hr]
        dsimp only
        rcases Nat.eq_or_lt_of_le hlen with heq | hlt
        · -- the bytes asked for are there
          have hstop : readFullLoop fuel r' (n - out.length) = ([], none, r') := by
            rw [heq, Nat.sub_self]
            cases fuel <;> simp [readFullLoop]
          rw [hstop, ← hbytes]
          refine ⟨r', by simp [← heq], herr, fun hlt => ?_, by simp [← heq]⟩
          rw [List.length_append] at hlt
          omega
        · obtain ⟨hempty, hfewer⟩ := hshort hlt
          obtain ⟨r'', hbytes', herr', hsegs', hloop⟩ := ih r' (n - out.length) (by
            rw [if_pos hempty]
            split at hfuel
            · rename_i h; have := hfewer h; omega
            · omega)
          rw [hloop, ← hbytes]
          refine ⟨r'', ?_, herr'.trans herr, fun hlt => hsegs' ?_, ?_⟩
          · rw [hbytes', List.drop_append, List.drop_of_length_le hlen, List.nil_append]
          · rw [List.length_append] at hlt
            omega
          · rw [List.take_append, List.take_of_length_le hlen, List.length_append, herr]
            congr 2
            split <;> split <;> first | rfl | omega
      · rw [hr, hbytes]
        exact ⟨r, by simp [hbytes], rfl, fun _ => hsegs, by simp [hn]⟩

/-- The bytes at hand are the first of those to come. -/
theorem bufferedBytes_le : r.bufferedBytes ≤ r.bytes.length := by
  rw [bufferedBytes, MultiBuffer.len_eq, bytes, List.length_append]
  exact Nat.le_add_right _ _

/-- The error of a read of more bytes than there are. -/
def shortError (left : Bytes) (err : Error) : Error :=
  if err = .eof then (if left = [] then .eof else .unexpectedEOF) else err

/-- A read of no more bytes than there are takes the first ones. -/
theorem readFull_ok {n : ℕ} (h : n ≤ r.bytes.length) :
    ∃ r', r.readFull n = (.ok (r.bytes.take n), r') ∧ r'.bytes = r.bytes.drop n ∧
      r'.reader.err = r.reader.err := by
  obtain ⟨r', hbytes, herr, _, hloop⟩ := readFullLoop_spec (r.reader.segments.length + 2) r n
    (by split <;> omega)
  rw [if_pos h] at hloop
  exact ⟨r', by rw [readFull, hloop], hbytes, herr⟩

/-- A read of more bytes than there are uses them up, and ends in an error. -/
theorem readFull_short {n : ℕ} (h : r.bytes.length < n) :
    ∃ r', r.readFull n = (.error (shortError r.bytes r.reader.err), r') ∧ r'.bytes = [] ∧
      r'.reader.err = r.reader.err ∧ r'.reader.segments = [] := by
  obtain ⟨r', hbytes, herr, hsegs, hloop⟩ := readFullLoop_spec (r.reader.segments.length + 2) r n
    (by split <;> omega)
  rw [if_neg (not_le.2 h), List.take_of_length_le h.le] at hloop
  rw [List.drop_of_length_le h.le] at hbytes
  refine ⟨r', ?_, hbytes, herr, hsegs h⟩
  rw [readFull, hloop, shortError]
  cases r.reader.err <;> simp

/-- A read that succeeds takes the first bytes. -/
theorem readFull_eq_ok {n : ℕ} {p : Bytes} {r' : BufferedReader} (h : r.readFull n = (.ok p, r')) :
    p.length = n ∧ r.bytes = p ++ r'.bytes ∧ r'.reader.err = r.reader.err := by
  rcases le_or_gt n r.bytes.length with hn | hn
  · obtain ⟨_, hread, hbytes, herr⟩ := r.readFull_ok hn
    obtain ⟨rfl, rfl⟩ : p = _ ∧ r' = _ := by simpa using h.symm.trans hread
    exact ⟨List.length_take_of_le hn, by rw [hbytes, List.take_append_drop], herr⟩
  · obtain ⟨_, hread, -⟩ := r.readFull_short hn
    simp [h] at hread

/-! ## Reading within the first segment -/

/-- A read of no more bytes than there are at hand reads no segment. -/
theorem readFull_buffered {n : ℕ} (h : n ≤ (MultiBuffer.bytes r.buffer).length) :
    ∃ buffer, r.readFull n = (.ok ((MultiBuffer.bytes r.buffer).take n), { r with buffer }) ∧
      MultiBuffer.bytes buffer = (MultiBuffer.bytes r.buffer).drop n := by
  rcases Nat.eq_zero_or_pos n with rfl | hn
  · exact ⟨r.buffer, by simp [readFull, readFullLoop], by simp⟩
  · have hne : MultiBuffer.isEmpty r.buffer = false := by
      rw [MultiBuffer.isEmpty_eq_false_iff]
      intro h'
      rw [h'] at h
      exact absurd h (by simpa using hn.ne')
    have hsub : n - (MultiBuffer.splitBytes r.buffer n).2.length = 0 := by simp [h]
    refine ⟨(MultiBuffer.splitBytes r.buffer n).1, ?_, by simp⟩
    simp only [readFull, readFullLoop, read, hn.ne', hne, if_false, Bool.not_false, if_true, hsub]
    simp

/-- With none at hand, a read of no more bytes than the next segment has reads
    that segment. -/
theorem readFull_segment {n : ℕ} {mb : MultiBuffer} {segments : List MultiBuffer}
    (hbuffer : MultiBuffer.bytes r.buffer = []) (hsegments : r.reader.segments = mb :: segments)
    (hn : 0 < n) (h : n ≤ (MultiBuffer.bytes mb).length) :
    ∃ buffer, r.readFull n =
        (.ok ((MultiBuffer.bytes mb).take n), ⟨buffer, { r.reader with segments }⟩) ∧
      MultiBuffer.bytes buffer = (MultiBuffer.bytes mb).drop n := by
  have hempty : MultiBuffer.isEmpty r.buffer = true := by rw [MultiBuffer.isEmpty_iff, hbuffer]
  have hsub : n - (MultiBuffer.splitBytes mb n).2.length = 0 := by simp [h]
  refine ⟨(MultiBuffer.splitBytes mb n).1, ?_, by simp⟩
  simp only [readFull, readFullLoop, read, Source.readMultiBuffer, hsegments, hn.ne', hempty,
    if_false, Bool.not_true, Bool.false_eq_true, hsub]
  simp

end BufferedReader

end Gzv2ray
