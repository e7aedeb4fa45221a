import Gzv2ray.Buf.Copy

/-!
# Buffered writers

A `BufferedWriter` keeps what it is given in a buffer, and hands it to its sink when the buffer is
full, when it is flushed, or at once if it is not to buffer. The sink takes buffers, and may take
bytes too.

`bufferedWriter_fifo`: what the sink has received and what is in the buffer is all that was
written, in order, if the sink does not fail.
-/

namespace Gzv2ray

/-! ## Sinks -/

/-- A writer of buffers, which may be a writer of bytes too. -/
structure Sink (σ : Type) where
  isWriter : Bool
  write : σ → Bytes → (ℕ × Option Error) × σ
  writeMultiBuffer : σ → MultiBuffer → Option Error × σ

namespace Sink

variable {σ : Type} (k : Sink σ)

/-- The sink takes all that it is given. -/
structure IsSound (received : σ → Bytes) : Prop where
  write_fst (s b) : (k.write s b).1 = (b.length, none)
  write_snd (s b) : received (k.write s b).2 = received s ++ b
  writeMultiBuffer_fst (s mb) : (k.writeMultiBuffer s mb).1 = none
  writeMultiBuffer_snd (s mb) :
    received (k.writeMultiBuffer s mb).2 = received s ++ MultiBuffer.bytes mb

/-- The loop of `WriteAllBytes`. A write takes at least a byte, which bounds the iterations. -/
def writeAllLoop : ℕ → σ → Bytes → Option Error × σ
  | 0, s, _ => (none, s)
  | fuel + 1, s, payload =>
    if payload.isEmpty then (none, s)
    else
      match k.write s payload with
      | ((_, some e), s) => (some e, s)
      | ((n, none), s) => writeAllLoop fuel s (payload.drop n)

def writeAllBytes (s : σ) (payload : Bytes) : Option Error × σ :=
  k.writeAllLoop payload.length s payload

variable {k} {received : σ → Bytes}

theorem IsSound.exists_write (h : k.IsSound received) (s : σ) (b : Bytes) :
    ∃ s', k.write s b = ((b.length, none), s') ∧ received s' = received s ++ b :=
  ⟨_, Prod.ext (h.write_fst s b) rfl, h.write_snd s b⟩

theorem IsSound.exists_writeMultiBuffer (h : k.IsSound received) (s : σ) (mb : MultiBuffer) :
    ∃ s', k.writeMultiBuffer s mb = (none, s') ∧
      received s' = received s ++ MultiBuffer.bytes mb :=
  ⟨_, Prod.ext (h.writeMultiBuffer_fst s mb) rfl, h.writeMultiBuffer_snd s mb⟩

theorem IsSound.writeAllBytes (h : k.IsSound received) (s : σ) (payload : Bytes) :
    (k.writeAllBytes s payload).1 = none ∧
      received (k.writeAllBytes s payload).2 = received s ++ payload := by
  rw [Sink.writeAllBytes]
  rcases payload with - | ⟨b, payload⟩
  · exact ⟨rfl, (List.append_nil _).symm⟩
  · obtain ⟨s', hs, hreceived⟩ := h.exists_write s (b :: payload)
    -- the first write takes everything
    have hrest : k.writeAllLoop payload.length s' [] = (none, s') := by
      rcases payload.length with - | fuel <;> rfl
    rw [List.length_cons, writeAllLoop, if_neg (by simp), hs]
    dsimp only
    rw [List.drop_length, hrest]
    exact ⟨rfl, hreceived⟩

end Sink

/-! ## The writer -/

/-- What a reader returns until it fails: data, and then data together with an error. -/
structure ReaderRun where
  pieces : List MultiBuffer := []
  last : MultiBuffer := []
  err : Error

/-- The bytes that the reader returns. -/
def ReaderRun.bytes (r : ReaderRun) : Bytes :=
  r.pieces.flatMap MultiBuffer.bytes ++ MultiBuffer.bytes r.last

structure BufferedWriter (σ : Type) where
  writer : σ
  buffer : Option Buffer
  buffered : Bool

namespace BufferedWriter

variable {σ : Type} (k : Sink σ) (w : BufferedWriter σ)

def new (s : σ) : BufferedWriter σ where
  writer := s
  buffer := some .new
  buffered := true

/-- The bytes in the buffer. -/
def bytes : Bytes := (w.buffer.map Buffer.bytes).getD []

def flushInternal : Option Error × BufferedWriter σ :=
  match w.buffer with
  | none => (none, w)
  | some b =>
    if b.isEmpty then (none, w)
    else if k.isWriter then
      let (err, s) := k.writeAllBytes w.writer b.bytes
      (err, { w with writer := s, buffer := none })
    else
      let (err, s) := k.writeMultiBuffer w.writer [b]
      (err, { w with writer := s, buffer := none })

/-- The loop of `Write`. An iteration takes at least a byte, which bounds their number. -/
def writeLoop : ℕ → BufferedWriter σ → Bytes → (ℕ × Option Error) × BufferedWriter σ
  | 0, w, _ => ((0, none), w)
  | fuel + 1, w, b =>
    if b.isEmpty then ((0, none), w)
    else
      let (buffer, nBytes) := (w.buffer.getD .new).write b
      let w := { w with buffer := some buffer }
      match if !w.buffered || buffer.isFull then w.flushInternal k else (none, w) with
      | (some err, w) => ((nBytes, some err), w)
      | (none, w) =>
        let ((n, err), w) := writeLoop fuel w (b.drop nBytes)
        ((nBytes + n, err), w)

/-- How much was written. A sink of bytes is handed them as they are, if there is no
    buffering. -/
def write (b : Bytes) : (ℕ × Option Error) × BufferedWriter σ :=
  if b.isEmpty then ((0, none), w)
  else if !w.buffered && k.isWriter then
    let (out, s) := k.write w.writer b
    (out, { w with writer := s })
  else writeLoop k b.length w b

def writeByte (c : UInt8) : Option Error × BufferedWriter σ :=
  let ((_, err), w) := w.write k [c]
  (err, w)

/-- The loop of `WriteMultiBuffer`: the buffer is filled from the content. -/
def mergeLoop : ℕ → BufferedWriter σ → MultiBuffer → Option Error × BufferedWriter σ
  | 0, w, _ => (none, w)
  | fuel + 1, w, mb =>
    if MultiBuffer.isEmpty mb then (none, w)
    else
      let last := w.buffer.getD .new
      let (mb, out) := MultiBuffer.splitBytes mb (bufSize - last.stop)
      let buffer := (last.write out).1
      let w := { w with buffer := some buffer }
      match if buffer.isFull then w.flushInternal k else (none, w) with
      | (some err, w) => (some err, w)
      | (none, w) => mergeLoop fuel w mb

def writeMultiBuffer (mb : MultiBuffer) : Option Error × BufferedWriter σ :=
  if MultiBuffer.isEmpty mb then (none, w)
  else if !w.buffered then
    let (err, s) := k.writeMultiBuffer w.writer mb
    (err, { w with writer := s })
  else mergeLoop k (MultiBuffer.len mb) w mb

def flush : Option Error × BufferedWriter σ := w.flushInternal k

def setBuffered (f : Bool) : Option Error × BufferedWriter σ :=
  let w := { w with buffered := f }
  if !f then w.flushInternal k else (none, w)

/-- A copy of what a reader returns, with the number of bytes. -/
def copyRun : BufferedWriter σ → List MultiBuffer → MultiBuffer → Error →
    (ℕ × CopyError) × BufferedWriter σ
  | w, [], last, err =>
    if MultiBuffer.isEmpty last then ((0, .read err), w)
    else
      match w.writeMultiBuffer k last with
      | (some werr, w) => ((MultiBuffer.len last, .write werr), w)
      | (none, w) => ((MultiBuffer.len last, .read err), w)
  | w, mb :: pieces, last, err =>
    if MultiBuffer.isEmpty mb then copyRun w pieces last err
    else
      match w.writeMultiBuffer k mb with
      | (some werr, w) => ((MultiBuffer.len mb, .write werr), w)
      | (none, w) =>
        let ((n, e), w) := copyRun w pieces last err
        ((MultiBuffer.len mb + n, e), w)

/-- How a copy ends, as an error. -/
def ended : CopyOutcome → Outcome Unit
  | .ok => .ok ()
  | .error e => .error (.new e.text)
  | .panic => .panic

/-- There is no buffering any more afterwards. -/
def readFrom (r : ReaderRun) : (ℕ × Outcome Unit) × BufferedWriter σ :=
  match w.setBuffered k false with
  | (some err, w) => ((0, .error err), w)
  | (none, w) =>
    let ((n, e), w) := copyRun k w r.pieces r.last r.err
    ((n, ended (copyOutcome e)), w)

end BufferedWriter

/-! ## Calls -/

inductive WriterCall
  | write (b : Bytes)
  | writeByte (c : UInt8)
  | writeMultiBuffer (mb : MultiBuffer)
  | readFrom (r : ReaderRun)
  | flush
  | setBuffered (f : Bool)

/-- The bytes that a call is given. -/
def WriterCall.input : WriterCall → Bytes
  | write b => b
  | writeByte c => [c]
  | writeMultiBuffer mb => MultiBuffer.bytes mb
  | readFrom r => r.bytes
  | flush => []
  | setBuffered _ => []

namespace BufferedWriter

variable {σ : Type} (k : Sink σ) (w : BufferedWriter σ)

/-- The writer after a call. -/
def step : WriterCall → BufferedWriter σ
  | .write b => (w.write k b).2
  | .writeByte c => (w.writeByte k c).2
  | .writeMultiBuffer mb => (w.writeMultiBuffer k mb).2
  | .readFrom r => (w.readFrom k r).2
  | .flush => (w.flush k).2
  | .setBuffered f => (w.setBuffered k f).2

/-- The writer after some calls. -/
def run (calls : List WriterCall) : BufferedWriter σ := calls.foldl (step k) w

/-! ## What is kept -/

/-- There is room in the buffer, and no content if there is no buffering. -/
structure IsGood : Prop where
  room (b) : w.buffer = some b → b.stop < bufSize
  unbuffered : w.buffered = false → w.bytes = []

/-- All bytes that the writer was given. -/
def all (received : σ → Bytes) : Bytes := received w.writer ++ w.bytes

variable {k w} {received : σ → Bytes}

/-- A flush hands over what is in the buffer, if there is anything. -/
theorem flushInternal_cases (hk : k.IsSound received) (w : BufferedWriter σ) :
    w.flushInternal k = (none, w) ∧ w.bytes = [] ∨
      ∃ s, w.flushInternal k = (none, { w with writer := s, buffer := none }) ∧
        received s = w.all received := by
  rw [flushInternal, all, bytes]
  rcases w.buffer with - | b
  · exact .inl ⟨rfl, rfl⟩
  · dsimp only [Option.map_some, Option.getD_some]
    split
    · rename_i hempty
      exact .inl ⟨rfl, (Buffer.isEmpty_iff b).1 hempty⟩
    · split
      · obtain ⟨hfst, hsnd⟩ := hk.writeAllBytes w.writer b.bytes
        exact .inr ⟨_, by rw [hfst], hsnd⟩
      · have hreceived := hk.writeMultiBuffer_snd w.writer [b]
        rw [MultiBuffer.bytes_cons, MultiBuffer.bytes_nil, List.append_nil] at hreceived
        exact .inr ⟨_, by rw [hk.writeMultiBuffer_fst], hreceived⟩

theorem bytes_none {s : σ} {f : Bool} : (⟨s, none, f⟩ : BufferedWriter σ).bytes = [] := rfl

theorem isGood_none {s : σ} {f : Bool} : (⟨s, none, f⟩ : BufferedWriter σ).IsGood :=
  ⟨fun _ hb => (Option.some_ne_none _ hb.symm).elim, fun _ => rfl⟩

/-- A flush of a good writer leaves a good one with an empty buffer. -/
theorem flushInternal_spec (hk : k.IsSound received)
    (hroom : ∀ b, w.buffer = some b → b.stop < bufSize) : ∃ w', w.flushInternal k = (none, w') ∧
      w'.IsGood ∧ w'.bytes = [] ∧ w'.buffered = w.buffered ∧ w'.all received = w.all received := by
  rcases flushInternal_cases hk w with ⟨heq, hempty⟩ | ⟨s, heq, hs⟩
  · exact ⟨w, heq, ⟨hroom, fun _ => hempty⟩, hempty, rfl, rfl⟩
  · exact ⟨_, heq, isGood_none, rfl, rfl, by rw [all, bytes_none, List.append_nil, hs]⟩

/-- Some bytes are taken into the buffer, which is flushed if it is full, or if there is no
    buffering. -/
theorem fill_spec (hk : k.IsSound received) (hgood : w.IsGood) {d : Bytes} (hd : d ≠ []) :
    0 < ((w.buffer.getD .new).write d).2 ∧ ((w.buffer.getD .new).write d).2 ≤ d.length ∧
      ∃ w', (if !w.buffered || ((w.buffer.getD .new).write d).1.isFull then
          flushInternal k { w with buffer := some ((w.buffer.getD .new).write d).1 }
        else (none, { w with buffer := some ((w.buffer.getD .new).write d).1 })) = (none, w') ∧
      w'.IsGood ∧ w'.buffered = w.buffered ∧
      w'.all received = w.all received ++ d.take ((w.buffer.getD .new).write d).2 := by
  have hroom : (w.buffer.getD .new).stop < bufSize := by
    rcases hbuffer : w.buffer with - | b
    · exact Nat.zero_lt_succ _
    · exact hgood.room b hbuffer
  have hbytes : (w.buffer.getD .new).bytes = w.bytes := by
    rw [bytes]
    rcases w.buffer with - | b <;> rfl
  have hpos := List.length_pos_iff.2 hd
  have hstop : ((w.buffer.getD .new).write d).1.stop =
      (w.buffer.getD .new).stop + ((w.buffer.getD .new).write d).2 := by
    simp only [Buffer.write, Buffer.stop, List.length_append, List.length_take]
    omega
  have hwrite : ((w.buffer.getD .new).write d).1.bytes =
      w.bytes ++ d.take ((w.buffer.getD .new).write d).2 := by
    rw [← hbytes]
    rfl
  have hn : ((w.buffer.getD .new).write d).2 =
      min (bufSize - (w.buffer.getD .new).stop) d.length := rfl
  generalize (w.buffer.getD .new).write d = t at hstop hwrite hn ⊢
  obtain ⟨b, n⟩ := t
  dsimp only at hstop hwrite hn ⊢
  refine ⟨by omega, by omega, ?_⟩
  split
  · rcases flushInternal_cases hk { w with buffer := some b } with ⟨-, hempty⟩ | ⟨s, heq, hs⟩
    · -- there is something in the buffer
      have hlen := congrArg List.length (hwrite.symm.trans hempty)
      rw [List.length_append, List.length_take, List.length_nil] at hlen
      omega
    · refine ⟨_, heq, isGood_none, rfl, ?_⟩
      rw [all, bytes_none, List.append_nil, hs, all, all, List.append_assoc, ← hwrite]
      rfl
  · rename_i hkeep
    rw [Bool.or_eq_true, not_or, Bool.not_eq_true', Bool.not_eq_false, Buffer.isFull,
      beq_iff_eq] at hkeep
    have hfits := b.fits
    refine ⟨_, rfl, ⟨fun b' hb' => ?_, fun hfalse => ?_⟩, rfl, ?_⟩
    · obtain rfl := Option.some.inj hb'
      exact lt_of_le_of_ne hfits hkeep.2
    · rw [hkeep.1] at hfalse
      cases hfalse
    · rw [all, all, List.append_assoc, ← hwrite]
      rfl

/-- All is written, if the fuel lasts. -/
theorem writeLoop_spec (hk : k.IsSound received) {fuel : ℕ} {b : Bytes} (hfuel : b.length ≤ fuel)
    (hgood : w.IsGood) : ∃ w', writeLoop k fuel w b = ((b.length, none), w') ∧ w'.IsGood ∧
      w'.buffered = w.buffered ∧ w'.all received = w.all received ++ b := by
  induction fuel generalizing w b with
  | zero =>
    obtain rfl := List.length_eq_zero_iff.1 (Nat.le_zero.1 hfuel)
    exact ⟨w, rfl, hgood, rfl, (List.append_nil _).symm⟩
  | succ fuel ih =>
    rw [writeLoop]
    by_cases hb : b = []
    · rw [if_pos (List.isEmpty_iff.2 hb), hb]
      exact ⟨w, rfl, hgood, rfl, (List.append_nil _).symm⟩
    · obtain ⟨hpos, hle, w₁, hfill, hgood₁, hbuffered₁, hall₁⟩ := fill_spec hk hgood hb
      rw [if_neg (by simpa using hb)]
      dsimp only
      rw [hfill]
      dsimp only
      obtain ⟨w', hloop, hgood', hbuffered', hall'⟩ :=
        ih (b := b.drop ((w.buffer.getD .new).write b).2) (by rw [List.length_drop]; omega) hgood₁
      rw [hloop]
      refine ⟨w', ?_, hgood', hbuffered'.trans hbuffered₁, ?_⟩
      · rw [List.length_drop, Nat.add_sub_cancel' hle]
      · rw [hall', hall₁, List.append_assoc, List.take_append_drop]

theorem mergeLoop_spec (hk : k.IsSound received) {fuel : ℕ} {mb : MultiBuffer}
    (hfuel : MultiBuffer.len mb ≤ fuel) (hgood : w.IsGood) (hbuffered : w.buffered = true) :
    ∃ w', mergeLoop k fuel w mb = (none, w') ∧ w'.IsGood ∧
      w'.buffered = w.buffered ∧ w'.all received = w.all received ++ MultiBuffer.bytes mb := by
  induction fuel generalizing w mb with
  | zero =>
    rw [MultiBuffer.len_eq] at hfuel
    rw [List.length_eq_zero_iff.1 (Nat.le_zero.1 hfuel)]
    exact ⟨w, rfl, hgood, rfl, (List.append_nil _).symm⟩
  | succ fuel ih =>
    rw [mergeLoop]
    by_cases hempty : MultiBuffer.isEmpty mb
    · rw [if_pos hempty, (MultiBuffer.isEmpty_iff mb).1 hempty]
      exact ⟨w, rfl, hgood, rfl, (List.append_nil _).symm⟩
    · rw [if_neg hempty]
      have hne : MultiBuffer.bytes mb ≠ [] := fun h => hempty ((MultiBuffer.isEmpty_iff mb).2 h)
      dsimp only
      have hsnd := MultiBuffer.splitBytes_snd mb (bufSize - (w.buffer.getD .new).stop)
      have hfst := MultiBuffer.splitBytes_fst_bytes mb (bufSize - (w.buffer.getD .new).stop)
      generalize MultiBuffer.splitBytes mb (bufSize - (w.buffer.getD .new).stop) = t at hsnd hfst ⊢
      obtain ⟨rest, out⟩ := t
      dsimp only at hsnd hfst ⊢
      have hroom : (w.buffer.getD .new).stop < bufSize := by
        rcases hbuffer : w.buffer with - | b
        · exact Nat.zero_lt_succ _
        · exact hgood.room b hbuffer
      have hout : out ≠ [] := by
        rw [hsnd, Ne, List.take_eq_nil_iff, not_or]
        exact ⟨by omega, hne⟩
      obtain ⟨hpos, hle, w₁, hfill, hgood₁, hbuffered₁, hall₁⟩ := fill_spec hk hgood hout
      -- what was split off fits in the buffer
      have hn : ((w.buffer.getD .new).write out).2 = out.length := by
        have hlen := congrArg List.length hsnd
        rw [List.length_take] at hlen
        exact Nat.min_eq_right (by omega)
      have hflush : (!w.buffered || ((w.buffer.getD .new).write out).1.isFull) =
          ((w.buffer.getD .new).write out).1.isFull := by rw [hbuffered]; rfl
      rw [hflush] at hfill
      rw [hfill]
      dsimp only
      rw [hn, List.take_length] at hall₁
      have hlen : MultiBuffer.len rest ≤ fuel := by
        rw [MultiBuffer.len_eq] at hfuel ⊢
        have hout' := List.length_pos_iff.2 hout
        rw [hsnd, List.length_take] at hout'
        rw [hfst, List.length_drop]
        omega
      obtain ⟨w', hloop, hgood', hbuffered', hall'⟩ := ih hlen hgood₁ (hbuffered₁.trans hbuffered)
      refine ⟨w', hloop, hgood', hbuffered'.trans hbuffered₁, ?_⟩
      rw [hall', hall₁, hsnd, hfst, List.append_assoc, List.take_append_drop]

/-- A sink of bytes, or of buffers, takes what is not buffered. -/
theorem all_writer (hgood : w.IsGood) (hbuffered : w.buffered = false) {s : σ} {b : Bytes}
    (hs : received s = received w.writer ++ b) :
    ({ w with writer := s } : BufferedWriter σ).IsGood ∧
      ({ w with writer := s } : BufferedWriter σ).all received = w.all received ++ b := by
  have hempty := hgood.unbuffered hbuffered
  refine ⟨⟨hgood.room, fun _ => hempty⟩, ?_⟩
  rw [all, all, hempty, List.append_nil, show bytes { w with writer := s } = [] from hempty,
    List.append_nil, hs]

theorem write_spec (hk : k.IsSound received) (hgood : w.IsGood) (b : Bytes) :
    ∃ w', w.write k b = ((b.length, none), w') ∧ w'.IsGood ∧ w'.buffered = w.buffered ∧
      w'.all received = w.all received ++ b := by
  rw [write]
  by_cases hb : b = []
  · rw [if_pos (List.isEmpty_iff.2 hb), hb]
    exact ⟨w, rfl, hgood, rfl, (List.append_nil _).symm⟩
  · rw [if_neg (by simpa using hb)]
    split
    · rename_i hdirect
      rw [Bool.and_eq_true, Bool.not_eq_true'] at hdirect
      obtain ⟨s, hs, hreceived⟩ := hk.exists_write w.writer b
      obtain ⟨hgood', hall'⟩ := all_writer hgood hdirect.1 hreceived
      rw [hs]
      exact ⟨_, rfl, hgood', rfl, hall'⟩
    · exact writeLoop_spec hk le_rfl hgood

theorem writeMultiBuffer_spec (hk : k.IsSound received) (hgood : w.IsGood) (mb : MultiBuffer) :
    ∃ w', w.writeMultiBuffer k mb = (none, w') ∧ w'.IsGood ∧ w'.buffered = w.buffered ∧
      w'.all received = w.all received ++ MultiBuffer.bytes mb := by
  rw [writeMultiBuffer]
  by_cases hempty : MultiBuffer.isEmpty mb
  · rw [if_pos hempty, (MultiBuffer.isEmpty_iff mb).1 hempty]
    exact ⟨w, rfl, hgood, rfl, (List.append_nil _).symm⟩
  · rw [if_neg hempty]
    by_cases hbuffered : w.buffered
    · rw [if_neg (by rw [hbuffered]; decide)]
      exact mergeLoop_spec hk le_rfl hgood hbuffered
    · rw [if_pos (by rw [Bool.eq_false_of_not_eq_true hbuffered]; rfl)]
      obtain ⟨s, hs, hreceived⟩ := hk.exists_writeMultiBuffer w.writer mb
      obtain ⟨hgood', hall'⟩ :=
        all_writer hgood (Bool.eq_false_of_not_eq_true hbuffered) hreceived
      rw [hs]
      exact ⟨_, rfl, hgood', rfl, hall'⟩

theorem setBuffered_spec (hk : k.IsSound received) (hgood : w.IsGood) (f : Bool) :
    ∃ w', w.setBuffered k f = (none, w') ∧ w'.IsGood ∧ w'.buffered = f ∧
      (f = false → w'.bytes = []) ∧ w'.all received = w.all received := by
  rcases f with - | -
  · obtain ⟨w', heq, hgood', hempty, hbuffered, hall⟩ :=
      flushInternal_spec (w := { w with buffered := false }) hk hgood.room
    exact ⟨w', heq, hgood', hbuffered, fun _ => hempty, hall⟩
  · exact ⟨{ w with buffered := true }, rfl, ⟨hgood.room, fun hf => by cases hf⟩, rfl,
      fun hf => (Bool.noConfusion hf), rfl⟩

/-- A copy writes all that the reader returns. -/
theorem copyRun_spec (hk : k.IsSound received) (pieces : List MultiBuffer) (last : MultiBuffer)
    (err : Error) (hgood : w.IsGood) :
    ∃ out w', copyRun k w pieces last err = (out, w') ∧ w'.IsGood ∧ w'.buffered = w.buffered ∧
      w'.all received = w.all received ++ (pieces.flatMap MultiBuffer.bytes ++
        MultiBuffer.bytes last) := by
  induction pieces generalizing w with
  | nil =>
    rw [copyRun]
    split
    · rename_i hempty
      rw [(MultiBuffer.isEmpty_iff last).1 hempty]
      exact ⟨_, w, rfl, hgood, rfl, (List.append_nil _).symm⟩
    · obtain ⟨w', hwrite, hgood', hbuffered', hall'⟩ := writeMultiBuffer_spec hk hgood last
      rw [hwrite]
      exact ⟨_, w', rfl, hgood', hbuffered', hall'⟩
  | cons mb pieces ih =>
    rw [copyRun]
    split
    · rename_i hempty
      rw [List.flatMap_cons, (MultiBuffer.isEmpty_iff mb).1 hempty, List.nil_append]
      exact ih hgood
    · obtain ⟨w₁, hwrite, hgood₁, hbuffered₁, hall₁⟩ := writeMultiBuffer_spec hk hgood mb
      obtain ⟨out, w', hcopy, hgood', hbuffered', hall'⟩ := ih hgood₁
      rw [hwrite]
      dsimp only
      rw [hcopy]
      refine ⟨_, w', rfl, hgood', hbuffered'.trans hbuffered₁, ?_⟩
      rw [hall', hall₁, List.flatMap_cons, List.append_assoc, List.append_assoc]

theorem readFrom_spec (hk : k.IsSound received) (hgood : w.IsGood) (r : ReaderRun) :
    ∃ out w', w.readFrom k r = (out, w') ∧ w'.IsGood ∧ w'.buffered = false ∧
      w'.all received = w.all received ++ r.bytes := by
  obtain ⟨w₁, hset, hgood₁, hbuffered₁, -, hall₁⟩ := setBuffered_spec hk hgood false
  obtain ⟨out, w', hcopy, hgood', hbuffered', hall'⟩ := copyRun_spec hk r.pieces r.last r.err hgood₁
  rw [readFrom, hset]
  dsimp only
  rw [hcopy]
  exact ⟨_, w', rfl, hgood', hbuffered'.trans hbuffered₁, by rw [hall', hall₁]; rfl⟩

/-- A call adds its bytes to those that the writer was given. -/
theorem step_spec (hk : k.IsSound received) (hgood : w.IsGood) (call : WriterCall) :
    (w.step k call).IsGood ∧ (w.step k call).all received = w.all received ++ call.input := by
  rcases call with b | c | mb | r | - | f
  · obtain ⟨w', heq, hgood', -, hall'⟩ := write_spec hk hgood b
    rw [step, heq]
    exact ⟨hgood', hall'⟩
  · obtain ⟨w', heq, hgood', -, hall'⟩ := write_spec hk hgood [c]
    rw [step, writeByte, heq]
    exact ⟨hgood', hall'⟩
  · obtain ⟨w', heq, hgood', -, hall'⟩ := writeMultiBuffer_spec hk hgood mb
    rw [step, heq]
    exact ⟨hgood', hall'⟩
  · obtain ⟨out, w', heq, hgood', -, hall'⟩ := readFrom_spec hk hgood r
    rw [step, heq]
    exact ⟨hgood', hall'⟩
  · obtain ⟨w', heq, hgood', -, -, hall'⟩ := flushInternal_spec hk hgood.room
    rw [step, flush, heq]
    exact ⟨hgood', hall'.trans (List.append_nil _).symm⟩
  · obtain ⟨w', heq, hgood', -, -, hall'⟩ := setBuffered_spec hk hgood f
    rw [step, heq]
    exact ⟨hgood', hall'.trans (List.append_nil _).symm⟩

theorem run_spec (hk : k.IsSound received) (calls : List WriterCall) (hgood : w.IsGood) :
    (w.run k calls).IsGood ∧
      (w.run k calls).all received = w.all received ++ calls.flatMap WriterCall.input := by
  induction calls generalizing w with
  | nil => exact ⟨hgood, (List.append_nil _).symm⟩
  | cons call calls ih =>
    obtain ⟨hgood₁, hall₁⟩ := step_spec hk hgood call
    obtain ⟨hgood', hall'⟩ := ih hgood₁
    exact ⟨hgood', hall'.trans (by rw [hall₁, List.flatMap_cons, List.append_assoc])⟩

theorem isGood_new (s : σ) : (new s).IsGood where
  room b hb := by
    obtain rfl := Option.some.inj hb
    exact Nat.zero_lt_succ _
  unbuffered _ := rfl

/-- The call leaves the buffer empty: it flushes, or there is no buffering. -/
def Empties (w : BufferedWriter σ) : WriterCall → Prop
  | .flush => True
  | .setBuffered f => f = false ∨ w.buffered = false
  | .readFrom _ => True
  | _ => w.buffered = false

theorem step_empty (hk : k.IsSound received) (hgood : w.IsGood) {call : WriterCall}
    (hcall : w.Empties call) : (w.step k call).bytes = [] := by
  rcases call with b | c | mb | r | - | f
  · obtain ⟨w', heq, hgood', hbuffered', -⟩ := write_spec hk hgood b
    rw [step, heq]
    exact hgood'.unbuffered (hbuffered'.trans hcall)
  · obtain ⟨w', heq, hgood', hbuffered', -⟩ := write_spec hk hgood [c]
    rw [step, writeByte, heq]
    exact hgood'.unbuffered (hbuffered'.trans hcall)
  · obtain ⟨w', heq, hgood', hbuffered', -⟩ := writeMultiBuffer_spec hk hgood mb
    rw [step, heq]
    exact hgood'.unbuffered (hbuffered'.trans hcall)
  · obtain ⟨out, w', heq, hgood', hbuffered', -⟩ := readFrom_spec hk hgood r
    rw [step, heq]
    exact hgood'.unbuffered hbuffered'
  · obtain ⟨w', heq, -, hempty, -⟩ := flushInternal_spec hk hgood.room
    rw [step, flush, heq]
    exact hempty
  · rcases f with - | -
    · obtain ⟨w', heq, -, -, hempty, -⟩ := setBuffered_spec hk hgood false
      rw [step, heq]
      exact hempty rfl
    · exact hgood.unbuffered (hcall.resolve_left Bool.true_eq_false_eq_False)

/-- What the sink has received, and then what is in the buffer, is what was written, in order. The
    buffer is empty when it was flushed or there is no buffering, and a write is told to be whole. -/
theorem bufferedWriter_fifo (hk : k.IsSound received) (s : σ) (calls : List WriterCall) :
    received ((new s).run k calls).writer ++ ((new s).run k calls).bytes =
        received s ++ calls.flatMap WriterCall.input ∧
      (∀ call, ((new s).run k calls).Empties call →
        (((new s).run k calls).step k call).bytes = []) ∧
      ∀ b, (((new s).run k calls).write k b).1 = (b.length, none) := by
  obtain ⟨hgood, hall⟩ := run_spec hk calls (isGood_new s)
  refine ⟨?_, fun call hcall => step_empty hk hgood hcall, fun b => ?_⟩
  · have hnew : (new s).all received = received s := List.append_nil _
    rw [hnew] at hall
    exact hall
  · obtain ⟨w', heq, -⟩ := write_spec hk hgood b
    rw [heq]

/-! ## Two sinks -/

/-- A sink that keeps what it is given, of buffers only or of bytes too. -/
def exampleSink (isWriter : Bool) : Sink Bytes where
  isWriter
  write s b := ((b.length, none), s ++ b)
  writeMultiBuffer s mb := (none, s ++ MultiBuffer.bytes mb)

theorem exampleSink_isSound (isWriter : Bool) : (exampleSink isWriter).IsSound id where
  write_fst _ _ := rfl
  write_snd _ _ := rfl
  writeMultiBuffer_fst _ _ := rfl
  writeMultiBuffer_snd _ _ := rfl

/-- A byte that is buffered comes before what is copied. -/
def exampleCalls : List WriterCall :=
  [.writeByte 1, .writeMultiBuffer [.ofBytes [2, 3] (by decide)],
    .readFrom { last := [.ofBytes [4] (by decide)], err := .eof }, .setBuffered true, .write [5, 6]]

theorem bufferedWriter_fifo_example :
    (((new []).run (exampleSink false) exampleCalls).writer,
      ((new []).run (exampleSink false) exampleCalls).bytes) = ([1, 2, 3, 4], [5, 6]) ∧
    ((new []).run (exampleSink false) exampleCalls).writer ++
      ((new []).run (exampleSink false) exampleCalls).bytes =
        [] ++ exampleCalls.flatMap WriterCall.input :=
  ⟨by decide, (bufferedWriter_fifo (exampleSink_isSound false) [] exampleCalls).1⟩

end BufferedWriter

end Gzv2ray
