import Gzv2ray.Crypto.AuthReader

/-!
# Reading an encrypted stream from the bytes to come

A `Wire` is a reader of which only the bytes to come are known, not how they are
cut into segments. It meets the chunks one after the other (`Wire.next`), and so
does the `AuthenticationReader`, in its calls: the segments only decide how the
chunks are shared out among the calls (`readMultiBuffer_spec`).
-/

namespace Gzv2ray

/-- A reader, without its segments. -/
structure Wire (c : ChunkCodec) where
  bytes : Bytes
  err : Error
  st : CodecState := {}
  pending : Option (UInt16 × UInt16) := none
  done : Bool := false
  pool : List Bool := []

namespace Wire

variable {c : ChunkCodec} (w : Wire c)

/-- Takes exactly `n` bytes. -/
def take (n : ℕ) : Except Error Bytes × Wire c :=
  if n ≤ w.bytes.length then (.ok (w.bytes.take n), { w with bytes := w.bytes.drop n })
  else (.error (BufferedReader.shortError w.bytes w.err), { w with bytes := [] })

/-- The size and the padding of the next chunk, or why there are none. -/
def readSize : Except ChunkEvent (UInt16 × UInt16) × Wire c :=
  match w.pending with
  | some p => (.ok p, { w with pending := none })
  | none =>
    match w.take c.sizeBytes with
    | (.error e, w) => (.error (.ended e), w)
    | (.ok b, w) =>
      let (padding, st) := c.nextPaddingLen w.st
      match c.decodeSize st b with
      | (.ok size, st) => (.ok (size, padding), { w with st })
      | (.error e, st) => (.error (.badSize e), { w with st })
      | (.panic, st) => (.error .panic, { w with st })

/-- Takes and opens a body of the given size. -/
def takeBody (size padding : UInt16) : Outcome Bytes × Wire c :=
  match w.take size.toNat with
  | (.error e, w) => (.error e, w)
  | (.ok b, w) =>
    let (out, st) := c.openBody w.st size padding b
    (out, { w with st })

/-- Takes and opens a body, through the byte pool if need be. -/
def readBody (size padding : UInt16) : Outcome Bytes × Wire c :=
  if size.toNat ≤ bufSize then w.takeBody size padding
  else
    match w.pool with
    | true :: pool => (.panic, { w with pool })
    | _ => { w with pool := w.pool.tail }.takeBody size padding

/-- The next chunk. -/
def next : ChunkEvent × Wire c :=
  if w.done then (.eof, w)
  else
    match w.readSize with
    | (.error event, w) => (event, w)
    | (.ok (size, padding), w) =>
      if size = UInt16.ofNat c.auth.overhead + padding then (.eof, { w with done := true })
      else
        let (out, w) := w.readBody size padding
        (.body size padding out, w)

/-- The chunks met one after the other, none of which makes a call return an error. -/
inductive Steps : Wire c → List ChunkEvent → Wire c → Prop
  | nil (w : Wire c) : Steps w [] w
  | cons {w w' w'' : Wire c} {event : ChunkEvent} {l : List ChunkEvent} :
    w.next = (event, w') → event.outcome = .ok () → Steps w' l w'' → Steps w (event :: l) w''

end Wire

namespace ChunkCodec

variable (c : ChunkCodec)

theorem openBody_error {st : CodecState} {size padding : UInt16} {b : Bytes} {e : Error}
    (h : (c.openBody st size padding b).1 = .error e) : e ≠ .errSoft ∧ e.text ≠ Error.eof.text := by
  unfold openBody at h
  split at h
  · split at h
    · cases h
    · exact c.open_error h
  · exact c.open_error h

end ChunkCodec

namespace Wire

variable {c : ChunkCodec} {w w' : Wire c}

/-- Why there is no size: the bytes are missing, or they are not one. -/
theorem readSize_error {event : ChunkEvent} (h : w.readSize.1 = .error event) :
    (∃ e, event = .ended e) ∧ w.bytes.length < c.sizeBytes ∨
      ∃ e, event = .badSize e ∧ e ≠ .errSoft ∧ e.text ≠ Error.eof.text := by
  unfold readSize at h
  split at h
  · cases h
  · unfold take at h
    by_cases hlen : c.sizeBytes ≤ w.bytes.length
    · have hb : (w.bytes.take c.sizeBytes).length = c.sizeBytes := List.length_take_of_le hlen
      rw [if_pos hlen] at h
      dsimp only at h
      generalize hd : c.decodeSize (c.nextPaddingLen w.st).2 (w.bytes.take c.sizeBytes) = d at h
      obtain ⟨d, st⟩ := d
      cases d with
      | ok size => cases h
      | error e => cases h; exact .inr ⟨e, rfl, c.decodeSize_error (by rw [hd])⟩
      | panic => exact absurd (congrArg Prod.fst hd) (c.decodeSize_ne_panic hb)
    · rw [if_neg hlen] at h
      cases h
      exact .inl ⟨⟨_, rfl⟩, not_le.1 hlen⟩

/-- The end of the stream is met again and again. -/
theorem next_eof (h : w.next = (.eof, w')) : w'.next = (.eof, w') := by
  have hdone : w'.done = true := by
    unfold next at h
    split at h
    · rename_i hd
      cases h
      exact hd
    · split at h
      · rename_i event w₁ hs
        cases h
        rcases readSize_error (congrArg Prod.fst hs) with ⟨⟨e, he⟩, _⟩ | ⟨e, he, _⟩ <;> cases he
      · split at h
        · cases h; rfl
        · cases h
  rw [next, if_pos hdone]

theorem take_bytes (w : Wire c) (n : ℕ) : (w.take n).2.bytes = w.bytes.drop n := by
  unfold take
  split
  · rfl
  · rename_i h
    rw [List.drop_of_length_le (not_le.1 h).le]

theorem takeBody_bytes (w : Wire c) (size padding : UInt16) :
    (w.takeBody size padding).2.bytes = w.bytes.drop size.toNat := by
  unfold takeBody
  rw [← w.take_bytes]
  generalize w.take size.toNat = t
  obtain ⟨out, w'⟩ := t
  cases out <;> rfl

/-- A body takes as many bytes as its size tells, unless the pool is at fault. -/
theorem readBody_bytes {size padding : UInt16} {out : Outcome Bytes}
    (h : w.readBody size padding = (out, w')) :
    w'.bytes = w.bytes.drop size.toNat ∨ out = .panic := by
  unfold readBody at h
  split at h
  · rw [← w.takeBody_bytes size padding, h]; exact .inl rfl
  · split at h
    · cases h; exact .inr rfl
    · have := takeBody_bytes (c := c) { w with pool := w.pool.tail } size padding
      rw [h] at this
      exact .inl this

theorem readBody_suffix (w : Wire c) (size padding : UInt16) :
    (w.readBody size padding).2.bytes <:+ w.bytes ∧
      (w.readBody size padding).2.pending = w.pending := by
  have htake : ∀ w : Wire c, (w.takeBody size padding).2.bytes <:+ w.bytes ∧
      (w.takeBody size padding).2.pending = w.pending := fun w => by
    refine ⟨by rw [takeBody_bytes]; exact List.drop_suffix _ _, ?_⟩
    unfold takeBody take
    by_cases h : size.toNat ≤ w.bytes.length
    · rw [if_pos h]
    · rw [if_neg h]
  unfold readBody
  split
  · exact htake w
  · split
    · exact ⟨List.suffix_refl _, rfl⟩
    · exact htake { w with pool := w.pool.tail }

theorem readSize_suffix (w : Wire c) :
    w.readSize.2.bytes <:+ w.bytes ∧ w.readSize.2.pending = none := by
  unfold readSize
  split
  · exact ⟨List.suffix_refl _, rfl⟩
  · rename_i hp
    unfold take
    by_cases h : c.sizeBytes ≤ w.bytes.length
    · rw [if_pos h]
      dsimp only
      generalize c.decodeSize _ _ = d
      obtain ⟨d, st⟩ := d
      cases d <;> exact ⟨List.drop_suffix _ _, hp⟩
    · rw [if_neg h]
      exact ⟨List.nil_suffix, hp⟩

/-- Meeting a chunk leaves the last bytes, and no size pending. -/
theorem next_suffix (w : Wire c) (hpending : w.pending = none) :
    w.next.2.bytes <:+ w.bytes ∧ w.next.2.pending = none := by
  unfold next
  split
  · exact ⟨List.suffix_refl _, hpending⟩
  · obtain ⟨hs, hp⟩ := w.readSize_suffix
    generalize w.readSize = t at hs hp ⊢
    obtain ⟨res, w₁⟩ := t
    cases res with
    | error event => exact ⟨hs, hp⟩
    | ok p =>
      obtain ⟨size, padding⟩ := p
      dsimp only at hs hp ⊢
      split
      · exact ⟨hs, hp⟩
      · obtain ⟨hs', hp'⟩ := w₁.readBody_suffix size padding
        exact ⟨hs'.trans hs, hp'.trans hp⟩

/-- How a chunk with a body is met: its padding is drawn, its size decoded, and
    then its body read. -/
theorem next_body {size padding : UInt16} {out : Outcome Bytes} (hpending : w.pending = none)
    (h : w.next = (.body size padding out, w')) :
    w.done = false ∧ c.sizeBytes ≤ w.bytes.length ∧ (c.nextPaddingLen w.st).1 = padding ∧
      size ≠ UInt16.ofNat c.auth.overhead + padding ∧
      ∃ st, c.decodeSize (c.nextPaddingLen w.st).2 (w.bytes.take c.sizeBytes) = (.ok size, st) ∧
        { w with bytes := w.bytes.drop c.sizeBytes, st }.readBody size padding = (out, w') := by
  unfold next at h
  split at h
  · cases h
  · rename_i hdone
    cases hs : w.readSize with
    | mk res w₁ =>
    rw [hs] at h
    cases res with
    | error event =>
      rcases readSize_error (congrArg Prod.fst hs) with ⟨⟨e, rfl⟩, _⟩ | ⟨e, rfl, _⟩ <;> cases h
    | ok p =>
      obtain ⟨size', padding'⟩ := p
      dsimp only at h
      split at h
      · cases h
      · rename_i hne
        simp only [Prod.mk.injEq, ChunkEvent.body.injEq] at h
        obtain ⟨⟨rfl, rfl, hout⟩, hw'⟩ := h
        unfold readSize take at hs
        rw [hpending] at hs
        by_cases hlen : c.sizeBytes ≤ w.bytes.length
        · rw [if_pos hlen] at hs
          dsimp only at hs
          generalize hd : c.decodeSize (c.nextPaddingLen w.st).2 (w.bytes.take c.sizeBytes) = d at hs
          obtain ⟨d, st⟩ := d
          cases d <;> cases hs
          exact ⟨Bool.eq_false_iff.2 hdone, hlen, rfl, hne, st, rfl, by
            rw [hpending]; exact Prod.ext hout hw'⟩
        · rw [if_neg hlen] at hs
          cases hs

/-- The error of a body that is all there comes from opening it. -/
theorem readBody_error {size padding : UInt16} {e : Error} (hlen : size.toNat ≤ w.bytes.length)
    (h : (w.readBody size padding).1 = .error e) : e ≠ .errSoft ∧ e.text ≠ Error.eof.text := by
  have htake : ∀ w : Wire c, size.toNat ≤ w.bytes.length →
      (w.takeBody size padding).1 = .error e → e ≠ .errSoft ∧ e.text ≠ Error.eof.text := by
    intro w hlen h
    unfold takeBody take at h
    rw [if_pos hlen] at h
    exact c.openBody_error h
  unfold readBody at h
  split at h
  · exact htake w hlen h
  · split at h
    · cases h
    · exact htake { w with pool := w.pool.tail } hlen h

end Wire

namespace AuthenticationReader

variable {c : ChunkCodec} (r : AuthenticationReader c)

/-- The reader, its segments forgotten. -/
def wire : Wire c where
  bytes := r.reader.bytes
  err := r.reader.reader.err
  st := r.st
  pending := if r.hasSize then some (r.size, r.paddingLen) else none
  done := r.done
  pool := r.pool

/-! ## A step meets the next chunk -/

theorem readFull_wire (n : ℕ) :
    ∃ reader, r.reader.readFull n = ((r.wire.take n).1, reader) ∧
      ({ r with reader }).wire = (r.wire.take n).2 := by
  unfold Wire.take
  split
  · rename_i h
    obtain ⟨reader, hr, hb, he⟩ := r.reader.readFull_ok h
    exact ⟨reader, hr, by simp only [wire, hb, he]⟩
  · rename_i h
    obtain ⟨reader, hr, hb, he, _⟩ := r.reader.readFull_short (not_le.1 h)
    exact ⟨reader, hr, by simp only [wire, hb, he]⟩

theorem readSize_wire :
    r.readSize.1 = r.wire.readSize.1 ∧ r.readSize.2.wire = r.wire.readSize.2 := by
  unfold readSize Wire.readSize
  by_cases h : r.hasSize = true
  · simp [wire, h]
  · obtain ⟨reader, hr, hw⟩ := r.readFull_wire c.sizeBytes
    have hp : r.wire.pending = none := by simp [wire, h]
    rw [if_neg h, hr, hp]
    generalize r.wire.take c.sizeBytes = t at hr hw ⊢
    obtain ⟨out, w⟩ := t
    dsimp only at hw ⊢
    subst hw
    cases out with
    | error e => exact ⟨rfl, rfl⟩
    | ok b =>
      dsimp only [wire]
      generalize c.decodeSize (c.nextPaddingLen r.st).2 b = d
      obtain ⟨d, st⟩ := d
      cases d <;> exact ⟨rfl, rfl⟩

theorem readBuffer_wire (size padding : UInt16) :
    (r.readBuffer size padding).1 = (r.wire.takeBody size padding).1 ∧
      (r.readBuffer size padding).2.wire = (r.wire.takeBody size padding).2 := by
  unfold readBuffer Wire.takeBody
  obtain ⟨reader, hr, hw⟩ := r.readFull_wire size.toNat
  rw [hr]
  generalize r.wire.take size.toNat = t at hr hw ⊢
  obtain ⟨out, w⟩ := t
  dsimp only at hw ⊢
  subst hw
  cases out <;> exact ⟨rfl, rfl⟩

theorem readBody_wire (size padding : UInt16) :
    (r.readBody size padding).1 = (r.wire.readBody size padding).1 ∧
      (r.readBody size padding).2.wire = (r.wire.readBody size padding).2 := by
  unfold readBody Wire.readBody
  split
  · exact r.readBuffer_wire size padding
  · have hpool : r.wire.pool = r.pool := rfl
    rw [hpool]
    rcases hp : r.pool with _ | ⟨_ | _, pool⟩
    · exact readBuffer_wire { r with pool := [] } size padding
    · exact readBuffer_wire { r with pool } size padding
    · exact ⟨rfl, rfl⟩

/-- A hard step meets the next chunk. -/
theorem readInternal_hard :
    (r.readInternal false).1 = r.wire.next.1 ∧ (r.readInternal false).2.wire = r.wire.next.2 := by
  unfold readInternal Wire.next
  rw [if_neg (by simp)]
  have hdone : r.wire.done = r.done := rfl
  rw [hdone]
  split
  · exact ⟨rfl, rfl⟩
  · obtain ⟨hout, hw⟩ := r.readSize_wire
    generalize r.readSize = t at hout hw ⊢
    obtain ⟨out, r'⟩ := t
    generalize r.wire.readSize = t at hout hw ⊢
    obtain ⟨out', w⟩ := t
    dsimp only at hout hw
    subst hout hw
    cases out with
    | error event => exact ⟨rfl, rfl⟩
    | ok p =>
      obtain ⟨size, padding⟩ := p
      dsimp only
      split
      · exact ⟨rfl, rfl⟩
      · rw [if_neg (by simp)]
        exact ⟨congrArg _ (r'.readBody_wire size padding).1, (r'.readBody_wire size padding).2⟩

/-- Reading a size leaves none pending. -/
theorem readSize_frame : r.readSize.2.hasSize = false ∧ r.readSize.2.done = r.done := by
  unfold readSize
  split
  · exact ⟨rfl, rfl⟩
  · rename_i h
    rw [Bool.not_eq_true] at h
    split
    · exact ⟨h, rfl⟩
    · dsimp only
      generalize c.decodeSize _ _ = d
      obtain ⟨d, st⟩ := d
      cases d <;> exact ⟨h, rfl⟩

/-- A size that is kept is the next one to be read. -/
theorem next_keepSize (size padding : UInt16) (hpending : r.hasSize = false)
    (hdone : r.done = false) :
    { r with size, paddingLen := padding, hasSize := true }.wire.next =
      if size = UInt16.ofNat c.auth.overhead + padding then (.eof, { r.wire with done := true })
      else
        let (out, w) := r.wire.readBody size padding
        (.body size padding out, w) := by
  simp only [Wire.next, Wire.readSize, wire, hdone, hpending]
  rfl

/-- A soft step meets the next chunk too, which is all there, or it leaves it for
    later. -/
theorem readInternal_soft :
    (r.readInternal true).1 = .soft ∧ (r.readInternal true).2.wire.next = r.wire.next ∨
    (r.readInternal true).1 = r.wire.next.1 ∧ (r.readInternal true).2.wire = r.wire.next.2 ∧
      (∀ e, r.wire.next.1 ≠ .ended e) ∧
      ∀ e, r.wire.next.1.outcome = .error e →
        r.wire.next.1 = .eof ∨ e ≠ .errSoft ∧ e.text ≠ Error.eof.text := by
  unfold readInternal
  simp only [true_and]
  -- A soft read gives up where the size, or the chunk, is not buffered; otherwise it is the next
  -- event of the wire.
  by_cases hsoft : r.reader.bufferedBytes < c.sizeBytes
  · rw [if_pos hsoft]
    exact .inl ⟨rfl, rfl⟩
  · have hlen : ¬ r.wire.bytes.length < c.sizeBytes := fun h =>
      hsoft (lt_of_le_of_lt r.reader.bufferedBytes_le h)
    rw [if_neg hsoft]
    have hnext : r.wire.next = if r.done then (.eof, r.wire) else
      match r.wire.readSize with
      | (.error event, w) => (event, w)
      | (.ok (size, padding), w) =>
        if size = UInt16.ofNat c.auth.overhead + padding then (.eof, { w with done := true })
        else
          let (out, w) := w.readBody size padding
          (.body size padding out, w) := rfl
    rw [hnext]
    split
    · exact .inr ⟨rfl, rfl, by simp, fun _ _ => .inl rfl⟩
    · rename_i hdone
      obtain ⟨hout, hw⟩ := r.readSize_wire
      obtain ⟨hpending, hframe⟩ := r.readSize_frame
      have herror := @Wire.readSize_error c r.wire
      generalize r.readSize = t at hout hw hpending hframe ⊢
      obtain ⟨out, r'⟩ := t
      generalize r.wire.readSize = t at hout hw herror ⊢
      obtain ⟨out', w⟩ := t
      dsimp only at hout hw hpending hframe herror
      subst hout hw
      cases out with
      | error event =>
        rcases herror rfl with ⟨_, hshort⟩ | ⟨e, rfl, he⟩
        · exact absurd hshort hlen
        · exact .inr ⟨rfl, rfl, by simp, fun e' he' => by cases he'; exact .inr he⟩
      | ok p =>
        obtain ⟨size, padding⟩ := p
        dsimp only
        split
        · exact .inr ⟨rfl, rfl, by simp, fun _ _ => .inl rfl⟩
        · rename_i hsize
          split
          · -- the size is kept for a later step
            refine .inl ⟨rfl, ?_⟩
            rw [r'.next_keepSize size padding hpending
              (hframe.trans (Bool.eq_false_iff.2 hdone)), if_neg hsize]
          · rename_i hthere
            refine .inr ⟨congrArg _ (r'.readBody_wire size padding).1,
              (r'.readBody_wire size padding).2, by simp, fun e he => .inr ?_⟩
            have hlen : size.toNat ≤ r'.wire.bytes.length :=
              le_trans (not_lt.1 hthere) r'.reader.bufferedBytes_le
            have herror' := fun e => @Wire.readBody_error c r'.wire size padding e hlen
            dsimp only at he
            generalize (r'.wire.readBody size padding).1 = out at he herror'
            cases out with
            | ok p => cases he
            | panic => cases he
            | error e' =>
              simp only [ChunkEvent.outcome] at he
              split at he
              · cases he
              · cases he; exact herror' _ rfl

/-! ## A call meets the next chunks -/

/-- A call fails as the event it ends with does. -/
def Fails (event : ChunkEvent) (result : Outcome MultiBuffer) : Prop :=
  (∃ e, event.outcome = .error e ∧ result = .error e) ∨
    event.outcome = .panic ∧ result = .panic

/-- The soft steps of a call meet chunks one after the other, and then stop, or
    fail on one, which is not missing. -/
theorem readLoop_spec (n : ℕ) (r : AuthenticationReader c) (mb : MultiBuffer) :
    ∃ l w, r.wire.Steps l w ∧
      ((r.readLoop n mb).1 = ⟨.ok (l.foldl ChunkEvent.append mb), l⟩ ∧
        (r.readLoop n mb).2.wire.next = w.next ∨
      ∃ event, w.next = (event, (r.readLoop n mb).2.wire) ∧ (∀ e, event ≠ .ended e) ∧
        event ≠ .eof ∧ Fails event (r.readLoop n mb).1.result ∧
        (r.readLoop n mb).1.events = l ++ [event]) := by
  induction n generalizing r mb with
  | zero => exact ⟨[], r.wire, .nil _, .inl ⟨rfl, rfl⟩⟩
  | succ n ih =>
    rw [readLoop]
    have hsoft := r.readInternal_soft
    generalize r.readInternal true = t at hsoft ⊢
    obtain ⟨event, r'⟩ := t
    dsimp only at hsoft ⊢
    rcases hsoft with ⟨rfl, hnext⟩ | ⟨hevent, hw, hended, herror⟩
    · exact ⟨[], r.wire, .nil _, .inl ⟨rfl, hnext⟩⟩
    · have hnext : r.wire.next = (event, r'.wire) := by rw [hevent, hw]
      rw [← hevent] at hended herror
      cases ho : event.outcome with
      | ok =>
        obtain ⟨l, w, hl, hcall⟩ := ih r' (event.append mb)
        refine ⟨event :: l, w, .cons hnext ho hl, ?_⟩
        dsimp only
        rcases hcall with ⟨hc, hn⟩ | ⟨ev, hn, h₁, h₂, h₃, h₄⟩
        · exact .inl ⟨by rw [hc]; rfl, hn⟩
        · exact .inr ⟨ev, hn, h₁, h₂, h₃, by rw [h₄]; rfl⟩
      | error e =>
        dsimp only
        rcases herror e ho with rfl | ⟨hsoft, htext⟩
        · cases ho
          rw [if_pos (.inr rfl)]
          refine ⟨[], r.wire, .nil _, .inl ⟨rfl, ?_⟩⟩
          rw [hnext, Wire.next_eof hnext]
        · rw [if_neg (by simp [hsoft, htext])]
          refine ⟨[], r.wire, .nil _, .inr ⟨event, hnext, hended, ?_, .inl ⟨e, ho, rfl⟩, rfl⟩⟩
          rintro rfl
          cases ho
          exact htext rfl
      | panic =>
        refine ⟨[], r.wire, .nil _, .inr ⟨event, hnext, hended, ?_, .inr ⟨ho, rfl⟩, rfl⟩⟩
        rintro rfl
        cases ho

/-- What a call does: it meets chunks one after the other, one at least, and
    returns them; or it fails on the first, or on one which is not missing. -/
theorem readMultiBuffer_spec :
    ∃ l w, r.wire.Steps l w ∧
      (r.readMultiBuffer.1 = ⟨.ok (l.foldl ChunkEvent.append []), l⟩ ∧ l ≠ [] ∧
        r.readMultiBuffer.2.wire.next = w.next ∨
      ∃ event, w.next = (event, r.readMultiBuffer.2.wire) ∧
        (l ≠ [] → (∀ e, event ≠ .ended e) ∧ event ≠ .eof) ∧
        Fails event r.readMultiBuffer.1.result ∧ r.readMultiBuffer.1.events = l ++ [event]) := by
  unfold readMultiBuffer
  obtain ⟨hevent, hw⟩ := r.readInternal_hard
  generalize r.readInternal false = t at hevent hw ⊢
  obtain ⟨event, r'⟩ := t
  dsimp only at hevent hw ⊢
  have hnext : r.wire.next = (event, r'.wire) := by rw [hevent, hw]
  cases ho : event.outcome with
  | ok =>
    obtain ⟨l, w, hl, hcall⟩ := readLoop_spec 15 r' (event.append [])
    refine ⟨event :: l, w, .cons hnext ho hl, ?_⟩
    dsimp only
    rcases hcall with ⟨hc, hn⟩ | ⟨ev, hn, h₁, h₂, h₃, h₄⟩
    · exact .inl ⟨by rw [hc]; rfl, by simp, hn⟩
    · exact .inr ⟨ev, hn, fun _ => ⟨h₁, h₂⟩, h₃, by rw [h₄]; rfl⟩
  | error e =>
    exact ⟨[], r.wire, .nil _, .inr ⟨event, hnext, fun h => absurd rfl h, .inl ⟨e, ho, rfl⟩, rfl⟩⟩
  | panic =>
    exact ⟨[], r.wire, .nil _, .inr ⟨event, hnext, fun h => absurd rfl h, .inr ⟨ho, rfl⟩, rfl⟩⟩

end AuthenticationReader

end Gzv2ray
