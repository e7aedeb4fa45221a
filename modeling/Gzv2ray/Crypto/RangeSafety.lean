import Gzv2ray.Crypto.Calls
import Gzv2ray.Vmess.Auth

/-!
# Range safety of the reader of an encrypted stream

The peer chooses the sizes of the chunks, and the mask their paddings: a chunk
can be smaller than its padding and its tag together. Then the reader slices
out of range, or the error of opening the chunk is lost, as is any error of a
chunk that fits in a `Buffer`. A larger chunk is read in a slice of the byte
pool, which panics once it hands out what `Free` put in it.

`readsSafely_iff`: the reader is safe on a stream exactly if neither is met.
-/

namespace Gzv2ray

namespace AuthenticationReader

variable {c : ChunkCodec}

/-- A new reader of a transport. -/
def new (c : ChunkCodec) (st : CodecState) (segments : List MultiBuffer) (err : Error)
    (pool : List Bool) : AuthenticationReader c where
  reader := { reader := ⟨segments, err⟩ }
  st
  pool

/-- No call panics, and one that meets a chunk smaller than its padding and its tag
    ends in an error. -/
def ReadsSafely (r : AuthenticationReader c) : Prop :=
  ∀ n, ∀ call ∈ (calls n r).1, call.result ≠ .panic ∧
    ∀ size padding out, .body size padding out ∈ call.events →
      size.toNat < padding.toNat + c.auth.overhead → ∃ e, call.result = .error e

end AuthenticationReader

namespace Wire

variable {c : ChunkCodec} {w w' : Wire c}

/-- A new reader of a stream. -/
def new (c : ChunkCodec) (st : CodecState) (bytes : Bytes) (err : Error) (pool : List Bool) :
    Wire c where
  bytes
  err
  st
  pool

/-- A chunk has room for its padding and its tag, and the pool has a slice for it if
    it takes one. -/
def Sound (pool : List Bool) : ChunkEvent → Prop
  | .body size padding _ => padding.toNat + c.auth.overhead ≤ size.toNat ∧
      (bufSize < size.toNat → pool.head? ≠ some true)
  | _ => True

theorem openBody_panic {st : CodecState} {size padding : UInt16} {b : Bytes}
    (hlen : b.length = size.toNat) (hsize : padding.toNat + c.auth.overhead ≤ size.toNat) :
    (c.openBody st size padding b).1 ≠ .panic := by
  have hopen : ∀ cipherText : Bytes, cipherText.length + padding.toNat = size.toNat →
      (c.open_ st cipherText).1 ≠ .panic := fun cipherText hc ho => by
    have := AEADAuthenticator.open_panic (v := c.auth) (k := st.body) ho
    omega
  have hle : padding ≤ size := UInt16.le_iff_toNat_le.2 (by omega)
  unfold ChunkCodec.openBody
  split
  · rw [bytesTo_of_nonneg b (by omega)]
    exact hopen _ (by rw [List.length_take]; omega)
  · refine hopen _ ?_
    rw [List.length_take, UInt16.toNat_sub_of_le _ _ hle]
    omega

theorem takeBody_panic {size padding : UInt16}
    (hsize : padding.toNat + c.auth.overhead ≤ size.toNat) :
    (w.takeBody size padding).1 ≠ .panic := by
  unfold takeBody take
  by_cases hlen : size.toNat ≤ w.bytes.length
  · rw [if_pos hlen]
    exact openBody_panic (List.length_take_of_le hlen) hsize
  · rw [if_neg hlen]
    simp

/-- A sound chunk is read without a panic. -/
theorem readBody_panic {size padding : UInt16}
    (hsize : padding.toNat + c.auth.overhead ≤ size.toNat)
    (hpool : bufSize < size.toNat → w.pool.head? ≠ some true) :
    (w.readBody size padding).1 ≠ .panic := by
  unfold readBody
  split
  · exact takeBody_panic hsize
  · rename_i hlarge
    split
    · rename_i pool heq
      exact absurd (by rw [heq]; rfl) (hpool (not_le.1 hlarge))
    · exact takeBody_panic hsize

theorem next_panic {event : ChunkEvent} (hpending : w.pending = none) (h : w.next = (event, w'))
    (hsound : Sound (c := c) w.pool event) : event.outcome ≠ .panic := by
  intro hpanic
  cases event with
  | body size padding out =>
    obtain ⟨_, _, _, _, st, _, hread⟩ := next_body hpending h
    have hout : out ≠ .panic := by
      have := readBody_panic (w := { w with bytes := w.bytes.drop c.sizeBytes, st }) hsound.1 hsound.2
      rw [hread] at this
      exact this
    cases out with
    | ok => cases hpanic
    | error e =>
      simp only [ChunkEvent.outcome] at hpanic
      split at hpanic <;> cases hpanic
    | panic => exact hout rfl
  | panic =>
    unfold next at h
    split at h
    · cases h
    · split at h
      · rename_i event w₁ hs
        cases h
        rcases readSize_error (congrArg Prod.fst hs) with ⟨⟨e, he⟩, _⟩ | ⟨e, he, _⟩ <;> cases he
      · split at h <;> cases h
  | _ => cases hpanic

end Wire

namespace AuthenticationReader

variable {c : ChunkCodec}

/-- The reader of a stream cut by chunks is a reader of the stream. -/
theorem new_cut (n : ℕ) (st : CodecState) (bytes : Bytes) (err : Error) (pool : List Bool) :
    (new c st (Wire.cuts n (Wire.new c st bytes err pool)) err pool).wire =
        Wire.new c st bytes err pool ∧
      (new c st (Wire.cuts n (Wire.new c st bytes err pool)) err pool).Cut n := by
  have hwire : (new c st (Wire.cuts n (Wire.new c st bytes err pool)) err pool).wire =
      Wire.new c st bytes err pool := by
    have := Wire.cuts_bytes n (Wire.new c st bytes err pool) rfl
    simp [wire, new, Wire.new, BufferedReader.bytes, Source.bytes] at this ⊢
    exact this
  exact ⟨hwire, rfl, rfl, by rw [hwire]; rfl⟩

theorem new_wire {segments : List MultiBuffer} {bytes : Bytes} (st : CodecState) (err : Error)
    (pool : List Bool) (h : segments.flatMap MultiBuffer.bytes = bytes) :
    (new c st segments err pool).wire = Wire.new c st bytes err pool := by
  simp [wire, new, Wire.new, BufferedReader.bytes, Source.bytes, h]

/-- A stream is read safely, however it is cut into segments, exactly if every chunk
    met in it has room for its padding and its tag, and the pool has a slice for
    every chunk that takes one. -/
theorem readsSafely_iff (c : ChunkCodec) (st : CodecState) (bytes : Bytes) (err : Error)
    (pool : List Bool) :
    (∀ segments : List MultiBuffer, segments.flatMap MultiBuffer.bytes = bytes →
      (new c st segments err pool).ReadsSafely) ↔
    ∀ l w event w', (Wire.new c st bytes err pool).Steps l w → w.next = (event, w') →
      Wire.Sound (c := c) w.pool event := by
  constructor
  · -- Cut into chunks, the bytes are read one event a call, so that each event is met.
    intro h l w event w' hl hw
    cases event with
    | body size padding out => ?_
    | _ => trivial
    obtain ⟨hwire, hcut⟩ := new_cut (c := c) (l.length + 1) st bytes err pool
    obtain ⟨call, hcall, hevents, hok, hpanic⟩ := calls_cut (by rw [hwire]; exact hl) hcut
    rw [hw] at hevents hok hpanic
    obtain ⟨hne, hsmall⟩ := h _ (Wire.cuts_bytes _ _ rfl) _ call hcall
    have houtcome : (ChunkEvent.body size padding out).outcome ≠ .panic := fun ho => hne (hpanic ho)
    refine ⟨?_, fun hlarge hpool => ?_⟩
    · -- a chunk too small fits in a `Buffer`, so that its error is lost
      by_contra hlt
      obtain ⟨e, he⟩ := hsmall size padding out (by rw [hevents]; exact List.mem_singleton_self _)
        (not_le.1 hlt)
      have hbuffer : size.toNat ≤ bufSize := by
        obtain ⟨_, _, hp, _⟩ := Wire.next_body (hl.pending rfl) hw
        have h₁ := c.nextPaddingLen_lt w.st
        have h₂ := c.overhead_le
        rw [hp, maxPaddingLen] at h₁
        rw [bufSize]
        omega
      have hfine : (ChunkEvent.body size padding out).outcome = .ok () := by
        cases out with
        | ok => rfl
        | error => exact if_pos hbuffer
        | panic => exact absurd rfl houtcome
      obtain ⟨mb, hmb⟩ := hok hfine
      rw [he] at hmb
      cases hmb
    · obtain ⟨_, _, _, _, st', _, hread⟩ := Wire.next_body (hl.pending rfl) hw
      unfold Wire.readBody at hread
      rw [if_neg (not_le.2 hlarge)] at hread
      rcases hp : w.pool with _ | ⟨_ | _, rest⟩
      · rw [hp] at hpool; cases hpool
      · rw [hp] at hpool; cases hpool
      · rw [hp] at hread
        cases hread
        exact houtcome rfl
  · intro h segments hsegments n call hcall
    have hwire := new_wire (c := c) st err pool hsegments
    have hmet : ∀ event ∈ call.events, event.outcome ≠ .panic ∧
        ∀ size padding out, event = .body size padding out →
          padding.toNat + c.auth.overhead ≤ size.toNat := fun event he => by
      obtain ⟨l, w, w', hl, hw⟩ := exists_steps_of_mem_calls _ hcall he
      rw [hwire] at hl
      have hsound := h l w event w' hl hw
      refine ⟨Wire.next_panic (hl.pending rfl) hw hsound, ?_⟩
      rintro size padding out rfl
      exact hsound.1
    refine ⟨fun hpanic => ?_, fun size padding out he hlt => ?_⟩
    · rcases calls_result _ hcall with ⟨hres, _⟩ | ⟨event, he, ⟨e, _, hres⟩ | ⟨ho, _⟩, _⟩
      · rw [hpanic] at hres; cases hres
      · rw [hpanic] at hres; cases hres
      · exact (hmet event he).1 ho
    · exact absurd ((hmet _ he).2 size padding out rfl) (not_le.2 hlt)

/-- The codec of the security `LEGACY`, with masking and padding, for a Shake
    output that draws paddings of five bytes. -/
def legacyCodec : ChunkCodec where
  auth := Vmess.withoutNonce Vmess.fnvAuthenticator
  sizeParser := .shake
  padding := true
  shake _ := 5

/-- A chunk of size zero, with a padding of five bytes: a slice of `-5` bytes. -/
theorem not_readsSafely_undersized :
    ¬ (new legacyCodec {} [[.ofBytes [5, 5] (by decide)]] .eof []).ReadsSafely := fun h =>
  (h 1 ⟨.panic, [.body 0 5 .panic]⟩ (by decide)).1 rfl

end AuthenticationReader

end Gzv2ray
