import Gzv2ray.Crypto.Wire

/-!
# Runs of reads of an encrypted stream

The calls of `ReadMultiBuffer` one after the other, up to the first that does not
return without an error.

* `calls_spec`: whatever the segments, the calls meet the chunks of the stream
  in order, and return those met before the last call;
* `calls_of_ends`: a stream that ends after some chunks is read to its end;
* `calls_cuts`: cut chunk by chunk (`Wire.cuts`), the stream is read chunk by
  chunk, a call each.
-/

namespace Gzv2ray

namespace ChunkEvent

/-- The plaintext of the chunk. -/
def plain : ChunkEvent → Bytes
  | body _ _ (.ok plainText) => plainText
  | _ => []

/-- The plaintext fits in the chunk. -/
def Fits : ChunkEvent → Prop
  | body size _ (.ok plainText) => plainText.length ≤ size.toNat
  | _ => True

theorem append_bytes {event : ChunkEvent} (h : event.Fits) (mb : MultiBuffer) :
    MultiBuffer.bytes (event.append mb) = MultiBuffer.bytes mb ++ event.plain := by
  unfold append
  split
  · split
    · rename_i hsize
      simp [plain, Buffer.write_new _ (le_trans h hsize)]
    · simp [plain]
  · rename_i hne
    rw [plain, List.append_nil]
    intro size padding plainText he
    exact hne size padding plainText he

/-- A sequence of chunks appends the plaintexts. -/
theorem foldl_append_bytes {l : List ChunkEvent} (h : ∀ event ∈ l, event.Fits) (mb : MultiBuffer) :
    MultiBuffer.bytes (l.foldl append mb) = MultiBuffer.bytes mb ++ l.flatMap plain := by
  induction l generalizing mb with
  | nil => simp
  | cons event l ih =>
    rw [List.foldl_cons, ih fun e he => h e (List.mem_cons_of_mem _ he),
      append_bytes (h event List.mem_cons_self)]
    simp

end ChunkEvent

namespace Wire

variable {c : ChunkCodec} {w w' w₁ w₂ : Wire c}

theorem openBody_fits {st : CodecState} {size padding : UInt16} {b p : Bytes}
    (h : (c.openBody st size padding b).1 = .ok p) : p.length ≤ b.length := by
  have hopen : ∀ cipherText, cipherText <+: b →
      (c.open_ st cipherText).1 = .ok p → p.length ≤ b.length := fun _ hle ho =>
    le_trans (Nat.le_of_add_right_le (AEADAuthenticator.length_open ho).le) hle.length_le
  unfold ChunkCodec.openBody at h
  split at h
  · split at h
    · cases h
    · rename_i hto
      exact hopen _ (isPrefix_of_bytesTo hto) h
  · exact hopen _ (List.take_prefix _ _) h

theorem takeBody_fits {size padding : UInt16} {p : Bytes}
    (h : (w.takeBody size padding).1 = .ok p) : p.length ≤ size.toNat := by
  unfold takeBody take at h
  by_cases hlen : size.toNat ≤ w.bytes.length
  · rw [if_pos hlen] at h
    exact le_trans (openBody_fits h) (List.length_take_le _ _)
  · rw [if_neg hlen] at h
    cases h

theorem next_fits (w : Wire c) : w.next.1.Fits := by
  unfold next
  split
  · trivial
  · split
    · rename_i event w₁ hs
      rcases readSize_error (congrArg Prod.fst hs) with ⟨⟨e, rfl⟩, _⟩ | ⟨e, rfl, _⟩ <;> trivial
    · rename_i size padding w₁ _
      split
      · trivial
      · dsimp only
        cases hb : (w₁.readBody size padding).1 with
        | error => trivial
        | panic => trivial
        | ok p =>
          unfold readBody at hb
          split at hb
          · exact takeBody_fits hb
          · split at hb
            · cases hb
            · exact takeBody_fits hb

theorem Steps.fits {l : List ChunkEvent} (h : w.Steps l w') : ∀ event ∈ l, event.Fits := by
  induction h with
  | nil => simp
  | cons hn _ _ ih =>
    rintro event (_ | ⟨_, he⟩)
    · have := congrArg Prod.fst hn
      dsimp only at this
      rw [← this]
      exact next_fits _
    · exact ih event he

/-- Two sequences of chunks met from the same bytes, the second of which cannot be
    continued: the first can be continued to it. -/
theorem Steps.continued {l₁ l₂ : List ChunkEvent} (h₁ : w.Steps l₁ w₁) (h₂ : w.Steps l₂ w₂)
    (hstop : w₂.next.1.outcome ≠ .ok ()) : ∃ l, l₂ = l₁ ++ l ∧ w₁.Steps l w₂ := by
  induction h₁ generalizing l₂ with
  | nil => exact ⟨l₂, rfl, h₂⟩
  | cons hn ho _ ih =>
    cases h₂ with
    | nil => rw [hn] at hstop; exact absurd ho hstop
    | cons hn' _ h₂ =>
      obtain ⟨rfl, rfl⟩ := Prod.mk.inj (hn.symm.trans hn')
      obtain ⟨l, rfl, hl⟩ := ih h₂
      exact ⟨l, rfl, hl⟩

/-- Every chunk of a sequence is met after those before it. -/
theorem Steps.of_mem {l : List ChunkEvent} (h : w.Steps l w') {event : ChunkEvent}
    (he : event ∈ l) : ∃ l₁ w₁ w₂, w.Steps l₁ w₁ ∧ w₁.next = (event, w₂) := by
  induction h with
  | nil => exact absurd he List.not_mem_nil
  | cons hn ho _ ih =>
    rcases List.mem_cons.1 he with rfl | he
    · exact ⟨[], _, _, .nil _, hn⟩
    · obtain ⟨l₁, w₁, w₂, hl, hw⟩ := ih he
      exact ⟨_ :: l₁, w₁, w₂, .cons hn ho hl, hw⟩

theorem Steps.ok {l : List ChunkEvent} (h : w.Steps l w') :
    ∀ event ∈ l, event.outcome = .ok () := by
  induction h with
  | nil => simp
  | cons _ ho _ ih => simpa using ⟨ho, ih⟩

theorem Steps.pending {l : List ChunkEvent} (h : w.Steps l w') (hp : w.pending = none) :
    w'.pending = none := by
  induction h with
  | nil => exact hp
  | @cons w _ _ _ _ hn _ _ ih =>
    have := (w.next_suffix hp).2
    rw [hn] at this
    exact ih this

/-- The chunks met depend on the next chunk only. -/
theorem Steps.congr {l : List ChunkEvent} (h : w.Steps l w') (hw : w₁.next = w.next)
    (hl : l ≠ []) : w₁.Steps l w' := by
  cases h with
  | nil => exact absurd rfl hl
  | cons hn ho h => exact .cons (hw.trans hn) ho h

theorem Steps.append {l₁ l₂ : List ChunkEvent} (h : w.Steps l₁ w₁) (h' : w₁.Steps l₂ w₂) :
    w.Steps (l₁ ++ l₂) w₂ := by
  induction h with
  | nil => exact h'
  | cons hn ho _ ih => exact .cons hn ho (ih h')

end Wire

/-! ## Calls -/

/-- What a call returns. -/
def ReadCall.returned (call : ReadCall) : MultiBuffer :=
  match call.result with
  | .ok mb => mb
  | _ => []

namespace AuthenticationReader

variable {c : ChunkCodec} (r : AuthenticationReader c)

/-- At most `n` calls, up to the first that does not return without an error. -/
def calls : ℕ → AuthenticationReader c → List ReadCall × AuthenticationReader c
  | 0, r => ([], r)
  | n + 1, r =>
    let (call, r) := r.readMultiBuffer
    match call.result with
    | .ok _ =>
      let (l, r) := calls n r
      (call :: l, r)
    | _ => ([call], r)

theorem calls_succ_ok (n : ℕ) {r : AuthenticationReader c} {mb : MultiBuffer}
    (h : r.readMultiBuffer.1.result = .ok mb) :
    (calls (n + 1) r).1 = r.readMultiBuffer.1 :: (calls n r.readMultiBuffer.2).1 := by
  rw [calls]
  generalize r.readMultiBuffer = t at h ⊢
  obtain ⟨call, r'⟩ := t
  dsimp only at h ⊢
  rw [h]

theorem calls_succ_stop (n : ℕ) {r : AuthenticationReader c}
    (h : ∀ mb, r.readMultiBuffer.1.result ≠ .ok mb) :
    (calls (n + 1) r).1 = [r.readMultiBuffer.1] := by
  rw [calls]
  generalize r.readMultiBuffer = t at h ⊢
  obtain ⟨⟨result, events⟩, r'⟩ := t
  cases result with
  | ok mb => exact absurd rfl (h mb)
  | error e => rfl
  | panic => rfl

/-- What calls do: they meet chunks one after the other and return them; or they
    do up to a last call, that fails. -/
theorem calls_spec (n : ℕ) (r : AuthenticationReader c) :
    ∃ l w, r.wire.Steps l w ∧
      ((∀ call ∈ (calls n r).1, call.result = .ok (call.events.foldl ChunkEvent.append [])) ∧
        (calls n r).1.flatMap ReadCall.events = l ∧ n ≤ l.length ∧
        (calls n r).2.wire.next = w.next ∨
      ∃ cs last event lost, (calls n r).1 = cs ++ [last] ∧
        (∀ call ∈ cs, call.result = .ok (call.events.foldl ChunkEvent.append [])) ∧
        cs.flatMap ReadCall.events ++ lost = l ∧
        (lost ≠ [] → (∀ e, event ≠ .ended e) ∧ event ≠ .eof) ∧
        w.next = (event, (calls n r).2.wire) ∧ Fails event last.result ∧
        last.events = lost ++ [event]) := by
  induction n generalizing r with
  | zero => exact ⟨[], r.wire, .nil _, .inl ⟨by simp [calls], rfl, le_rfl, rfl⟩⟩
  | succ n ih =>
    obtain ⟨l, w, hl, hcall⟩ := r.readMultiBuffer_spec
    rw [calls]
    generalize r.readMultiBuffer = t at hcall ⊢
    obtain ⟨call, r'⟩ := t
    dsimp only at hcall ⊢
    rcases hcall with ⟨rfl, hne, hnext⟩ | ⟨event, hnext, hend, hfails, hevents⟩
    · dsimp only
      obtain ⟨l', w', hl', hcalls⟩ := ih r'
      obtain ⟨w'', hsteps, hw''⟩ : ∃ w'', r.wire.Steps (l ++ l') w'' ∧ w''.next = w'.next := by
        by_cases hl'ne : l' = []
        · subst hl'ne
          cases hl'
          exact ⟨w, by simpa using hl, hnext.symm⟩
        · exact ⟨w', hl.append (hl'.congr hnext.symm hl'ne), rfl⟩
      have hall : ∀ cs : List ReadCall,
          (∀ call ∈ cs, call.result = .ok (call.events.foldl ChunkEvent.append [])) →
          ∀ call ∈ ReadCall.mk (.ok (l.foldl ChunkEvent.append [])) l :: cs,
            call.result = .ok (call.events.foldl ChunkEvent.append []) := by
        rintro cs hok call (_ | ⟨_, hcall⟩)
        · rfl
        · exact hok call hcall
      refine ⟨l ++ l', w'', hsteps, ?_⟩
      rw [hw'']
      rcases hcalls with ⟨hok, hev, hlen, hw⟩ | ⟨cs, last, ev, lost, hcs, hok, hev, hlost, hw, hf, hle⟩
      · refine .inl ⟨hall _ hok, by simp [hev], ?_, hw⟩
        have := List.length_pos_iff.2 hne
        rw [List.length_append]
        omega
      · refine .inr ⟨_ :: cs, last, ev, lost, by rw [hcs]; rfl, hall _ hok, ?_, hlost, hw, hf, hle⟩
        rw [List.flatMap_cons, List.append_assoc, hev]
    · refine ⟨l, w, hl, .inr ⟨[], call, event, l, ?_, by simp, rfl, hend, ?_, hfails, hevents⟩⟩
      · rcases hfails with ⟨e, _, hr⟩ | ⟨_, hr⟩ <;> rw [hr] <;> rfl
      · rcases hfails with ⟨e, _, hr⟩ | ⟨_, hr⟩ <;> rw [hr] <;> exact hnext

/-- A stream that ends after some chunks is read to its end, and then ends. -/
theorem calls_of_ends {l : List ChunkEvent} {w w' : Wire c} {event : ChunkEvent} {e : Error}
    (hl : r.wire.Steps l w) (hnext : w.next = (event, w'))
    (hend : event = .eof ∧ e = .eof ∨ event = .ended e) :
    ∃ cs last, (calls (l.length + 1) r).1 = cs ++ [last] ∧ last.result = .error e ∧
      (∀ call ∈ cs, call.result = .ok (call.events.foldl ChunkEvent.append [])) ∧
      cs.flatMap ReadCall.events = l ∧ (calls (l.length + 1) r).2.wire = w' := by
  have houtcome : event.outcome = .error e := by rcases hend with ⟨rfl, rfl⟩ | rfl <;> rfl
  have hstop : w.next.1.outcome ≠ .ok () := by rw [hnext, houtcome]; simp
  obtain ⟨l', w'', hl', hcalls⟩ := calls_spec (l.length + 1) r
  obtain ⟨rest, hrest, hsteps⟩ := hl'.continued hl hstop
  rcases hcalls with ⟨_, _, hlen, _⟩ | ⟨cs, last, ev, lost, hcs, hok, hev, hlost, hw, hf, _⟩
  · have := congrArg List.length hrest
    rw [List.length_append] at this
    omega
  · -- no chunk can be met after the last call
    cases hsteps with
    | cons hn ho _ =>
      rw [hw] at hn
      cases hn
      rcases hf with ⟨_, hf, _⟩ | ⟨hf, _⟩ <;> rw [hf] at ho <;> cases ho
    | nil =>
      obtain ⟨rfl, rfl⟩ := Prod.mk.inj (hw.symm.trans hnext)
      have hnone : lost = [] := by
        by_contra hne
        obtain ⟨h₁, h₂⟩ := hlost hne
        rcases hend with ⟨rfl, _⟩ | rfl
        · exact h₂ rfl
        · exact h₁ e rfl
      rw [List.append_nil] at hrest
      refine ⟨cs, last, hcs, ?_, hok, by rw [hrest, ← hev, hnone, List.append_nil], rfl⟩
      rcases hf with ⟨e', hf, hr⟩ | ⟨hf, _⟩
      · rw [houtcome] at hf; cases hf; exact hr
      · rw [houtcome] at hf; cases hf

/-- The chunks that calls meet are met one after the other. -/
theorem exists_steps_of_mem_calls {n : ℕ} {call : ReadCall} (hcall : call ∈ (calls n r).1)
    {event : ChunkEvent} (hevent : event ∈ call.events) :
    ∃ l w w', r.wire.Steps l w ∧ w.next = (event, w') := by
  obtain ⟨l, w, hl, hcalls⟩ := calls_spec n r
  rcases hcalls with ⟨_, hev, _, _⟩ | ⟨cs, last, ev, lost, hcs, _, hev, _, hw, _, hle⟩
  · exact hl.of_mem (hev ▸ List.mem_flatMap.2 ⟨call, hcall, hevent⟩)
  · rw [hcs] at hcall
    rcases List.mem_append.1 hcall with hcall | hcall
    · refine hl.of_mem (hev ▸ List.mem_append_left _ (List.mem_flatMap.2 ⟨call, hcall, hevent⟩))
    · rw [List.mem_singleton.1 hcall, hle] at hevent
      rcases List.mem_append.1 hevent with hevent | hevent
      · exact hl.of_mem (hev ▸ List.mem_append_right _ hevent)
      · rw [List.mem_singleton.1 hevent]
        exact ⟨l, w, _, hl, hw⟩

/-- A call that does not return without an error fails as the last chunk it met,
    the others being fine. -/
theorem calls_result {n : ℕ} {call : ReadCall} (hcall : call ∈ (calls n r).1) :
    call.result = .ok (call.events.foldl ChunkEvent.append []) ∧
        (∀ event ∈ call.events, event.outcome = .ok ()) ∨
      ∃ event ∈ call.events, Fails event call.result ∧
        ∀ event' ∈ call.events, event'.outcome = .ok () ∨ event' = event := by
  obtain ⟨l, w, hl, hcalls⟩ := calls_spec n r
  rcases hcalls with ⟨hres, hev, _, _⟩ | ⟨cs, last, ev, lost, hcs, hres, hev, _, _, hf, hle⟩
  · exact .inl ⟨hres _ hcall, fun event he =>
      hl.ok _ (hev ▸ List.mem_flatMap.2 ⟨call, hcall, he⟩)⟩
  · rw [hcs] at hcall
    rcases List.mem_append.1 hcall with hcall | hcall
    · exact .inl ⟨hres _ hcall, fun event he =>
        hl.ok _ (hev ▸ List.mem_append_left _ (List.mem_flatMap.2 ⟨call, hcall, he⟩))⟩
    · rw [List.mem_singleton.1 hcall, hle]
      refine .inr ⟨ev, List.mem_append_right _ (List.mem_singleton_self _), hf, fun event he => ?_⟩
      rcases List.mem_append.1 he with he | he
      · exact .inl (hl.ok _ (hev ▸ List.mem_append_right _ he))
      · exact .inr (List.mem_singleton.1 he)

/-- Calls that return chunks return the plaintexts. -/
theorem returned_bytes {cs : List ReadCall}
    (hok : ∀ call ∈ cs, call.result = .ok (call.events.foldl ChunkEvent.append []))
    (hfits : ∀ event ∈ cs.flatMap ReadCall.events, event.Fits) :
    MultiBuffer.bytes (cs.flatMap ReadCall.returned) =
      (cs.flatMap ReadCall.events).flatMap ChunkEvent.plain := by
  induction cs with
  | nil => rfl
  | cons call cs ih =>
    simp only [List.flatMap_cons, List.mem_append] at hfits
    simp only [List.flatMap_cons, MultiBuffer.bytes_append, List.flatMap_append]
    rw [ih (fun call hc => hok call (List.mem_cons_of_mem _ hc)) fun event he => hfits event (.inr he),
      ReadCall.returned, hok call List.mem_cons_self]
    dsimp only
    rw [ChunkEvent.foldl_append_bytes fun event he => hfits event (.inl he), MultiBuffer.bytes_nil,
      List.nil_append]

end AuthenticationReader

/-! ## Chunk by chunk -/

namespace Wire

variable {c : ChunkCodec}

/-- The segments of the next `n` chunks, one each, and of the rest. -/
def cuts : ℕ → Wire c → List MultiBuffer
  | 0, w => if w.bytes = [] then [] else [MultiBuffer.fillBuffers w.bytes.length w.bytes]
  | n + 1, w =>
    if w.bytes = [] then []
    else
      let b := w.bytes.take (w.bytes.length - w.next.2.bytes.length)
      MultiBuffer.fillBuffers b.length b :: cuts n w.next.2

theorem cuts_nil {n : ℕ} {w : Wire c} (h : w.bytes = []) : cuts n w = [] := by
  cases n <;> simp [cuts, h]

theorem cuts_bytes (n : ℕ) (w : Wire c) (hpending : w.pending = none) :
    (cuts n w).flatMap MultiBuffer.bytes = w.bytes := by
  induction n generalizing w with
  | zero =>
    rw [cuts]
    split
    · rename_i h
      rw [h, List.flatMap_nil]
    · simp [MultiBuffer.fillBuffers_bytes _ _ le_rfl]
  | succ n ih =>
    obtain ⟨⟨b, hb⟩, hp⟩ := w.next_suffix hpending
    rw [cuts]
    split
    · rename_i h
      rw [h, List.flatMap_nil]
    · rw [List.flatMap_cons, ih _ hp, MultiBuffer.fillBuffers_bytes _ _ le_rfl]
      conv_rhs => rw [← hb]
      rw [← hb]
      simp

end Wire

namespace AuthenticationReader

variable {c : ChunkCodec} {r : AuthenticationReader c}

/-- The reader has no bytes at hand, and the segments to come are cut by chunks. -/
structure Cut (n : ℕ) (r : AuthenticationReader c) : Prop where
  buffer : MultiBuffer.bytes r.reader.buffer = []
  hasSize : r.hasSize = false
  segments : r.reader.reader.segments = Wire.cuts n r.wire

/-- Reading a body that is in the buffer, or that takes all there is. -/
theorem readBuffer_cut {size padding : UInt16}
    (h : size.toNat = (MultiBuffer.bytes r.reader.buffer).length ∨
      r.reader.bytes.length < size.toNat ∧ r.reader.reader.segments = []) :
    MultiBuffer.bytes (r.readBuffer size padding).2.reader.buffer = [] ∧
      (r.readBuffer size padding).2.hasSize = r.hasSize ∧
      (r.readBuffer size padding).2.reader.reader.segments = r.reader.reader.segments := by
  unfold readBuffer
  rcases h with h | ⟨h, hsegments⟩
  · obtain ⟨buffer, hr, hb⟩ := r.reader.readFull_buffered h.le
    rw [hr]
    refine ⟨?_, rfl, rfl⟩
    dsimp only
    rw [hb, h, List.drop_length]
  · obtain ⟨reader, hr, hb, _, hs⟩ := r.reader.readFull_short h
    rw [hr]
    refine ⟨?_, rfl, by rw [hsegments]; exact hs⟩
    exact (List.append_eq_nil_iff.1 hb).1

theorem readBody_cut {size padding : UInt16}
    (h : size.toNat = (MultiBuffer.bytes r.reader.buffer).length ∨
      r.reader.bytes.length < size.toNat ∧ r.reader.reader.segments = [])
    (hpanic : (r.readBody size padding).1 ≠ .panic) :
    MultiBuffer.bytes (r.readBody size padding).2.reader.buffer = [] ∧
      (r.readBody size padding).2.hasSize = r.hasSize ∧
      (r.readBody size padding).2.reader.reader.segments = r.reader.reader.segments := by
  unfold readBody at hpanic ⊢
  split
  · exact readBuffer_cut h
  · rename_i hsize
    rw [if_neg hsize] at hpanic
    split
    · rename_i hpool
      rw [hpool] at hpanic
      exact absurd rfl hpanic
    · exact readBuffer_cut (r := { r with pool := r.pool.tail }) h

/-- A step on segments cut by chunks leaves them cut by chunks. -/
theorem readInternal_cut {n : ℕ} (h : r.Cut (n + 1))
    (hok : (r.readInternal false).1.outcome = .ok ()) : (r.readInternal false).2.Cut n := by
  obtain ⟨hevent, hwire⟩ := r.readInternal_hard
  have hpending : r.wire.pending = none := by simp [wire, h.hasSize]
  obtain ⟨size, padding, out, hbody⟩ :
      ∃ size padding out, r.wire.next = (.body size padding out, r.wire.next.2) := by
    rw [hevent] at hok
    cases hn : r.wire.next.1 with
    | body size padding out => exact ⟨size, padding, out, by rw [← hn]⟩
    | _ => rw [hn] at hok; cases hok
  obtain ⟨hdone, hlen, rfl, hne, st, hdecode, hread⟩ := Wire.next_body hpending hbody
  have hpanic : out ≠ .panic := by
    rintro rfl
    rw [hevent, hbody] at hok
    cases hok
  have hrest := (Wire.readBody_bytes hread).resolve_right hpanic
  have hrestlen := congrArg List.length hrest
  simp only [List.length_drop] at hrestlen
  have hbytes : r.wire.bytes ≠ [] := by
    intro hnil
    have := c.sizeBytes_le.1
    rw [hnil, List.length_nil] at hlen
    omega
  -- the size is read from the first segment
  have hsegments := h.segments
  rw [Wire.cuts, if_neg hbytes] at hsegments
  dsimp only at hsegments
  generalize hb : r.wire.bytes.take (r.wire.bytes.length - r.wire.next.2.bytes.length) = b at hsegments
  have hblen : b.length = r.wire.bytes.length - r.wire.next.2.bytes.length := by
    rw [← hb, List.length_take]
    omega
  have hfill := MultiBuffer.fillBuffers_bytes b.length b le_rfl
  obtain ⟨buffer, hr, hbuffer⟩ := r.reader.readFull_segment (n := c.sizeBytes) h.buffer hsegments
    (by have := c.sizeBytes_le.1; omega) (by rw [hfill]; omega)
  rw [hfill] at hr hbuffer
  have htake : b.take c.sizeBytes = r.wire.bytes.take c.sizeBytes := by
    rw [← hb, List.take_take, Nat.min_eq_left (by omega)]
  have hsize : r.readSize = (.ok (size, (c.nextPaddingLen r.wire.st).1),
      { r with reader := ⟨buffer, { r.reader.reader with segments := Wire.cuts n r.wire.next.2 }⟩, st }) := by
    rw [readSize, if_neg (by simp [h.hasSize]), hr, htake]
    dsimp only
    rw [show r.st = r.wire.st from rfl, hdecode]
  -- its body is the rest of the segment, or takes all there is
  generalize hr₁ : ({ r with
    reader := ⟨buffer, { r.reader.reader with segments := Wire.cuts n r.wire.next.2 }⟩, st } :
    AuthenticationReader c) = r₁ at hsize
  have hstep : r.readInternal false =
      (.body size (c.nextPaddingLen r.wire.st).1 (r₁.readBody size (c.nextPaddingLen r.wire.st).1).1,
        (r₁.readBody size (c.nextPaddingLen r.wire.st).1).2) := by
    rw [readInternal, if_neg (by simp), if_neg (by simpa [wire] using hdone), hsize]
    dsimp only
    rw [if_neg hne, if_neg (by simp)]
  have hpanic' : (r₁.readBody size (c.nextPaddingLen r.wire.st).1).1 ≠ .panic := by
    intro hp
    rw [hstep, hp] at hok
    cases hok
  have hcond : size.toNat = (MultiBuffer.bytes r₁.reader.buffer).length ∨
      r₁.reader.bytes.length < size.toNat ∧ r₁.reader.reader.segments = [] := by
    rw [← hr₁]
    dsimp only [BufferedReader.bytes, Source.bytes]
    rw [hbuffer, List.length_append, List.length_drop]
    rcases Nat.lt_or_ge (r.wire.bytes.length - c.sizeBytes) size.toNat with hlt | hge
    · have hnil : r.wire.next.2.bytes = [] := List.length_eq_zero_iff.1 (by omega)
      refine .inr ⟨?_, Wire.cuts_nil hnil⟩
      rw [Wire.cuts_nil hnil, List.flatMap_nil, List.length_nil]
      omega
    · exact .inl (by omega)
  obtain ⟨h₁, h₂, h₃⟩ := readBody_cut hcond hpanic'
  rw [hstep] at hwire ⊢
  refine ⟨h₁, h₂.trans (by rw [← hr₁]; exact h.hasSize), ?_⟩
  rw [h₃, hwire, ← hr₁]

/-- A call on segments cut by chunks meets one chunk. -/
theorem readMultiBuffer_cut {n : ℕ} (h : r.Cut (n + 1)) :
    r.readMultiBuffer.1.events = [r.wire.next.1] ∧
      (r.wire.next.1.outcome = .ok () → (∃ mb, r.readMultiBuffer.1.result = .ok mb) ∧
        r.readMultiBuffer.2.Cut n ∧ r.readMultiBuffer.2.wire = r.wire.next.2) ∧
      (∀ e, r.wire.next.1.outcome = .error e → r.readMultiBuffer.1.result = .error e) ∧
      (r.wire.next.1.outcome = .panic → r.readMultiBuffer.1.result = .panic) := by
  obtain ⟨hevent, hwire⟩ := r.readInternal_hard
  have hcut := readInternal_cut h
  unfold readMultiBuffer
  generalize r.readInternal false = t at hevent hwire hcut ⊢
  obtain ⟨event, r'⟩ := t
  dsimp only at hevent hwire hcut ⊢
  rw [← hevent]
  cases ho : event.outcome with
  | ok =>
    have hcut := hcut ho
    have hsoft : r'.readLoop 15 (event.append []) = (⟨.ok (event.append []), []⟩, r') := by
      have hbuffered : r'.reader.bufferedBytes < c.sizeBytes := by
        have := c.sizeBytes_le.1
        rw [BufferedReader.bufferedBytes, MultiBuffer.len_eq, hcut.buffer, List.length_nil]
        omega
      rw [readLoop, readInternal, if_pos ⟨rfl, hbuffered⟩]
      rfl
    rw [hsoft]
    exact ⟨rfl, fun _ => ⟨⟨_, rfl⟩, hcut, hwire⟩, by simp, by simp⟩
  | error e => simp
  | panic => simp

/-- Cut by chunks, the stream is read chunk by chunk: a call each. -/
theorem calls_cut {l : List ChunkEvent} {w : Wire c} (hl : r.wire.Steps l w)
    (h : r.Cut (l.length + 1)) :
    ∃ call ∈ (calls (l.length + 1) r).1, call.events = [w.next.1] ∧
      (w.next.1.outcome = .ok () → ∃ mb, call.result = .ok mb) ∧
      (w.next.1.outcome = .panic → call.result = .panic) := by
  induction l generalizing r with
  | nil =>
    cases hl
    obtain ⟨hevents, hok, _, hpanic⟩ := readMultiBuffer_cut h
    refine ⟨r.readMultiBuffer.1, ?_, hevents, fun ho => (hok ho).1, hpanic⟩
    rw [List.length_nil, calls]
    generalize r.readMultiBuffer = t
    obtain ⟨call, r'⟩ := t
    dsimp only
    split <;> simp
  | cons event l ih =>
    cases hl with
    | cons hn ho hl =>
      obtain ⟨_, hok, _, _⟩ := readMultiBuffer_cut h
      rw [hn] at hok
      obtain ⟨⟨mb, hmb⟩, hcut, rfl⟩ := hok ho
      obtain ⟨call, hmem, hcall⟩ := ih hl hcut
      refine ⟨call, ?_, hcall⟩
      rw [List.length_cons, calls]
      generalize r.readMultiBuffer = t at hmb hmem ⊢
      obtain ⟨call', r'⟩ := t
      dsimp only at hmb hmem ⊢
      rw [hmb]
      exact List.mem_cons_of_mem _ hmem

end AuthenticationReader

end Gzv2ray
