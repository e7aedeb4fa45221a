import Gzv2ray.Crypto.AuthWriter
import Gzv2ray.Crypto.RangeSafety

/-!
# From the writer to the reader

What a writer seals in the state of the reader is what the reader meets next, and
then their states are equal again (`seal_next`): each of them draws a padding, a
mask and nonces for a chunk, in the same order.

`Carries` says so of any number of chunks, and `Carries.drains` what the calls of
the reader then return.
-/

namespace Gzv2ray

variable {c : ChunkCodec}

/-! ## One chunk -/

namespace AuthenticationWriter

variable {w w' : AuthenticationWriter c}

/-- The size of a chunk, its tag and its padding counted in. -/
theorem size_toNat {b : Bytes} {padding : UInt16}
    (h : c.sizeBytes + (b.length + c.auth.overhead) + padding.toNat ≤ bufSize) :
    (UInt16.ofNat (b.length + c.auth.overhead + padding.toNat)).toNat =
      b.length + c.auth.overhead + padding.toNat :=
  UInt16.toNat_ofNat_of_lt' (by rw [bufSize] at h; simp only [UInt16.size]; omega)

/-- What sealing does: it fails if the chunk and the padding drawn do not fit in a
    `Buffer`, and else it encodes the size and seals the body. -/
theorem seal_spec (h : c.Lawful) (w : AuthenticationWriter c) (b : Bytes) :
    (bufSize < c.sizeBytes + (b.length + c.auth.overhead) + (c.nextPaddingLen w.st).1.toNat ∧
      w.seal_ b = (.error sizeTooLargeError, { w with st := (c.nextPaddingLen w.st).2 })) ∨
    (c.sizeBytes + (b.length + c.auth.overhead) + (c.nextPaddingLen w.st).1.toNat ≤ bufSize ∧
      ∃ sizeBytes st body st' padding w',
        c.decodeSize (c.nextPaddingLen w.st).2 sizeBytes =
          (.ok (UInt16.ofNat (b.length + c.auth.overhead + (c.nextPaddingLen w.st).1.toNat)), st) ∧
        sizeBytes.length = c.sizeBytes ∧ c.open_ st body = (.ok b, st') ∧
        body.length = b.length + c.auth.overhead ∧
        padding.length = (c.nextPaddingLen w.st).1.toNat ∧
        w.seal_ b = (.ok (sizeBytes ++ body ++ padding), w') ∧ w'.st = st' ∧
        w'.transferType = w.transferType ∧ w'.chunks = w.chunks ++ [b]) := by
  unfold seal_
  generalize c.nextPaddingLen w.st = t
  obtain ⟨padding, st⟩ := t
  dsimp only
  by_cases hlen : bufSize < c.sizeBytes + (b.length + c.auth.overhead) + padding.toNat
  · exact .inl ⟨hlen, by rw [if_pos hlen]⟩
  · rw [if_neg hlen]
    obtain ⟨sizeBytes, st', hs, hslen, hd⟩ := c.decodeSize_encodeSize h st
      (UInt16.ofNat (b.length + c.auth.overhead + padding.toNat))
    obtain ⟨body, st'', hb, hblen, ho⟩ := c.open_seal h st' b
    rw [hs]
    dsimp only
    rw [hb]
    exact .inr ⟨not_lt.1 hlen, sizeBytes, st', body, st'', _, _, hd, hslen, ho, hblen, by simp,
      rfl, rfl, rfl, rfl⟩

theorem nextPaddingLen_le (st : CodecState) : (c.nextPaddingLen st).1.toNat ≤ maxPadding c := by
  have hlt := c.nextPaddingLen_lt st
  unfold maxPadding
  split
  · exact hlt.le
  · rename_i hp
    rw [ChunkCodec.nextPaddingLen, if_neg hp]
    rfl

/-- What is not longer than a piece is sealed. -/
theorem seal_ok (h : c.Lawful) (w : AuthenticationWriter c) {b : Bytes}
    (hlen : b.length ≤ payloadSize c) :
    ∃ out w', w.seal_ b = (.ok out, w') ∧ w'.transferType = w.transferType := by
  rcases w.seal_spec h b with ⟨hlong, _⟩ | ⟨_, _, _, _, _, _, w', _, _, _, _, _, hs, _, ht, _⟩
  · have hpad := nextPaddingLen_le (c := c) w.st
    have hsize := c.sizeBytes_le
    have hoverhead := c.overhead_le
    have hmax : maxPadding c ≤ maxPaddingLen := by
      unfold maxPadding
      split
      · exact le_rfl
      · exact Nat.zero_le _
    rw [payloadSize] at hlen
    rw [bufSize] at hlen hlong
    rw [maxPaddingLen] at hmax
    omega
  · exact ⟨_, w', hs, ht⟩

/-- A size and the padding make a terminator only of an empty chunk. -/
theorem size_eq_iff {b : Bytes} {padding : UInt16}
    (h : c.sizeBytes + (b.length + c.auth.overhead) + padding.toNat ≤ bufSize) :
    UInt16.ofNat (b.length + c.auth.overhead + padding.toNat) =
      UInt16.ofNat c.auth.overhead + padding ↔ b = [] := by
  have hsum : UInt16.ofNat c.auth.overhead + padding =
      UInt16.ofNat (c.auth.overhead + padding.toNat) := by
    rw [UInt16.ofNat_add, UInt16.ofNat_toNat]
  have hnil := @size_toNat c [] padding
    (by simp only [List.length_nil, Nat.zero_add]; omega)
  rw [List.length_nil, Nat.zero_add] at hnil
  rw [hsum, ← UInt16.toNat_inj, size_toNat h, hnil, ← List.length_eq_zero_iff]
  omega

end AuthenticationWriter

namespace Wire

/-- A body that is there is opened. -/
theorem readBody_new {st st' : CodecState} {body padding rest : Bytes} {b : Bytes}
    {size paddingLen : UInt16} {err : Error} {pool : List Bool}
    (hsize : size.toNat = body.length + padding.length) (hpadding : padding.length = paddingLen.toNat)
    (hsmall : size.toNat ≤ bufSize) (hopen : c.open_ st body = (.ok b, st')) :
    (new c st (body ++ padding ++ rest) err pool).readBody size paddingLen =
      (.ok b, new c st' rest err pool) := by
  have hlen : (body ++ padding).length = size.toNat := by rw [List.length_append, hsize]
  have hbody : c.openBody st size paddingLen (body ++ padding) = (.ok b, st') := by
    have hto : bytesTo (body ++ padding) ((size.toNat : ℤ) - paddingLen.toNat) = some body := by
      rw [bytesTo_of_nonneg _ (by omega),
        show ((size.toNat : ℤ) - paddingLen.toNat).toNat = body.length by omega, List.take_left]
    rw [ChunkCodec.openBody, if_pos hsmall, hto]
    exact hopen
  rw [readBody, if_pos hsmall, takeBody, take, if_pos (by simp [new, ← hlen])]
  dsimp only [new]
  rw [← hlen, List.take_left, List.drop_left, hbody]

/-- A size that is there is decoded, after the padding is drawn. -/
theorem readSize_new {st st' : CodecState} {sizeBytes rest : Bytes} {size : UInt16} {err : Error}
    {pool : List Bool} (hlen : sizeBytes.length = c.sizeBytes)
    (hdecode : c.decodeSize (c.nextPaddingLen st).2 sizeBytes = (.ok size, st')) :
    (new c st (sizeBytes ++ rest) err pool).readSize =
      (.ok (size, (c.nextPaddingLen st).1), new c st' rest err pool) := by
  rw [readSize]
  dsimp only [new]
  rw [take, if_pos (by simp [hlen])]
  dsimp only
  rw [List.take_left' hlen, List.drop_left' hlen, hdecode]

/-- The reader meets the chunk that the writer sealed. -/
theorem seal_next (h : c.Lawful) {w w' : AuthenticationWriter c} {b out : Bytes}
    (hseal : w.seal_ b = (.ok out, w')) (hb : b ≠ []) (rest : Bytes) (err : Error)
    (pool : List Bool) :
    ∃ size padding : UInt16, size.toNat ≤ bufSize ∧
      (new c w.st (out ++ rest) err pool).next =
        (.body size padding (.ok b), new c w'.st rest err pool) := by
  rcases w.seal_spec h b with ⟨_, hs⟩ |
    ⟨hlen, sizeBytes, st, body, st', padding, w'', hd, hslen, ho, hblen, hpad, hs, hst, _⟩
  · rw [hs] at hseal
    cases hseal
  · rw [hs] at hseal
    cases hseal
    have htoNat := AuthenticationWriter.size_toNat (c := c) hlen
    refine ⟨UInt16.ofNat (b.length + c.auth.overhead + (c.nextPaddingLen w.st).1.toNat),
      (c.nextPaddingLen w.st).1, by omega, ?_⟩
    rw [next, if_neg (by simp [new]), List.append_assoc, List.append_assoc, readSize_new hslen hd]
    dsimp only
    rw [if_neg (fun he => hb ((AuthenticationWriter.size_eq_iff hlen).1 he)), ← List.append_assoc,
      readBody_new (by omega) hpad (by omega) ho, hst]

/-- The reader meets the end where the writer sealed an empty chunk. -/
theorem seal_next_nil (h : c.Lawful) {w w' : AuthenticationWriter c} {out : Bytes}
    (hseal : w.seal_ [] = (.ok out, w')) (rest : Bytes) (err : Error) (pool : List Bool) :
    (new c w.st (out ++ rest) err pool).next.1 = .eof := by
  rcases w.seal_spec h [] with ⟨_, hs⟩ |
    ⟨hlen, sizeBytes, st, body, st', padding, w'', hd, hslen, ho, hblen, hpad, hs, hst, _⟩
  · rw [hs] at hseal
    cases hseal
  · rw [hs] at hseal
    cases hseal
    rw [next, if_neg (by simp [new]), List.append_assoc, List.append_assoc, readSize_new hslen hd]
    dsimp only
    rw [if_pos ((AuthenticationWriter.size_eq_iff hlen).2 rfl)]

/-- The reader meets the end of the transport. -/
theorem next_ended (st : CodecState) (err : Error) (pool : List Bool) :
    (new c st [] err pool).next = (.ended err, new c st [] err pool) := by
  have hlen : ¬ c.sizeBytes ≤ 0 := by
    have := c.sizeBytes_le.1
    omega
  rw [next, if_neg (by simp [new]), readSize]
  dsimp only [new]
  rw [take, List.length_nil, if_neg hlen]
  dsimp only
  rw [BufferedReader.shortError]
  split
  · rename_i he
    rw [if_pos rfl, he]
  · rfl

end Wire

/-! ## Any number of chunks -/

/-- The chunk fits in a `Buffer`, and opens. -/
def ChunkEvent.Small (event : ChunkEvent) : Prop :=
  ∃ size padding p, event = .body size padding (.ok p) ∧ size.toNat ≤ bufSize

/-- A reader in the state `st` meets in `out` these chunks, which leave it in the
    state `st'`. -/
def Carries (c : ChunkCodec) (st : CodecState) (out : Bytes) (chunks : List Bytes)
    (st' : CodecState) : Prop :=
  ∀ rest err pool, ∃ l, (Wire.new c st (out ++ rest) err pool).Steps l (Wire.new c st' rest err pool) ∧
    l.map ChunkEvent.plain = chunks ∧ ∀ event ∈ l, event.Small

namespace Carries

variable {st st' st'' : CodecState} {out out' : Bytes} {chunks chunks' : List Bytes}

theorem nil (st : CodecState) : Carries c st [] [] st :=
  fun _ _ _ => ⟨[], .nil _, rfl, by simp⟩

theorem append (h : Carries c st out chunks st') (h' : Carries c st' out' chunks' st'') :
    Carries c st (out ++ out') (chunks ++ chunks') st'' := fun rest err pool => by
  obtain ⟨l, hl, hplain, hsmall⟩ := h (out' ++ rest) err pool
  obtain ⟨l', hl', hplain', hsmall'⟩ := h' rest err pool
  refine ⟨l ++ l', by rw [List.append_assoc]; exact hl.append hl', by simp [hplain, hplain'], ?_⟩
  intro event he
  rcases List.mem_append.1 he with he | he
  · exact hsmall event he
  · exact hsmall' event he

/-- A chunk is carried. -/
theorem of_seal (h : c.Lawful) {w w' : AuthenticationWriter c} {b : Bytes}
    (hseal : w.seal_ b = (.ok out, w')) (hb : b ≠ []) : Carries c w.st out [b] w'.st :=
  fun rest err pool => by
    obtain ⟨size, padding, hsmall, hn⟩ := Wire.seal_next h hseal hb rest err pool
    refine ⟨[.body size padding (.ok b)], .cons hn rfl (.nil _), rfl, ?_⟩
    rintro event he
    exact ⟨size, padding, b, List.mem_singleton.1 he, hsmall⟩

end Carries

/-! ## What the calls return -/

/-- Small chunks are returned in buffers of their own. -/
theorem ChunkEvent.foldl_append_small {l : List ChunkEvent} (hsmall : ∀ event ∈ l, event.Small)
    (hfits : ∀ event ∈ l, event.Fits) (mb : MultiBuffer) :
    (l.foldl append mb).map Buffer.bytes = mb.map Buffer.bytes ++ l.map plain := by
  induction l generalizing mb with
  | nil => simp
  | cons event l ih =>
    rw [List.foldl_cons, ih (fun e he => hsmall e (List.mem_cons_of_mem _ he)) fun e he =>
      hfits e (List.mem_cons_of_mem _ he)]
    obtain ⟨size, padding, p, rfl, hsize⟩ := hsmall event List.mem_cons_self
    have hp : p.length ≤ bufSize := le_trans (hfits _ List.mem_cons_self) hsize
    simp [append, plain, hsize, Buffer.write_new p hp]

namespace AuthenticationReader

variable {st st' : CodecState} {out rest : Bytes} {chunks : List Bytes} {err : Error}
  {pool : List Bool}

/-- The calls return the buffers, without an error, and then the error. -/
inductive Drains : AuthenticationReader c → MultiBuffer → Error → Prop
  | error {r : AuthenticationReader c} {e : Error} :
    r.readMultiBuffer.1.result = .error e → Drains r [] e
  | ok {r : AuthenticationReader c} {mb mb' : MultiBuffer} {e : Error} :
    r.readMultiBuffer.1.result = .ok mb → Drains r.readMultiBuffer.2 mb' e → Drains r (mb ++ mb') e

theorem drains_of_calls {n : ℕ} {r : AuthenticationReader c} {cs : List ReadCall} {last : ReadCall}
    {e : Error} (h : (calls n r).1 = cs ++ [last]) (hlast : last.result = .error e) :
    r.Drains (cs.flatMap ReadCall.returned) e := by
  induction n generalizing r cs with
  | zero => exact absurd h.symm (List.append_ne_nil_of_right_ne_nil _ (List.cons_ne_nil _ _))
  | succ n ih =>
    by_cases hr : ∃ mb, r.readMultiBuffer.1.result = .ok mb
    · obtain ⟨mb, hr⟩ := hr
      rw [calls_succ_ok n hr] at h
      rcases cs with _ | ⟨call, cs⟩
      · rw [List.nil_append, List.cons.injEq] at h
        rw [h.1, hlast] at hr
        cases hr
      · rw [List.cons_append, List.cons.injEq] at h
        rw [List.flatMap_cons, ReadCall.returned, ← h.1, hr]
        exact .ok hr (ih h.2)
    · rw [calls_succ_stop n fun mb hmb => hr ⟨mb, hmb⟩] at h
      rcases cs with _ | ⟨call, cs⟩
      · rw [List.nil_append, List.cons.injEq] at h
        exact .error (h.1 ▸ hlast)
      · rw [List.cons_append, List.cons.injEq] at h
        exact absurd h.2.symm (List.append_ne_nil_of_right_ne_nil _ (List.cons_ne_nil _ _))

theorem Drains.calls {r : AuthenticationReader c} {mb : MultiBuffer} {e : Error}
    (h : r.Drains mb e) :
    ∃ n cs last, (calls n r).1 = cs ++ [last] ∧ last.result = .error e ∧
      cs.flatMap ReadCall.returned = mb := by
  induction h with
  | @error r e hr =>
    exact ⟨1, [], r.readMultiBuffer.1, calls_succ_stop 0 (by rw [hr]; simp), hr, rfl⟩
  | @ok r mb mb' e hr _ ih =>
    obtain ⟨n, cs, last, hcalls, hlast, hcs⟩ := ih
    refine ⟨n + 1, r.readMultiBuffer.1 :: cs, last, ?_, hlast, ?_⟩
    · rw [calls_succ_ok n hr, hcalls, List.cons_append]
    · rw [List.flatMap_cons, ReadCall.returned, hr, hcs]

/-- The calls can only return one thing. -/
theorem Drains.unique {r : AuthenticationReader c} {mb mb' : MultiBuffer} {e e' : Error}
    (h : r.Drains mb e) (h' : r.Drains mb' e') : mb = mb' ∧ e = e' := by
  induction h generalizing mb' e' with
  | error hr =>
    cases h' with
    | error hr' => rw [hr] at hr'; cases hr'; exact ⟨rfl, rfl⟩
    | ok hr' _ => rw [hr] at hr'; cases hr'
  | ok hr _ ih =>
    cases h' with
    | error hr' => rw [hr] at hr'; cases hr'
    | ok hr' h' =>
      rw [hr] at hr'
      cases hr'
      obtain ⟨rfl, rfl⟩ := ih h'
      exact ⟨rfl, rfl⟩

/-- Calls that return small chunks return them in buffers of their own. -/
theorem returned_small {cs : List ReadCall}
    (hok : ∀ call ∈ cs, call.result = .ok (call.events.foldl ChunkEvent.append []))
    (hsmall : ∀ event ∈ cs.flatMap ReadCall.events, event.Small)
    (hfits : ∀ event ∈ cs.flatMap ReadCall.events, event.Fits) :
    (cs.flatMap ReadCall.returned).map Buffer.bytes =
      (cs.flatMap ReadCall.events).map ChunkEvent.plain := by
  induction cs with
  | nil => rfl
  | cons call cs ih =>
    simp only [List.flatMap_cons, List.mem_append] at hsmall hfits
    simp only [List.flatMap_cons, List.map_append]
    rw [ih (fun call hc => hok call (List.mem_cons_of_mem _ hc)) (fun event he => hsmall event (.inr he))
      fun event he => hfits event (.inr he), ReadCall.returned, hok call List.mem_cons_self]
    dsimp only
    rw [ChunkEvent.foldl_append_small (fun event he => hsmall event (.inl he)) fun event he =>
      hfits event (.inl he), List.map_nil, List.nil_append]

/-- Whatever the segments, the calls return the chunks that are carried, and then
    the error that the stream ends with. -/
theorem drains_of_wire (h : Carries c st out chunks st') {event : ChunkEvent} {e : Error}
    (hnext : (Wire.new c st' rest err pool).next.1 = event)
    (hend : event = .eof ∧ e = .eof ∨ event = .ended e) {r : AuthenticationReader c}
    (hwire : r.wire = Wire.new c st (out ++ rest) err pool) :
    ∃ mb, r.Drains mb e ∧ mb.map Buffer.bytes = chunks := by
  obtain ⟨l, hl, hplain, hsmall⟩ := h rest err pool
  obtain ⟨cs, last, hcs, hlast, hok, hevents, _⟩ :=
    calls_of_ends r (by rw [hwire]; exact hl) (Prod.ext hnext rfl) hend
  refine ⟨_, drains_of_calls hcs hlast, ?_⟩
  rw [returned_small hok (hevents ▸ hsmall) (hevents ▸ hl.fits), hevents, hplain]

/-- In particular from a reader with nothing at hand. -/
theorem drains_of_carries (h : Carries c st out chunks st') {event : ChunkEvent} {e : Error}
    (hnext : (Wire.new c st' rest err pool).next.1 = event)
    (hend : event = .eof ∧ e = .eof ∨ event = .ended e) {segments : List MultiBuffer}
    (hsegments : segments.flatMap MultiBuffer.bytes = out ++ rest) :
    ∃ mb, (new c st segments err pool).Drains mb e ∧ mb.map Buffer.bytes = chunks :=
  drains_of_wire h hnext hend (new_wire st err pool hsegments)

end AuthenticationReader

end Gzv2ray
