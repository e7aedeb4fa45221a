import Mathlib.Data.List.TakeWhile
import Gzv2ray.Crypto.Carry

/-!
# Round trip of encrypted packets

In packet mode, under the Shake mask and with padding, a packet is dropped if it
does not fit in a `Buffer` with the padding drawn for it. The draw is not undone:
the writer is then a draw ahead of the reader, which cannot tell where the next
chunk ends.

`packet_roundTrip_iff`: the reader returns the packets that were not dropped,
whatever Shake outputs, exactly if none that may be dropped is followed by
something that may be sent (`InStep`).
-/

namespace Gzv2ray

/-- The codec of an authenticator under the Shake mask, with padding. -/
def packetCodec (auth : AEADAuthenticator) (shake : ℕ → UInt8) : ChunkCodec where
  auth
  sizeParser := .shake
  padding := true
  shake

/-! ## What is sealed -/

namespace AuthenticationWriter

variable {c : ChunkCodec}

/-- The chunks that writes of packets come to, the empty one for the end. -/
def items : List MultiBuffer → List Bytes
  | [] => []
  | mb :: mbs =>
    if MultiBuffer.isEmpty mb then [] :: items mbs
    else if mb.length + 1 > 64 * 1024 * 1024 then items mbs
    else (mb.filter (!·.isEmpty)).map Buffer.bytes ++ items mbs

/-- Seals one after the other what can be sealed. -/
def sealAll : AuthenticationWriter c → List Bytes → Bytes × AuthenticationWriter c
  | w, [] => ([], w)
  | w, b :: l =>
    match w.seal_ b with
    | (.ok eb, w) =>
      let (out, w) := sealAll w l
      (eb ++ out, w)
    | (_, w) => sealAll w l

theorem seal_transferType (h : c.Lawful) (w : AuthenticationWriter c) (b : Bytes) :
    (w.seal_ b).2.transferType = w.transferType := by
  rcases w.seal_spec h b with ⟨_, hs⟩ | ⟨_, _, _, _, _, _, w', _, _, _, _, _, hs, _, ht, _⟩
  · rw [hs]
  · rw [hs, ← ht]

theorem sealAll_append (w : AuthenticationWriter c) (l l' : List Bytes) :
    w.sealAll (l ++ l') =
      ((w.sealAll l).1 ++ ((w.sealAll l).2.sealAll l').1, ((w.sealAll l).2.sealAll l').2) := by
  induction l generalizing w with
  | nil => rfl
  | cons b l ih =>
    rw [List.cons_append, sealAll, sealAll]
    generalize w.seal_ b = t
    obtain ⟨out, w'⟩ := t
    cases out <;> simp [ih]

theorem sealAll_transferType (h : c.Lawful) (w : AuthenticationWriter c) (l : List Bytes) :
    (w.sealAll l).2.transferType = w.transferType := by
  induction l generalizing w with
  | nil => rfl
  | cons b l ih =>
    have ht := seal_transferType h w b
    rw [sealAll]
    generalize w.seal_ b = t at ht ⊢
    obtain ⟨out, w'⟩ := t
    cases out <;> exact (ih w').trans ht

theorem packetLoop_eq (h : c.Lawful) (w : AuthenticationWriter c) (mb : MultiBuffer) :
    packetLoop w mb = (.ok (w.sealAll ((mb.filter (!·.isEmpty)).map Buffer.bytes)).1,
      (w.sealAll ((mb.filter (!·.isEmpty)).map Buffer.bytes)).2) := by
  induction mb generalizing w with
  | nil => rfl
  | cons b mb ih =>
    rw [packetLoop]
    by_cases hb : b.isEmpty = true
    · rw [if_pos hb, List.filter_cons_of_neg (by simp [hb])]
      exact ih w
    · rw [if_neg hb, List.filter_cons_of_pos (by simp [hb]), List.map_cons, sealAll]
      have hpanic : (w.seal_ b.bytes).1 ≠ .panic := by
        rcases w.seal_spec h b.bytes with ⟨_, hs⟩ | ⟨_, _, _, _, _, _, w', _, _, _, _, _, hs, _⟩ <;>
          rw [hs] <;> simp
      generalize w.seal_ b.bytes = t at hpanic ⊢
      obtain ⟨out, w'⟩ := t
      cases out with
      | ok eb => dsimp only; rw [ih]
      | error e => exact ih w'
      | panic => exact absurd rfl hpanic

/-- Writes of packets seal one chunk after the other. -/
theorem writes_packets (h : c.Lawful) (w : AuthenticationWriter c)
    (hpacket : w.transferType = .packet) (mbs : List MultiBuffer) :
    w.writes mbs = (.ok (w.sealAll (items mbs)).1, (w.sealAll (items mbs)).2) := by
  induction mbs generalizing w with
  | nil => rfl
  | cons mb mbs ih =>
    rw [writes, writeMultiBuffer, items]
    by_cases hempty : MultiBuffer.isEmpty mb = true
    · obtain ⟨out, w', hs, ht⟩ := w.seal_ok h (b := []) (Nat.zero_le _)
      rw [if_pos hempty, if_pos hempty, sealAll, hs]
      dsimp only
      rw [ih w' (ht.trans hpacket)]
    · rw [if_neg hempty, if_neg hempty, hpacket]
      dsimp only
      rw [writePacket]
      by_cases hlarge : mb.length + 1 > 64 * 1024 * 1024
      · rw [if_pos hlarge, if_pos hlarge]
        exact ih w hpacket
      · rw [if_neg hlarge, if_neg hlarge, packetLoop_eq h, sealAll_append]
        dsimp only
        rw [ih _ ((sealAll_transferType h w _).trans hpacket)]

end AuthenticationWriter

/-! ## Packets that are kept in step -/

/-- With the longest padding, a packet does not fit in a `Buffer`. -/
def MayDrop (overhead : ℕ) (b : Bytes) : Prop := bufSize < 2 + (b.length + overhead) + 63

/-- Even without padding, a packet does not fit in a `Buffer`. -/
def MustDrop (overhead : ℕ) (b : Bytes) : Prop := bufSize < 2 + (b.length + overhead)

instance (overhead : ℕ) (b : Bytes) : Decidable (MayDrop overhead b) := inferInstanceAs (Decidable (_ < _))

instance (overhead : ℕ) (b : Bytes) : Decidable (MustDrop overhead b) := inferInstanceAs (Decidable (_ < _))

/-- Up to the end, nothing that may be sent comes after a packet that may be dropped. -/
def InStep (overhead : ℕ) : List Bytes → Prop
  | [] => True
  | b :: l =>
    b = [] ∨ if MayDrop overhead b then ∀ b' ∈ l, MustDrop overhead b' else InStep overhead l

/-- Where packets fall out of step: up to a packet `x` they fit with any padding, and
    after it they fit with none, up to a chunk `y`. -/
theorem exists_of_not_inStep {overhead : ℕ} {l : List Bytes} (h : ¬ InStep overhead l) :
    ∃ pre x mid y rest, l = pre ++ x :: (mid ++ y :: rest) ∧
      (∀ b ∈ pre, b ≠ [] ∧ ¬ MayDrop overhead b) ∧ MayDrop overhead x ∧
      (∀ b ∈ mid, MustDrop overhead b) ∧ ¬ MustDrop overhead y := by
  induction l with
  | nil => exact absurd trivial h
  | cons b l ih =>
    rw [InStep, not_or] at h
    obtain ⟨hb, h⟩ := h
    split at h
    · rename_i hmay
      have hne : l.dropWhile (MustDrop overhead ·) ≠ [] := fun hnil =>
        h fun b' hb' => of_decide_eq_true (List.dropWhile_eq_nil_iff.1 hnil b' hb')
      obtain ⟨y, rest, hrest⟩ := List.exists_cons_of_ne_nil hne
      have hy := List.head_dropWhile_not (MustDrop overhead ·) hne
      simp only [hrest, List.head_cons, decide_eq_false_iff_not] at hy
      refine ⟨[], b, l.takeWhile (MustDrop overhead ·), y, rest, ?_, by simp, hmay,
        fun b' hb' => ?_, hy⟩
      · rw [← hrest, List.takeWhile_append_dropWhile, List.nil_append]
      · have := List.mem_takeWhile_imp hb'
        exact of_decide_eq_true this
    · rename_i hmay
      obtain ⟨pre, x, mid, y, rest, rfl, hpre, hrest⟩ := ih h
      refine ⟨b :: pre, x, mid, y, rest, rfl, fun b' hb' => ?_, hrest⟩
      rcases List.mem_cons.1 hb' with rfl | hb'
      · exact ⟨hb, hmay⟩
      · exact hpre b' hb'

namespace AuthenticationWriter

variable {auth : AEADAuthenticator} {shake : ℕ → UInt8}

theorem packetCodec_lawful (h : auth.Lawful) : (packetCodec auth shake).Lawful :=
  ⟨h, fun _ hp => by cases hp⟩

/-- Packets that cannot be sealed are dropped; each draws a padding. -/
theorem sealAll_of_mustDrop (h : auth.Lawful) (w : AuthenticationWriter (packetCodec auth shake))
    {l : List Bytes} (hl : ∀ b ∈ l, MustDrop auth.overhead b) :
    w.sealAll l = ([], { w with st := { w.st with shake := w.st.shake + 2 * l.length } }) := by
  induction l generalizing w with
  | nil => rfl
  | cons b l ih =>
    have hb : bufSize < 2 + (b.length + auth.overhead) := hl b List.mem_cons_self
    rcases w.seal_spec (packetCodec_lawful h) b with ⟨_, hs⟩ | ⟨hlen, _⟩
    · rw [sealAll, hs]
      dsimp only
      rw [ih _ fun b he => hl b (List.mem_cons_of_mem _ he), List.length_cons, Nat.mul_add,
        Nat.mul_one]
      dsimp only [ChunkCodec.nextPaddingLen, packetCodec, ChunkCodec.next]
      rw [if_pos rfl, Nat.add_assoc, Nat.add_comm 2]
    · have hsize : (packetCodec auth shake).sizeBytes = 2 := rfl
      have hoverhead : (packetCodec auth shake).auth.overhead = auth.overhead := rfl
      omega

theorem sealAll_chunks (h : auth.Lawful) (w : AuthenticationWriter (packetCodec auth shake))
    (l : List Bytes) : ∃ chunks, (w.sealAll l).2.chunks = w.chunks ++ chunks := by
  induction l generalizing w with
  | nil => exact ⟨[], (List.append_nil _).symm⟩
  | cons b l ih =>
    rw [sealAll]
    rcases w.seal_spec (packetCodec_lawful h) b with
      ⟨_, hs⟩ | ⟨_, _, _, _, _, _, w', _, _, _, _, _, hs, _, _, hchunks⟩
    · rw [hs]
      exact ih { w with st := ((packetCodec auth shake).nextPaddingLen w.st).2 }
    · obtain ⟨chunks, hl⟩ := ih w'
      rw [hs]
      exact ⟨b :: chunks, by rw [hl, hchunks, List.append_assoc]; rfl⟩

/-- What the reader meets in packets that are in step: those that were sent, and then
    the end, if it was. -/
theorem sealAll_carries (h : auth.Lawful) (w : AuthenticationWriter (packetCodec auth shake))
    {l : List Bytes} (hl : InStep auth.overhead l) :
    ∃ chunks out rest st, (w.sealAll l).2.chunks = w.chunks ++ chunks ∧
      (w.sealAll l).1 = out ++ rest ∧
      Carries (packetCodec auth shake) w.st out (chunks.takeWhile (· ≠ [])) st ∧
      if [] ∈ chunks then
        ∀ err pool, (Wire.new (packetCodec auth shake) st rest err pool).next.1 = .eof
      else rest = [] := by
  have hlawful : (packetCodec auth shake).Lawful := packetCodec_lawful h
  -- By induction on the packets. What is behind an empty packet is `rest`: the reader stops there.
  induction l generalizing w with
  | nil => exact ⟨[], [], [], w.st, (List.append_nil _).symm, rfl, .nil _, by simp⟩
  | cons b l ih =>
    have hsize : (packetCodec auth shake).sizeBytes = 2 := rfl
    have hoverhead : (packetCodec auth shake).auth.overhead = auth.overhead := rfl
    rw [InStep] at hl
    rw [sealAll]
    rcases w.seal_spec hlawful b with
      ⟨hlong, hs⟩ | ⟨_, sizeBytes, _, body, _, padding, w', _, _, _, _, _, hs, _, _, hchunks⟩
    · -- a packet that is dropped is followed by such only
      have hpadding := (packetCodec auth shake).nextPaddingLen_lt w.st
      have hmay : MayDrop auth.overhead b := by
        rw [MayDrop]
        rw [maxPaddingLen] at hpadding
        omega
      have hb : b ≠ [] := by
        rintro rfl
        have := (packetCodec auth shake).overhead_le
        rw [MayDrop, List.length_nil, bufSize] at hmay
        omega
      rw [or_iff_right hb, if_pos hmay] at hl
      rw [hs]
      dsimp only
      rw [sealAll_of_mustDrop h _ hl]
      exact ⟨[], [], [], w.st, (List.append_nil _).symm, rfl, .nil _, by simp⟩
    · rw [hs]
      dsimp only
      by_cases hb : b = []
      · subst hb
        obtain ⟨chunks, hl'⟩ := w'.sealAll_chunks h l
        refine ⟨[] :: chunks, [], _, w.st, ?_, rfl, .nil _, ?_⟩
        · rw [hl', hchunks, List.append_assoc, List.singleton_append]
        · rw [if_pos List.mem_cons_self]
          exact Wire.seal_next_nil hlawful hs _
      · have hcarries := Carries.of_seal hlawful hs hb
        rw [or_iff_right hb] at hl
        split at hl
        · rw [sealAll_of_mustDrop h _ hl]
          refine ⟨[b], _, [], w'.st, hchunks, rfl, ?_, ?_⟩
          · rwa [List.takeWhile_cons_of_pos (by simpa using hb), List.takeWhile_nil]
          · rw [if_neg (by simpa using hb)]
        · obtain ⟨chunks, out, rest, st, hch, hout, hcarries', hend⟩ := ih w' hl
          refine ⟨b :: chunks, sizeBytes ++ body ++ padding ++ out, rest, st, ?_, ?_, ?_, ?_⟩
          · rw [hch, hchunks, List.append_assoc, List.singleton_append]
          · simp only [hout, List.append_assoc]
          · rw [List.takeWhile_cons_of_pos (by simpa using hb)]
            exact hcarries.append hcarries'
          · simpa [Ne.symm hb] using hend

/-- Packets that fit with any padding are all sent, four bytes of Shake each. -/
theorem sealAll_of_not_mayDrop (h : auth.Lawful) (w : AuthenticationWriter (packetCodec auth shake))
    {l : List Bytes} (hl : ∀ b ∈ l, b ≠ [] ∧ ¬ MayDrop auth.overhead b) :
    Carries (packetCodec auth shake) w.st (w.sealAll l).1 l (w.sealAll l).2.st ∧
      (w.sealAll l).2.chunks = w.chunks ++ l ∧
      (w.sealAll l).2.st.shake = w.st.shake + 4 * l.length := by
  have hlawful : (packetCodec auth shake).Lawful := packetCodec_lawful h
  induction l generalizing w with
  | nil => exact ⟨.nil _, (List.append_nil _).symm, rfl⟩
  | cons b l ih =>
    obtain ⟨hb, hmay⟩ := hl b List.mem_cons_self
    rcases w.seal_spec hlawful b with
      ⟨hlong, _⟩ | ⟨_, _, st, _, st', _, w', hd, _, ho, _, _, hs, hst, _, hchunks⟩
    · have hsize : (packetCodec auth shake).sizeBytes = 2 := rfl
      have hoverhead : (packetCodec auth shake).auth.overhead = auth.overhead := rfl
      have hpadding := (packetCodec auth shake).nextPaddingLen_lt w.st
      rw [MayDrop] at hmay
      rw [maxPaddingLen] at hpadding
      omega
    · obtain ⟨hcarries, hch, hshake⟩ := ih w' fun b he => hl b (List.mem_cons_of_mem _ he)
      have hst' : w'.st.shake = w.st.shake + 4 := by
        have h₁ : st.shake = w.st.shake + 4 := (congrArg (fun r => r.2.shake) hd).symm
        have h₂ : st'.shake = st.shake := (congrArg (fun r => r.2.shake) ho).symm
        rw [hst, h₂, h₁]
      rw [sealAll, hs]
      refine ⟨(Carries.of_seal hlawful hs hb).append hcarries, ?_, ?_⟩
      · dsimp only
        rw [hch, hchunks, List.append_assoc, List.singleton_append]
      · dsimp only
        rw [hshake, hst', List.length_cons]
        omega

end AuthenticationWriter

/-! ## Packets that fall out of step -/

namespace Wire

variable {c : ChunkCodec} {w w' : Wire c}

theorem readBody_err (w : Wire c) (size padding : UInt16) :
    (w.readBody size padding).2.err = w.err := by
  have htake : ∀ w : Wire c, (w.takeBody size padding).2.err = w.err := by
    intro w
    unfold takeBody take
    by_cases h : size.toNat ≤ w.bytes.length
    · rw [if_pos h]
    · rw [if_neg h]
  unfold readBody
  split
  · exact htake w
  · split
    · rfl
    · exact htake { w with pool := w.pool.tail }

theorem readSize_err (w : Wire c) : w.readSize.2.err = w.err := by
  unfold readSize
  split
  · rfl
  · unfold take
    by_cases h : c.sizeBytes ≤ w.bytes.length
    · rw [if_pos h]
      dsimp only
      generalize c.decodeSize _ _ = d
      obtain ⟨d, st⟩ := d
      cases d <;> rfl
    · rw [if_neg h]

theorem next_err (w : Wire c) : w.next.2.err = w.err := by
  have hs := w.readSize_err
  unfold next
  split
  · rfl
  · generalize w.readSize = t at hs ⊢
    obtain ⟨res, w₁⟩ := t
    cases res with
    | error event => exact hs
    | ok p =>
      dsimp only at hs ⊢
      split
      · exact hs
      · exact (w₁.readBody_err _ _).trans hs

theorem Steps.err {l : List ChunkEvent} (h : w.Steps l w') : w'.err = w.err := by
  induction h with
  | nil => rfl
  | @cons w _ _ _ _ hn _ _ ih =>
    have := w.next_err
    rw [hn] at this
    exact ih.trans this

theorem readBody_eof {size padding : UInt16} (herr : w.err ≠ .eof) :
    (w.readBody size padding).1 ≠ .error .eof := by
  have htake : ∀ w : Wire c, w.err ≠ .eof → (w.takeBody size padding).1 ≠ .error .eof := by
    intro w herr h
    by_cases hlen : size.toNat ≤ w.bytes.length
    · unfold takeBody take at h
      rw [if_pos hlen] at h
      exact (c.openBody_error h).2 rfl
    · unfold takeBody take at h
      rw [if_neg hlen] at h
      dsimp only at h
      rw [BufferedReader.shortError, if_neg herr] at h
      exact herr (Outcome.error.inj h)
  unfold readBody
  split
  · exact htake w herr
  · split
    · simp
    · exact htake { w with pool := w.pool.tail } herr

theorem readSize_eof {event : ChunkEvent} (herr : w.err ≠ .eof)
    (h : w.readSize.1 = .error event) : event.outcome ≠ .error .eof := by
  rcases readSize_error h with ⟨⟨e, rfl⟩, hshort⟩ | ⟨e, rfl, _, htext⟩
  · unfold readSize take at h
    split at h
    · cases h
    · rw [if_neg (not_le.2 hshort)] at h
      dsimp only at h
      rw [BufferedReader.shortError, if_neg herr] at h
      cases h
      exact fun he => herr (Outcome.error.inj he)
  · exact fun he => htext (congrArg Error.text (Outcome.error.inj he))

/-- Only the end of the stream is the error `EOF`, if the transport ends otherwise. -/
theorem next_of_eof (herr : w.err ≠ .eof) (h : w.next.1.outcome = .error .eof) :
    w.next.1 = .eof := by
  unfold next at h ⊢
  split at h
  · rename_i hdone
    rw [if_pos hdone]
  · rename_i hdone
    rw [if_neg hdone]
    have hsize : ∀ event, w.readSize.1 = .error event → event.outcome ≠ .error .eof :=
      fun event => readSize_eof herr
    have hw := w.readSize_err
    generalize w.readSize = t at h hsize hw ⊢
    obtain ⟨res, w₁⟩ := t
    cases res with
    | error event => exact absurd h (hsize event rfl)
    | ok p =>
      dsimp only at h hw ⊢
      split at h
      · rename_i heq
        rw [if_pos heq]
      · have hbody : (w₁.readBody p.1 p.2).1 ≠ .error .eof := readBody_eof (by rwa [hw])
        dsimp only at h
        generalize (w₁.readBody p.1 p.2).1 = out at h hbody
        cases out with
        | ok => cases h
        | panic => cases h
        | error e =>
          rw [ChunkEvent.outcome] at h
          split at h
          · cases h
          · exact absurd (congrArg Outcome.error (Outcome.error.inj h)) hbody

/-- A large body that is opened is not empty. -/
theorem readBody_ne_nil {size padding : UInt16} (hsize : bufSize < size.toNat)
    (hpadding : padding.toNat < maxPaddingLen) {p : Bytes} (h : (w.readBody size padding).1 = .ok p) :
    p ≠ [] := by
  have htake : ∀ w : Wire c, (w.takeBody size padding).1 = .ok p → p ≠ [] := by
    rintro w h rfl
    unfold takeBody take at h
    by_cases hlen : size.toNat ≤ w.bytes.length
    · rw [if_pos hlen] at h
      dsimp only [ChunkCodec.openBody] at h
      rw [if_neg (not_le.2 hsize)] at h
      have hopen := AEADAuthenticator.length_open h
      have hoverhead := c.overhead_le
      have hle : padding ≤ size := UInt16.le_iff_toNat_le.2 (by
        rw [bufSize] at hsize; rw [maxPaddingLen] at hpadding; omega)
      rw [List.length_take, List.length_take, UInt16.toNat_sub_of_le _ _ hle, List.length_nil] at hopen
      rw [bufSize] at hsize
      rw [maxPaddingLen] at hpadding
      omega
    · rw [if_neg hlen] at h
      cases h
  unfold readBody at h
  rw [if_neg (not_le.2 hsize)] at h
  split at h
  · cases h
  · exact htake { w with pool := w.pool.tail } h

end Wire

namespace AuthenticationReader

variable {c : ChunkCodec} {r : AuthenticationReader c}

/-- A reader that meets a large body after some chunks does not return just these, and
    then the end. -/
theorem not_drains_of_large {l : List ChunkEvent} {w w' : Wire c} {size padding : UInt16}
    {out : Outcome Bytes} (hl : r.wire.Steps l w) (herr : r.wire.err ≠ .eof)
    (hnext : w.next = (.body size padding out, w')) (hsize : bufSize < size.toNat)
    (hout : ∀ p, out = .ok p → p ≠ []) {mb : MultiBuffer}
    (hmb : MultiBuffer.bytes mb = l.flatMap ChunkEvent.plain) : ¬ r.Drains mb .eof := by
  intro hdrains
  obtain ⟨n, cs, last, hcs, hlast, hreturned⟩ := hdrains.calls
  obtain ⟨l', w'', hl', hcalls⟩ := calls_spec n r
  rcases hcalls with ⟨hall, _⟩ | ⟨cs', last', ev, lost, hcs', hok, hev, hlost, hw, hf, _⟩
  · have := hall last (by rw [hcs]; exact List.mem_append_right _ (List.mem_singleton_self _))
    rw [hlast] at this
    cases this
  · obtain ⟨rfl, hsingle⟩ := List.append_inj' (hcs.symm.trans hcs') rfl
    obtain rfl : last = last' := by simpa using hsingle
    -- the last chunk met is the end, and none before is lost
    have hevent : ev.outcome = .error .eof := by
      rcases hf with ⟨e, ho, hr⟩ | ⟨_, hr⟩
      · rw [hlast] at hr
        rw [ho, ← Outcome.error.inj hr]
      · rw [hlast] at hr
        cases hr
    have heof : ev = .eof := by
      have := Wire.next_of_eof (w := w'') (by rw [hl'.err]; exact herr) (by rw [hw]; exact hevent)
      rwa [hw] at this
    have hnone : lost = [] := by
      by_contra hne
      exact (hlost hne).2 heof
    rw [hnone, List.append_nil] at hev
    obtain ⟨l'', rfl, hsteps⟩ := hl.continued hl' (by rw [hw, heof]; simp [ChunkEvent.outcome])
    have hbytes := returned_bytes hok (hev ▸ hl'.fits)
    rw [hreturned, hmb, hev, List.flatMap_append, List.self_eq_append_right] at hbytes
    cases hsteps with
    | nil =>
      rw [hw, heof] at hnext
      cases hnext
    | cons hn ho _ =>
      obtain ⟨rfl, rfl⟩ := Prod.mk.inj (hnext.symm.trans hn)
      rw [List.flatMap_cons, List.append_eq_nil_iff] at hbytes
      cases out with
      | ok p => exact hout p rfl hbytes.1
      | error e =>
        rw [ChunkEvent.outcome, if_neg (not_le.2 hsize)] at ho
        cases ho
      | panic => cases ho

end AuthenticationReader

/-- What the reader returns are the packets that were sent up to the end, in order and
    each in a buffer of its own, and then the end, or else the error of the transport:
    whatever Shake outputs, and however the bytes are cut into segments. -/
def ReadsPackets (auth : AEADAuthenticator) (mbs : List MultiBuffer) : Prop :=
  ∀ shake rand, ∃ out w,
    AuthenticationWriter.writes
      ({ transferType := .packet, rand } : AuthenticationWriter (packetCodec auth shake)) mbs =
        (.ok out, w) ∧
    ∀ segments err pool, segments.flatMap MultiBuffer.bytes = out →
      ∃ mb, (AuthenticationReader.new (packetCodec auth shake) {} segments err pool).Drains mb
          (if [] ∈ w.chunks then .eof else err) ∧
        mb.map Buffer.bytes = w.chunks.takeWhile (· ≠ [])

/-- An output of Shake under which a packet sealed after `4 * n` bytes is padded by
    63 bytes, a chunk sealed `m` packets later by none, and the size of that chunk
    is masked by `mask`. All other bytes are zero. -/
def fallShake (n m : ℕ) (mask : UInt16) (k : ℕ) : UInt8 :=
  if k = 4 * n + 1 then 63
  else if k = 4 * n + 2 * m + 4 then (ChunkCodec.putUint16 mask).getD 0 0
  else if k = 4 * n + 2 * m + 5 then (ChunkCodec.putUint16 mask).getD 1 0
  else 0

section FallShake

variable (auth : AEADAuthenticator) {n : ℕ} (m : ℕ) (mask : UInt16) {st : CodecState}

variable {m mask} in
theorem fallShake_of_ne {k : ℕ} (h₁ : k ≠ 4 * n + 1) (h₂ : k ≠ 4 * n + 2 * m + 4)
    (h₃ : k ≠ 4 * n + 2 * m + 5) : fallShake n m mask k = 0 := by
  rw [fallShake, if_neg h₁, if_neg h₂, if_neg h₃]

/-- The mask drawn where there is nothing in particular. -/
theorem next_fallShake_zero {k : ℕ} (hst : st.shake = k) (h₁ : k ≠ 4 * n) (h₂ : k ≠ 4 * n + 1)
    (h₃ : k + 1 ≠ 4 * n + 2 * m + 4) (h₄ : k ≠ 4 * n + 2 * m + 4) (h₅ : k ≠ 4 * n + 2 * m + 5) :
    (packetCodec auth (fallShake n m mask)).next st = (0, { st with shake := k + 2 }) := by
  have hk : fallShake n m mask st.shake = 0 := fallShake_of_ne (by omega) (by omega) (by omega)
  have hk' : fallShake n m mask (st.shake + 1) = 0 :=
    fallShake_of_ne (by omega) (by omega) (by omega)
  rw [ChunkCodec.next]
  dsimp only [packetCodec]
  rw [hk, hk', hst]
  rfl

theorem nextPaddingLen_fallShake (hst : st.shake = 4 * n) :
    (packetCodec auth (fallShake n m mask)).nextPaddingLen st =
      (63, { st with shake := 4 * n + 2 }) := by
  have hk : fallShake n m mask st.shake = 0 := fallShake_of_ne (by omega) (by omega) (by omega)
  have hk' : fallShake n m mask (st.shake + 1) = 63 := by rw [hst, fallShake, if_pos rfl]
  rw [ChunkCodec.nextPaddingLen, if_pos (by rfl), ChunkCodec.next]
  dsimp only [packetCodec]
  rw [hk, hk', hst]
  rfl

theorem nextPaddingLen_fallShake_zero (hst : st.shake = 4 * n + 2 + 2 * m) :
    (packetCodec auth (fallShake n m mask)).nextPaddingLen st =
      (0, { st with shake := 4 * n + 2 * m + 4 }) := by
  rw [ChunkCodec.nextPaddingLen, if_pos (by rfl),
    next_fallShake_zero auth m mask hst (by omega) (by omega) (by omega) (by omega) (by omega)]
  dsimp only
  rw [show 4 * n + 2 + 2 * m + 2 = 4 * n + 2 * m + 4 by omega]
  rfl

/-- A size is decoded under the mask drawn for it. -/
theorem decodeSize_fallShake (hst : st.shake = 4 * n + 2 * m + 4) (b : Bytes) :
    (packetCodec auth (fallShake n m mask)).decodeSize st b =
      (.ok (mask ^^^ ChunkCodec.uint16 b), { st with shake := st.shake + 2 }) := by
  have hk : fallShake n m mask st.shake = (ChunkCodec.putUint16 mask).getD 0 0 := by
    rw [fallShake, if_neg (by omega), if_pos hst]
  have hk' : fallShake n m mask (st.shake + 1) = (ChunkCodec.putUint16 mask).getD 1 0 := by
    rw [fallShake, if_neg (by omega), if_neg (by omega), if_pos (by omega)]
  have hmask : ChunkCodec.uint16 [(ChunkCodec.putUint16 mask).getD 0 0,
      (ChunkCodec.putUint16 mask).getD 1 0] = mask := by
    conv_rhs => rw [← ChunkCodec.uint16_putUint16' mask]
    rfl
  rw [ChunkCodec.decodeSize]
  dsimp only [packetCodec, ChunkCodec.next]
  rw [hk, hk', hmask]

theorem decodeSize_fallShake_zero (hst : st.shake = 4 * n + 2) (b : Bytes) :
    (packetCodec auth (fallShake n m mask)).decodeSize st b =
      (.ok (ChunkCodec.uint16 b), { st with shake := 4 * n + 4 }) := by
  have hnext : (packetCodec auth (fallShake n m mask)).next st =
      (0, { st with shake := 4 * n + 2 + 2 }) :=
    next_fallShake_zero auth m mask hst (by omega) (by omega) (by omega) (by omega) (by omega)
  rw [ChunkCodec.decodeSize]
  dsimp only [packetCodec] at hnext ⊢
  rw [hnext]
  simp

end FallShake

namespace AuthenticationWriter

variable {auth : AEADAuthenticator} {n m : ℕ} {mask : UInt16}

/-- A packet that may be dropped is dropped with the longest padding. -/
theorem seal_dropped (h : auth.Lawful)
    {w : AuthenticationWriter (packetCodec auth (fallShake n m mask))} (hst : w.st.shake = 4 * n)
    {b : Bytes} (hb : MayDrop auth.overhead b) :
    w.seal_ b = (.error sizeTooLargeError, { w with st := { w.st with shake := 4 * n + 2 } }) := by
  have hpadding := nextPaddingLen_fallShake auth m mask hst
  rcases w.seal_spec (packetCodec_lawful h) b with ⟨_, hs⟩ | ⟨hlen, _⟩
  · rw [hs, hpadding]
  · rw [hpadding] at hlen
    exact absurd hlen (not_le.2 hb)

/-- A chunk that may be sent is sent without padding. -/
theorem seal_sent (h : auth.Lawful)
    {w : AuthenticationWriter (packetCodec auth (fallShake n m mask))}
    (hst : w.st.shake = 4 * n + 2 + 2 * m) {b : Bytes} (hb : ¬ MustDrop auth.overhead b) :
    ∃ sizeBytes body w', w.seal_ b = (.ok (sizeBytes ++ body), w') ∧ sizeBytes.length = 2 ∧
      mask ^^^ ChunkCodec.uint16 sizeBytes = UInt16.ofNat (b.length + auth.overhead) ∧
      w'.chunks = w.chunks ++ [b] := by
  have hpadding := nextPaddingLen_fallShake_zero auth m mask hst
  rcases w.seal_spec (packetCodec_lawful h) b with
    ⟨hlong, _⟩ | ⟨_, sizeBytes, _, body, _, padding, w', hd, hlen, _, _, hp, hs, _, _, hchunks⟩
  · rw [hpadding] at hlong
    exact absurd hlong hb
  · rw [hpadding] at hd hp
    rw [List.length_eq_zero_iff.1 hp, List.append_nil] at hs
    refine ⟨sizeBytes, body, w', hs, hlen, ?_, hchunks⟩
    dsimp only at hd
    rw [decodeSize_fallShake auth m mask rfl] at hd
    exact Outcome.ok.inj (congrArg Prod.fst hd)

/-- What the writer writes of packets that fall out of step. -/
theorem sealAll_fall (h : auth.Lawful) {pre mid : List Bytes} {x y : Bytes}
    (rest : List Bytes) (size : UInt16)
    (hpre : ∀ b ∈ pre, b ≠ [] ∧ ¬ MayDrop auth.overhead b) (hx : MayDrop auth.overhead x)
    (hmid : ∀ b ∈ mid, MustDrop auth.overhead b) (hy : ¬ MustDrop auth.overhead y)
    (hmask : mask = UInt16.ofNat (y.length + auth.overhead) ^^^ size)
    {w : AuthenticationWriter (packetCodec auth (fallShake pre.length mid.length mask))}
    (hst : w.st.shake = 0) (hchunks : w.chunks = []) :
    ∃ out sizeBytes more st chunks,
      (w.sealAll (pre ++ x :: (mid ++ y :: rest))).1 = out ++ (sizeBytes ++ more) ∧
      (w.sealAll (pre ++ x :: (mid ++ y :: rest))).2.chunks = pre ++ y :: chunks ∧
      Carries (packetCodec auth (fallShake pre.length mid.length mask)) w.st out pre st ∧
      st.shake = 4 * pre.length ∧ sizeBytes.length = 2 ∧ ChunkCodec.uint16 sizeBytes = size := by
  obtain ⟨hcarries, hch, hshake⟩ := sealAll_of_not_mayDrop h w hpre
  rw [hst, Nat.zero_add] at hshake
  rw [hchunks, List.nil_append] at hch
  rw [sealAll_append]
  generalize w.sealAll pre = t at hcarries hch hshake ⊢
  obtain ⟨out, w₁⟩ := t
  dsimp only at hcarries hch hshake ⊢
  rw [sealAll, seal_dropped h hshake hx]
  dsimp only
  rw [sealAll_append, sealAll_of_mustDrop h _ hmid]
  dsimp only
  obtain ⟨sizeBytes, body, w₂, hs, hlen, hsize, hch₂⟩ := @seal_sent auth pre.length mid.length mask h
    { w₁ with st := { w₁.st with shake := 4 * pre.length + 2 + 2 * mid.length } } rfl y hy
  obtain ⟨chunks, hchunks'⟩ := w₂.sealAll_chunks h rest
  rw [sealAll, hs]
  refine ⟨out, sizeBytes, body ++ (w₂.sealAll rest).1, w₁.st, chunks, ?_, ?_, hcarries, hshake, hlen, ?_⟩
  · simp only [List.nil_append, List.append_assoc]
  · dsimp only
    rw [hchunks', hch₂]
    dsimp only
    rw [hch, List.append_assoc, List.singleton_append]
  · rw [hmask] at hsize
    rw [UInt16.xor_assoc] at hsize
    have := (UInt16.xor_right_inj _).1 (hsize.trans UInt16.xor_zero.symm)
    exact (UInt16.xor_eq_zero_iff.1 this).symm

end AuthenticationWriter

/-- The reader, which has drawn less than the writer, decodes the size of the chunk
    under another mask. -/
theorem Wire.next_fallShake (auth : AEADAuthenticator) {n : ℕ} (m : ℕ) (mask : UInt16)
    {size : UInt16} {st : CodecState} (hst : st.shake = 4 * n) {sizeBytes : Bytes} (hlen : sizeBytes.length = 2)
    (hsize : ChunkCodec.uint16 sizeBytes = size) (rest : Bytes) (err : Error) (pool : List Bool) :
    (new (packetCodec auth (fallShake n m mask)) st (sizeBytes ++ rest) err pool).next =
      if size = UInt16.ofNat auth.overhead + 63 then
        (.eof, { new (packetCodec auth (fallShake n m mask)) { st with shake := 4 * n + 4 } rest err
          pool with done := true })
      else
        let body := (new (packetCodec auth (fallShake n m mask)) { st with shake := 4 * n + 4 } rest
          err pool).readBody size 63
        (.body size 63 body.1, body.2) := by
  have hpadding := nextPaddingLen_fallShake auth m mask hst
  have hdecode : (packetCodec auth (fallShake n m mask)).decodeSize
      ((packetCodec auth (fallShake n m mask)).nextPaddingLen st).2 sizeBytes =
        (.ok size, { st with shake := 4 * n + 4 }) := by
    rw [hpadding, decodeSize_fallShake_zero auth m mask rfl, hsize]
  rw [next, if_neg (by simp [new]), readSize_new hlen hdecode, hpadding]
  rfl

/-- A packet that may be dropped, before a chunk that may be sent, makes the reader
    lose its step. -/
theorem inStep_of_readsPackets {auth : AEADAuthenticator} (h : auth.Lawful) {mbs : List MultiBuffer}
    (hreads : ReadsPackets auth mbs) : InStep auth.overhead (AuthenticationWriter.items mbs) := by
  by_contra hn
  obtain ⟨pre, x, mid, y, rest, hitems, hpre, hx, hmid, hy⟩ := exists_of_not_inStep hn
  -- the end is met too early, or where it should be met it is not
  obtain ⟨size, hend, hlarge⟩ : ∃ size : UInt16,
      (y ≠ [] → size = UInt16.ofNat auth.overhead + 63) ∧
      (y = [] → bufSize < size.toNat ∧ size ≠ UInt16.ofNat auth.overhead + 63) := by
    by_cases hnil : y = []
    · have hoverhead := auth.aead.overhead_le
      refine ⟨65535, fun h => absurd hnil h, fun _ => ⟨by decide, fun h => ?_⟩⟩
      have := congrArg UInt16.toNat h
      simp only [UInt16.toNat_add, UInt16.toNat_ofNat', UInt16.reduceToNat] at this
      rw [AEADAuthenticator.overhead] at this
      omega
    · exact ⟨_, fun _ => rfl, fun h => absurd h hnil⟩
  obtain ⟨out, w, hws, hread⟩ := hreads
    (fallShake pre.length mid.length (UInt16.ofNat (y.length + auth.overhead) ^^^ size)) fun _ => 0
  rw [AuthenticationWriter.writes_packets (AuthenticationWriter.packetCodec_lawful h) _ rfl, hitems] at hws
  obtain ⟨out', sizeBytes, more, st, chunks, hout, hchunks, hcarries, hst, hlen, hsize⟩ :=
    AuthenticationWriter.sealAll_fall h rest size hpre hx hmid hy rfl
      (w := { transferType := .packet, rand := fun _ => 0 }) rfl rfl
  rw [Prod.mk.injEq, Outcome.ok.injEq] at hws
  rw [hws.2] at hchunks
  rw [hws.1] at hout
  obtain ⟨segments, hsegments⟩ : ∃ segments : List MultiBuffer,
      segments.flatMap MultiBuffer.bytes = out' ++ (sizeBytes ++ more) :=
    ⟨[MultiBuffer.fillBuffers _ _], by
      rw [List.flatMap_singleton, MultiBuffer.fillBuffers_bytes _ _ le_rfl]⟩
  obtain ⟨mb, hdrains, hmb⟩ := hread segments .closedPipe [] (hsegments.trans hout.symm)
  have hnext := Wire.next_fallShake auth mid.length (UInt16.ofNat (y.length + auth.overhead) ^^^ size)
    hst hlen hsize more .closedPipe []
  rw [hchunks] at hdrains hmb
  by_cases hnil : y = []
  · -- the reader meets a large body instead of the end
    obtain ⟨hbig, hne⟩ := hlarge hnil
    rw [if_neg hne] at hnext
    dsimp only at hnext
    obtain ⟨l, hl, hplain, _⟩ := hcarries (sizeBytes ++ more) .closedPipe []
    rw [if_pos (by rw [hnil]; simp)] at hdrains
    rw [hnil, List.takeWhile_append_of_pos (by simpa using fun b hb => (hpre b hb).1),
      List.takeWhile_cons_of_neg (by simp), List.append_nil] at hmb
    refine AuthenticationReader.not_drains_of_large (l := l) ?_ ?_ hnext hbig ?_ ?_ hdrains
    · rw [AuthenticationReader.new_wire _ _ _ hsegments]
      exact hl
    · exact (by decide : Error.closedPipe ≠ .eof)
    · intro p hp
      exact Wire.readBody_ne_nil hbig (by decide) hp
    · rw [MultiBuffer.bytes, List.flatMap_def, hmb, ← hplain, List.flatMap_def]
  · -- the reader meets the end instead of the chunk
    rw [if_pos (hend hnil)] at hnext
    obtain ⟨mb', hdrains', hmb'⟩ := AuthenticationReader.drains_of_carries hcarries
      (congrArg Prod.fst hnext) (.inl ⟨rfl, rfl⟩) hsegments
    rw [(hdrains.unique hdrains').1, hmb',
      List.takeWhile_append_of_pos (by simpa using fun b hb => (hpre b hb).1),
      List.takeWhile_cons_of_pos (by simpa using hnil), List.self_eq_append_right] at hmb
    cases hmb

/-- Packets are read as they were sent, under the Shake mask and with padding, exactly
    if they are in step. -/
theorem readsPackets_iff {auth : AEADAuthenticator} (h : auth.Lawful) (mbs : List MultiBuffer) :
    ReadsPackets auth mbs ↔ InStep auth.overhead (AuthenticationWriter.items mbs) := by
  refine ⟨inStep_of_readsPackets h, fun hstep shake rand => ?_⟩
  let w : AuthenticationWriter (packetCodec auth shake) := { transferType := .packet, rand }
  obtain ⟨chunks, out, rest, st, hchunks, hout, hcarries, hend⟩ :=
    AuthenticationWriter.sealAll_carries h w hstep
  rw [show w.chunks = [] from rfl, List.nil_append] at hchunks
  refine ⟨_, _, AuthenticationWriter.writes_packets (AuthenticationWriter.packetCodec_lawful h) w rfl
    mbs, fun segments err pool hsegments => ?_⟩
  rw [hout] at hsegments
  rw [hchunks]
  split at hend
  · rename_i hmem
    rw [if_pos hmem]
    exact AuthenticationReader.drains_of_carries hcarries (hend err pool) (.inl ⟨rfl, rfl⟩) hsegments
  · rename_i hmem
    rw [if_neg hmem]
    subst hend
    exact AuthenticationReader.drains_of_carries hcarries
      (congrArg Prod.fst (Wire.next_ended st err pool)) (.inr rfl) hsegments

/-- A packet as long as a `Buffer`, which is dropped, and one of a byte. -/
def fallenPackets : List MultiBuffer :=
  [[⟨0, List.replicate 2048 0, by rw [List.length_replicate]; exact le_rfl⟩, .ofBytes [1] (by decide)]]

/-- Packets with a checksum are read exactly if they are in step. -/
theorem readsPackets_iff_fnv :
    ReadsPackets (Vmess.withoutNonce Vmess.fnvAuthenticator) fallenPackets ↔
      InStep 4 (AuthenticationWriter.items fallenPackets) :=
  readsPackets_iff (Vmess.withoutNonce_lawful rfl Vmess.fnvAuthenticator_inverts) _

/-- The output of Shake that makes the reader take the second packet for the end. -/
def fallenShake (k : ℕ) : UInt8 := if k = 5 then 1 else 0

/-- The second packet is sent, but the reader meets the end in its place. -/
theorem not_readsPackets_fallen :
    ¬ ReadsPackets (Vmess.withoutNonce Vmess.fnvAuthenticator) fallenPackets := fun h => by
  obtain ⟨out, w, hws, hread⟩ := h fallenShake fun _ => 0
  have hout : (AuthenticationWriter.writes ({ transferType := .packet, rand := fun _ => 0 } :
      AuthenticationWriter (packetCodec (Vmess.withoutNonce Vmess.fnvAuthenticator) fallenShake))
      fallenPackets).1 = .ok [0, 4, 4, 12, 91, 140, 1] := by decide +kernel
  have hchunks : (AuthenticationWriter.writes ({ transferType := .packet, rand := fun _ => 0 } :
      AuthenticationWriter (packetCodec (Vmess.withoutNonce Vmess.fnvAuthenticator) fallenShake))
      fallenPackets).2.chunks = [[1]] := by decide +kernel
  rw [hws] at hout hchunks
  obtain ⟨mb, hdrains, hmb⟩ := hread [[.ofBytes [0, 4, 4, 12, 91, 140, 1] (by decide)]] .closedPipe []
    (Outcome.ok.inj hout).symm
  have hend : (AuthenticationReader.new
      (packetCodec (Vmess.withoutNonce Vmess.fnvAuthenticator) fallenShake) {}
      [[.ofBytes [0, 4, 4, 12, 91, 140, 1] (by decide)]] .closedPipe []).Drains [] .eof :=
    .error (by decide +kernel)
  rw [(hdrains.unique hend).1, hchunks] at hmb
  revert hmb
  decide

end Gzv2ray
