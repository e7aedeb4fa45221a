import Gzv2ray.Crypto.ChunkRoundTrip
import Gzv2ray.Crypto.PacketRoundTrip
import Gzv2ray.Crypto.StreamRoundTrip

/-!
# What is returned of any writes

A write of no bytes ends a chunked or an encrypted stream (`HasEnd`): what is written up to there
(`upToEnd`) is returned, and then the end, whatever is written behind. Where there is no such
write, the error of the transport follows.

* `ChunkStreamReader.returns_writes`: chunked streams, whose writes did not panic;
* `AuthenticationWriter.returns_writes`: encrypted streams, and encrypted packets if none is dropped
  (`KeepsAll`). A write of too many buffers returns an error and sends nothing (`sent`).
-/

namespace Gzv2ray

/-! ## Ends -/

/-- The writes before the first of no bytes. -/
def upToEnd (mbs : List MultiBuffer) : List MultiBuffer := mbs.takeWhile (!MultiBuffer.isEmpty ·)

/-- There is a write of no bytes. -/
def HasEnd (mbs : List MultiBuffer) : Prop := ∃ mb ∈ mbs, MultiBuffer.isEmpty mb

instance (mbs : List MultiBuffer) : Decidable (HasEnd mbs) :=
  inferInstanceAs (Decidable (∃ mb ∈ mbs, _))

/-- What reading comes to: the end, or the error of the transport. -/
def endError (mbs : List MultiBuffer) (err : Error) : Error := if HasEnd mbs then .eof else err

theorem upToEnd_of_isEmpty {mb : MultiBuffer} (h : MultiBuffer.isEmpty mb) (mbs : List MultiBuffer) :
    upToEnd (mb :: mbs) = [] := List.takeWhile_cons_of_neg (by simp [h])

theorem upToEnd_of_not_isEmpty {mb : MultiBuffer} (h : ¬ MultiBuffer.isEmpty mb)
    (mbs : List MultiBuffer) : upToEnd (mb :: mbs) = mb :: upToEnd mbs :=
  List.takeWhile_cons_of_pos (by simp [h])

theorem hasEnd_cons {mb : MultiBuffer} {mbs : List MultiBuffer} :
    HasEnd (mb :: mbs) ↔ MultiBuffer.isEmpty mb ∨ HasEnd mbs := List.exists_mem_cons_iff ..

/-! ## Chunked streams -/

namespace StreamReader

variable {κ : Type} {p : ChunkSizeParser κ} {r : StreamReader κ}

/-- Between chunks, a read of a transport that is used up returns its error. -/
theorem readMultiBuffer_ended (hp : p.IsInverse) {num : UInt32} {st : κ} (h : r.IsReady 0 num st []) :
    ∃ r', r.readMultiBuffer p = (.error r.reader.reader.err, r') := by
  obtain ⟨hleft, -, hmax, -, hbytes⟩ := h
  obtain ⟨reader, hread, -⟩ := r.reader.readFull_short (n := p.sizeBytes)
    (by rw [hbytes]; exact hp.sizeBytes_pos st)
  have herr : BufferedReader.shortError r.reader.bytes r.reader.reader.err = r.reader.reader.err := by
    rw [hbytes, BufferedReader.shortError, if_pos rfl]
    split_ifs with heof
    · exact heof.symm
    · rfl
  rw [herr] at hread
  rw [readMultiBuffer, if_pos hleft]
  dsimp only
  rw [if_neg (by rw [hmax]; exact fun h => absurd h.1 (by decide)), hread]
  exact ⟨_, rfl⟩

/-- Chunks are returned up to the first that is empty. -/
theorem returns_chunks (hp : p.IsInverse) {chunks : List Bytes}
    (hshort : ∀ chunk ∈ chunks, chunk.length < 2 ^ 16) {num : UInt32} {st : κ} {err : Error}
    (h : r.IsReady 0 num st (p.encodeAll st chunks).1) (herr : r.reader.reader.err = err) :
    ∃ mb, Returns (readMultiBuffer p) r mb (if [] ∈ chunks then .eof else err) ∧
      MultiBuffer.bytes mb = (chunks.takeWhile (· ≠ [])).flatten := by
  induction chunks generalizing r num st with
  | nil =>
    obtain ⟨r', hread⟩ := readMultiBuffer_ended hp h
    rw [herr] at hread
    exact ⟨[], .error (by rw [hread, if_neg List.not_mem_nil]), rfl⟩
  | cons chunk chunks ih =>
    obtain ⟨hlen, hshort'⟩ := List.forall_mem_cons.1 hshort
    rw [ChunkSizeParser.encodeAll] at h
    dsimp only at h
    by_cases hchunk : chunk = []
    · subst hchunk
      rw [List.append_nil] at h
      obtain ⟨reader, -, -, hread⟩ := readMultiBuffer_size hp h (goes_zero num)
      rw [List.length_nil, if_pos (by rfl)] at hread
      exact ⟨[], .error (by rw [hread, if_pos List.mem_cons_self]), by
        rw [List.takeWhile_cons_of_neg (by simp)]; rfl⟩
    · obtain ⟨mb, r', hpasses, hmb, hready, herr'⟩ :=
        passes_chunk hp hchunk hlen h (goes_zero num)
      obtain ⟨mb', hreturns, hmb'⟩ := ih hshort' hready (herr'.trans herr)
      refine ⟨mb ++ mb', ?_, ?_⟩
      · have hmem : [] ∈ chunk :: chunks ↔ [] ∈ chunks := by
          rw [List.mem_cons, or_iff_right (Ne.symm hchunk)]
        simp only [hmem]
        exact hpasses.returns hreturns
      · rw [List.takeWhile_cons_of_pos (by simpa using hchunk), List.flatten_cons, ← hmb, ← hmb',
          MultiBuffer.bytes_append]

end StreamReader

/-! ### The chunks of writes -/

namespace ChunkSizeParser

theorem chunks_cons (mb : MultiBuffer) (mbs : List MultiBuffer) :
    chunks (mb :: mbs) = slices (mb.length + 1) mb ++ chunks mbs := List.flatMap_cons

/-- Only a write of no bytes comes to an empty chunk. -/
theorem nil_mem_chunks {mbs : List MultiBuffer} : [] ∈ chunks mbs ↔ HasEnd mbs := by
  induction mbs with
  | nil => exact iff_of_false List.not_mem_nil (by simp [HasEnd])
  | cons mb mbs ih =>
    obtain ⟨-, -, hcontent, hnil⟩ := slices_spec (Nat.lt_succ_self mb.length)
    rw [chunks_cons, List.mem_append, ih, hasEnd_cons]
    refine or_congr_left ⟨fun h => ?_, fun h => ?_⟩
    · by_contra hne
      exact hcontent (Bool.eq_false_of_not_eq_true hne) [] h rfl
    · rw [hnil h]
      exact List.mem_singleton_self _

/-- The chunks before the first empty one are those of the writes up to there. -/
theorem takeWhile_chunks (mbs : List MultiBuffer) :
    ((chunks mbs).takeWhile (· ≠ [])).flatten = (upToEnd mbs).flatMap MultiBuffer.bytes := by
  induction mbs with
  | nil => rfl
  | cons mb mbs ih =>
    obtain ⟨hflatten, -, hcontent, hnil⟩ := slices_spec (Nat.lt_succ_self mb.length)
    rw [chunks_cons]
    by_cases hmb : MultiBuffer.isEmpty mb
    · rw [hnil hmb, upToEnd_of_isEmpty hmb, List.singleton_append,
        List.takeWhile_cons_of_neg (by simp)]
      rfl
    · have hslices : ∀ slice ∈ slices (mb.length + 1) mb, decide (slice ≠ []) = true := by
        simpa using hcontent (Bool.eq_false_of_not_eq_true hmb)
      rw [upToEnd_of_not_isEmpty hmb, List.takeWhile_append_of_pos hslices, List.flatten_append,
        hflatten, ih, List.flatMap_cons]

theorem length_of_mem_chunks {mbs : List MultiBuffer} {chunk : Bytes} (h : chunk ∈ chunks mbs) :
    chunk.length < 2 ^ 16 := by
  obtain ⟨mb, -, hslice⟩ := List.mem_flatMap.1 h
  exact ((slices_spec (Nat.lt_succ_self _)).2.1 chunk hslice).trans_lt (by decide)

end ChunkSizeParser

namespace ChunkStreamReader

variable {c : ChunkCodec}

/-- What is written in chunks is returned. -/
theorem returns_writes (h : c.Lawful) {st st' : CodecState} {mbs : List MultiBuffer} {out : Bytes}
    (hwrites : c.parser.writes st mbs = (.ok out, st')) {reader : BufferedReader}
    (hreader : reader.bytes = out) :
    ∃ mb, Returns readMultiBuffer ({ reader, st } : ChunkStreamReader c) mb
        (endError mbs reader.reader.err) ∧
      MultiBuffer.bytes mb = (upToEnd mbs).flatMap MultiBuffer.bytes := by
  have hp := ChunkCodec.parser_isInverse h
  have hwritten := ChunkSizeParser.of_writes_eq_ok hwrites
  have hsize : c.parser.sizeBytes ≤ bufSize := c.sizeBytes_le.2.trans (by decide)
  rw [ChunkSizeParser.writes_spec hp hsize fun mb hmb => (hwritten mb hmb).2] at hwrites
  rw [← Outcome.ok.inj (congrArg Prod.fst hwrites)] at hreader
  obtain ⟨mb, hreturns, hmb⟩ := StreamReader.returns_chunks hp
    (fun _ hchunk => ChunkSizeParser.length_of_mem_chunks hchunk)
    (r := toStream { reader, st }) ⟨rfl, rfl, rfl, rfl, hreader⟩ rfl
  simp only [ChunkSizeParser.nil_mem_chunks] at hreturns
  exact ⟨mb, hreturns.of_map toStream_readMultiBuffer,
    hmb.trans (ChunkSizeParser.takeWhile_chunks mbs)⟩

end ChunkStreamReader

/-! ## Encrypted streams -/

variable {c : ChunkCodec}

/-- What a call returns, without the chunks that it met. -/
def AuthenticationReader.readBuffers : MultiReader (AuthenticationReader c) := fun r =>
  (r.readMultiBuffer.1.result, r.readMultiBuffer.2)

/-- The calls return the buffers, and then the error. -/
theorem AuthenticationReader.Drains.returns {r : AuthenticationReader c} {mb : MultiBuffer} {e : Error}
    (h : r.Drains mb e) : Returns AuthenticationReader.readBuffers r mb e := by
  induction h with
  | @error r e hr => exact .error (Prod.ext hr rfl)
  | @ok r mb _ _ hr _ ih =>
    have hread : readBuffers r = (.ok mb, r.readMultiBuffer.2) := Prod.ext hr rfl
    exact (Passes.single hread).returns ih

/-- What a reader meets in what was written: the chunks, and then the end, if it was written. -/
def Meets (c : ChunkCodec) (st : CodecState) (out : Bytes) (chunks : List Bytes) (ended : Prop) :
    Prop :=
  ∃ front rest st', out = front ++ rest ∧ Carries c st front chunks st' ∧
    (ended → ∀ err pool, (Wire.new c st' rest err pool).next.1 = .eof) ∧ (¬ ended → rest = [])

namespace Meets

variable {st st' : CodecState} {out out' : Bytes} {chunks chunks' : List Bytes} {ended : Prop}

theorem nil (st : CodecState) : Meets c st [] [] False :=
  ⟨[], [], st, rfl, .nil st, False.elim, fun _ => rfl⟩

/-- Behind the end, anything may be written. -/
theorem of_seal_nil (h : c.Lawful) {w w' : AuthenticationWriter c} (hseal : w.seal_ [] = (.ok out, w'))
    (rest : Bytes) : Meets c w.st (out ++ rest) [] True :=
  ⟨[], _, w.st, rfl, .nil _, fun _ => Wire.seal_next_nil h hseal rest, fun h => absurd trivial h⟩

theorem append (h : Carries c st out chunks st') (h' : Meets c st' out' chunks' ended) :
    Meets c st (out ++ out') (chunks ++ chunks') ended := by
  obtain ⟨front, rest, st'', rfl, hcarries, hend, hnone⟩ := h'
  exact ⟨out ++ front, rest, st'', (List.append_assoc ..).symm, h.append hcarries, hend, hnone⟩

/-- The calls of a reader return the chunks, and then the end or the error of the transport. -/
theorem returns (h : Meets c st out chunks ended) [Decidable ended] {reader : BufferedReader}
    (hreader : reader.bytes = out) (pool : List Bool) :
    ∃ mb, Returns AuthenticationReader.readBuffers ({ reader, st, pool } : AuthenticationReader c) mb
        (if ended then .eof else reader.reader.err) ∧ mb.map Buffer.bytes = chunks := by
  obtain ⟨front, rest, st', rfl, hcarries, hend, hnone⟩ := h
  have hwire : ({ reader, st, pool } : AuthenticationReader c).wire =
      Wire.new c st (front ++ rest) reader.reader.err pool := by
    rw [← hreader]
    rfl
  split_ifs with hended
  · obtain ⟨mb, hdrains, hmb⟩ := AuthenticationReader.drains_of_wire hcarries (hend hended _ _)
      (.inl ⟨rfl, rfl⟩) hwire
    exact ⟨mb, hdrains.returns, hmb⟩
  · rw [hnone hended] at hwire
    obtain ⟨mb, hdrains, hmb⟩ := AuthenticationReader.drains_of_wire hcarries
      (congrArg Prod.fst (Wire.next_ended st' reader.reader.err pool)) (.inr rfl) hwire
    exact ⟨mb, hdrains.returns, hmb⟩

end Meets

namespace AuthenticationWriter

/-- The writes of a stream are met in pieces, up to the end. -/
theorem meets_stream (h : c.Lawful) (w : AuthenticationWriter c) (hstream : w.transferType = .stream)
    (mbs : List MultiBuffer) :
    ∃ out w' pieces, w.writes mbs = (.ok out, w') ∧ Meets c w.st out pieces (HasEnd mbs) ∧
      pieces.flatten = written (upToEnd mbs) := by
  induction mbs generalizing w with
  | nil => exact ⟨[], w, [], rfl, by simpa [HasEnd] using Meets.nil w.st, rfl⟩
  | cons mb mbs ih =>
    rw [writes]
    by_cases hmb : MultiBuffer.isEmpty mb
    · -- the writes behind the end only have to be possible
      obtain ⟨out, w', hseal, htype⟩ := w.seal_ok h (b := []) (Nat.zero_le _)
      obtain ⟨out', w'', _, hwrites, -⟩ := ih w' (htype.trans hstream)
      have hended : HasEnd (mb :: mbs) ↔ True := iff_true_intro (hasEnd_cons.2 (.inl hmb))
      rw [writeMultiBuffer, if_pos hmb, hseal]
      dsimp only
      rw [hwrites, upToEnd_of_isEmpty hmb]
      refine ⟨out ++ out', w'', [], rfl, ?_, rfl⟩
      rw [hended]
      exact .of_seal_nil h hseal out'
    · have hended : HasEnd (mb :: mbs) ↔ HasEnd mbs := hasEnd_cons.trans (or_iff_right hmb)
      rw [hended, upToEnd_of_not_isEmpty hmb, written]
      rcases writeMultiBuffer_carries h w hstream (mt (MultiBuffer.isEmpty_iff mb).2 hmb) with
        ⟨hlarge, hwrite⟩ | ⟨hlarge, out, w', pieces, hwrite, htype, hcarries, hpieces⟩
      · rw [hwrite, if_pos hlarge]
        exact ih w hstream
      · obtain ⟨out', w'', pieces', hwrites, hmeets, hpieces'⟩ := ih w' htype
        rw [hwrite, if_neg hlarge]
        dsimp only
        rw [hwrites]
        exact ⟨out ++ out', w'', pieces ++ pieces', rfl, hmeets.append hcarries, by
          rw [List.flatten_append, hpieces, hpieces']⟩

/-- No packet is dropped. -/
def KeepsAll (w : AuthenticationWriter c) (mbs : List MultiBuffer) : Prop :=
  (w.writes mbs).2.chunks = w.chunks ++ items mbs

/-- Sealing a chunk drops it, or records it. -/
theorem seal_cases (h : c.Lawful) (w : AuthenticationWriter c) (b : Bytes) :
    (∃ w', w.seal_ b = (.error sizeTooLargeError, w') ∧ w'.chunks = w.chunks) ∨
      ∃ out w', w.seal_ b = (.ok out, w') ∧ w'.chunks = w.chunks ++ [b] := by
  rcases w.seal_spec h b with ⟨-, hseal⟩ | ⟨-, _, _, _, _, _, w', -, -, -, -, -, hseal, -, -, hchunks⟩
  · exact .inl ⟨_, hseal, rfl⟩
  · exact .inr ⟨_, w', hseal, hchunks⟩

theorem length_sealAll_chunks (h : c.Lawful) (w : AuthenticationWriter c) (l : List Bytes) :
    (w.sealAll l).2.chunks.length ≤ w.chunks.length + l.length := by
  induction l generalizing w with
  | nil => exact le_rfl
  | cons b l ih =>
    rw [sealAll, List.length_cons]
    rcases w.seal_cases h b with ⟨w', hseal, hchunks⟩ | ⟨out, w', hseal, hchunks⟩ <;> rw [hseal]
    · have hrest := ih w'
      rw [hchunks] at hrest
      dsimp only
      omega
    · have hrest := ih w'
      rw [hchunks, List.length_append, List.length_singleton] at hrest
      dsimp only
      omega

/-- Chunks that are all sealed are met, up to the end. -/
theorem meets_sealAll (h : c.Lawful) (w : AuthenticationWriter c) {l : List Bytes}
    (hkeeps : (w.sealAll l).2.chunks = w.chunks ++ l) :
    Meets c w.st (w.sealAll l).1 (l.takeWhile (· ≠ [])) ([] ∈ l) := by
  induction l generalizing w with
  | nil =>
    rw [sealAll]
    simpa using Meets.nil w.st
  | cons b l ih =>
    rw [sealAll] at hkeeps ⊢
    rcases w.seal_cases h b with ⟨w', hseal, hchunks⟩ | ⟨out, w', hseal, hchunks⟩ <;>
      rw [hseal] at hkeeps ⊢ <;> dsimp only at hkeeps ⊢
    · -- a packet less is sealed than there are
      have hlength := length_sealAll_chunks h w' l
      rw [hkeeps, hchunks, List.length_append, List.length_cons] at hlength
      omega
    · by_cases hb : b = []
      · subst hb
        -- what is sealed behind the end is not met
        rw [List.takeWhile_cons_of_neg (by simp), iff_true_intro (List.mem_cons_self (a := []))]
        exact .of_seal_nil h hseal _
      · have hmem : [] ∈ b :: l ↔ [] ∈ l := List.mem_cons.trans (or_iff_right (Ne.symm hb))
        rw [List.takeWhile_cons_of_pos (by simpa using hb), hmem]
        exact (ih w' (by rw [hkeeps, hchunks, List.append_assoc, List.singleton_append])).append
          (.of_seal h hseal hb)

theorem nil_mem_items {mbs : List MultiBuffer} : [] ∈ items mbs ↔ HasEnd mbs := by
  induction mbs with
  | nil => exact iff_of_false List.not_mem_nil (by simp [HasEnd])
  | cons mb mbs ih =>
    rw [items, hasEnd_cons]
    split_ifs with hmb hlarge
    · exact iff_of_true List.mem_cons_self (.inl hmb)
    · rw [ih, or_iff_right hmb]
    · rw [List.mem_append, ih]
      refine or_congr_left (iff_of_false (fun h => ?_) hmb)
      obtain ⟨b, hb, hnil⟩ := List.mem_map.1 h
      simp [Buffer.isEmpty, hnil] at hb

/-- Packets are met that are not dropped, up to the end. -/
theorem meets_packets (h : c.Lawful) (w : AuthenticationWriter c) (hpacket : w.transferType = .packet)
    {mbs : List MultiBuffer} (hkeeps : w.KeepsAll mbs) :
    ∃ out w', w.writes mbs = (.ok out, w') ∧
      Meets c w.st out ((items mbs).takeWhile (· ≠ [])) (HasEnd mbs) := by
  rw [KeepsAll, writes_packets h w hpacket] at hkeeps
  refine ⟨_, _, writes_packets h w hpacket mbs, ?_⟩
  rw [← nil_mem_items]
  exact meets_sealAll h w hkeeps

/-! ## What is sent -/

/-- A write of too many buffers returns an error. -/
def refuses : TransferType → MultiBuffer → Bool
  | .stream, mb => mb.length + 10 > 64 * 1024 * 1024
  | .packet, mb => mb.length + 1 > 64 * 1024 * 1024

/-- The writes up to the end that return no error. -/
def sent (transferType : TransferType) (mbs : List MultiBuffer) : List MultiBuffer :=
  (upToEnd mbs).filter (!refuses transferType ·)

/-- The packets of writes. -/
def packets (mbs : List MultiBuffer) : List Bytes :=
  mbs.flatMap fun mb => (mb.filter (!·.isEmpty)).map Buffer.bytes

/-- The buffers hold what is sent: its bytes in order, or its packets. -/
def IsSent (transferType : TransferType) (mbs : List MultiBuffer) (mb : MultiBuffer) : Prop :=
  match transferType with
  | .stream => MultiBuffer.bytes mb = (sent .stream mbs).flatMap MultiBuffer.bytes
  | .packet => mb.map Buffer.bytes = packets (sent .packet mbs)

theorem written_upToEnd (mbs : List MultiBuffer) :
    written (upToEnd mbs) = (sent .stream mbs).flatMap MultiBuffer.bytes := by
  rw [sent]
  generalize upToEnd mbs = mbs'
  induction mbs' with
  | nil => rfl
  | cons mb mbs' ih =>
    rw [written, ih]
    split_ifs with hlarge
    · rw [List.filter_cons_of_neg (by rw [refuses, decide_eq_true hlarge]; decide)]
    · rw [List.filter_cons_of_pos (by rw [refuses, decide_eq_false hlarge]; rfl), List.flatMap_cons]

theorem takeWhile_items (mbs : List MultiBuffer) :
    (items mbs).takeWhile (· ≠ []) = packets (sent .packet mbs) := by
  induction mbs with
  | nil => rfl
  | cons mb mbs ih =>
    rw [items, sent]
    split_ifs with hmb hlarge
    · rw [upToEnd_of_isEmpty hmb, List.takeWhile_cons_of_neg (by simp)]
      rfl
    · rw [ih, upToEnd_of_not_isEmpty hmb,
        List.filter_cons_of_neg (by rw [refuses, decide_eq_true hlarge]; decide)]
      rfl
    · have hpackets : ∀ b ∈ (mb.filter (!·.isEmpty)).map Buffer.bytes, decide (b ≠ []) = true := by
        intro _ hb
        obtain ⟨b, hmem, rfl⟩ := List.mem_map.1 hb
        simpa [Buffer.isEmpty] using (List.mem_filter.1 hmem).2
      rw [List.takeWhile_append_of_pos hpackets, ih, upToEnd_of_not_isEmpty hmb,
        List.filter_cons_of_pos (by rw [refuses, decide_eq_false hlarge]; rfl), packets, packets,
        List.flatMap_cons]
      rfl

/-- What is written is returned, whatever is written: packets if none is dropped. -/
theorem returns_writes (h : c.Lawful) (w : AuthenticationWriter c) (mbs : List MultiBuffer) :
    ∃ out w', w.writes mbs = (.ok out, w') ∧
      ∀ (reader : BufferedReader) (pool : List Bool), reader.bytes = out →
        (w.transferType = .packet → w.KeepsAll mbs) →
          ∃ mb, Returns AuthenticationReader.readBuffers
              ({ reader, st := w.st, pool } : AuthenticationReader c) mb
              (endError mbs reader.reader.err) ∧ IsSent w.transferType mbs mb := by
  rcases htype : w.transferType with - | -
  · obtain ⟨out, w', pieces, hwrites, hmeets, hpieces⟩ := meets_stream h w htype mbs
    refine ⟨out, w', hwrites, fun reader pool hreader _ => ?_⟩
    obtain ⟨mb, hreturns, hmb⟩ := hmeets.returns hreader pool
    refine ⟨mb, hreturns, ?_⟩
    rw [IsSent, ← written_upToEnd, ← hpieces, ← hmb, MultiBuffer.bytes, List.flatMap_def]
  · refine ⟨_, _, writes_packets h w htype mbs, fun reader pool hreader hkeeps => ?_⟩
    obtain ⟨out, w', hwrites, hmeets⟩ := meets_packets h w htype (hkeeps rfl)
    rw [writes_packets h w htype] at hwrites
    obtain ⟨hout, -⟩ := Prod.mk.inj hwrites
    rw [Outcome.ok.inj hout] at hreader
    obtain ⟨mb, hreturns, hmb⟩ := hmeets.returns hreader pool
    exact ⟨mb, hreturns, hmb.trans (takeWhile_items mbs)⟩

end AuthenticationWriter

end Gzv2ray
