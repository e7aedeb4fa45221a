import Gzv2ray.Crypto.Carry

/-!
# Round trip of an encrypted stream

In stream mode the writer cuts what it is given into pieces that fit in a
`Buffer` with the longest padding, so that sealing one never fails. The reader
returns the bytes that were written, and the end where it was written
(`stream_roundTrip`).
-/

namespace Gzv2ray

variable {c : ChunkCodec}

namespace AuthenticationWriter

/-- The bytes of what is written, the writes of too many buffers left aside: these
    return an error. -/
def written : List MultiBuffer → Bytes
  | [] => []
  | mb :: mbs =>
    if mb.length + 10 > 64 * 1024 * 1024 then written mbs else MultiBuffer.bytes mb ++ written mbs

/-- The pieces of a stream are carried. -/
theorem streamLoop_carries (h : c.Lawful) (fuel : ℕ) (w : AuthenticationWriter c) (mb : MultiBuffer)
    (hne : MultiBuffer.bytes mb ≠ []) (hfuel : MultiBuffer.len mb < fuel) :
    ∃ out w' pieces, streamLoop fuel w mb = (.ok out, w') ∧ w'.transferType = w.transferType ∧
      Carries c w.st out pieces w'.st ∧ pieces.flatten = MultiBuffer.bytes mb := by
  induction fuel generalizing w mb with
  | zero => exact absurd hfuel (Nat.not_lt_zero _)
  | succ fuel ih =>
    have hpos : 0 < payloadSize c := by
      have hsize := c.sizeBytes_le
      have hoverhead := c.overhead_le
      rw [payloadSize, bufSize, maxPadding]
      split
      · rw [maxPaddingLen]; omega
      · omega
    obtain ⟨hpiece, hrest⟩ := MultiBuffer.splitBytes_spec mb (payloadSize c)
    rw [streamLoop]
    generalize MultiBuffer.splitBytes mb (payloadSize c) = t at hpiece hrest ⊢
    obtain ⟨mb', piece⟩ := t
    dsimp only at hpiece hrest ⊢
    subst hpiece
    have hpne : (MultiBuffer.bytes mb).take (payloadSize c) ≠ [] := by
      rw [ne_eq, List.take_eq_nil_iff, not_or]
      exact ⟨hpos.ne', hne⟩
    obtain ⟨out, w', hs, ht⟩ := w.seal_ok h (b := (MultiBuffer.bytes mb).take (payloadSize c))
      (List.length_take_le _ _)
    have hcarries := Carries.of_seal h hs hpne
    rw [hs]
    dsimp only
    split
    · rename_i hempty
      rw [MultiBuffer.isEmpty_iff, hrest, List.drop_eq_nil_iff] at hempty
      exact ⟨out, w', _, rfl, ht, hcarries, by simp [List.take_of_length_le hempty]⟩
    · rename_i hempty
      rw [MultiBuffer.isEmpty_iff] at hempty
      obtain ⟨out', w'', pieces, hloop, ht', hcarries', hpieces⟩ := ih w' mb' hempty (by
        rw [MultiBuffer.len_eq, hrest, List.length_drop]
        rw [MultiBuffer.len_eq] at hfuel
        have := List.length_pos_iff.2 hne
        omega)
      rw [hloop]
      refine ⟨out ++ out', w'', _, rfl, ht'.trans ht, hcarries.append hcarries', ?_⟩
      rw [List.flatten_append, hpieces, hrest]
      simp

/-- A write of a stream is carried, unless it has too many buffers. -/
theorem writeMultiBuffer_carries (h : c.Lawful) (w : AuthenticationWriter c)
    (hstream : w.transferType = .stream) {mb : MultiBuffer} (hmb : MultiBuffer.bytes mb ≠ []) :
    (mb.length + 10 > 64 * 1024 * 1024 ∧ w.writeMultiBuffer mb = (.error valueTooLargeError, w)) ∨
    ¬ mb.length + 10 > 64 * 1024 * 1024 ∧ ∃ out w' pieces, w.writeMultiBuffer mb = (.ok out, w') ∧
      w'.transferType = .stream ∧ Carries c w.st out pieces w'.st ∧
      pieces.flatten = MultiBuffer.bytes mb := by
  rw [writeMultiBuffer, if_neg (by rwa [MultiBuffer.isEmpty_iff]), hstream]
  dsimp only
  rw [writeStream]
  split_ifs with hlarge
  · exact .inl ⟨hlarge, rfl⟩
  · obtain ⟨out, w', pieces, hloop, ht, hcarries, hpieces⟩ :=
      streamLoop_carries h (MultiBuffer.len mb + 1) w mb hmb (Nat.lt_succ_self _)
    exact .inr ⟨hlarge, out, w', pieces, hloop, ht.trans hstream, hcarries, hpieces⟩

/-- The writes of a stream are carried, those with too many buffers left aside. -/
theorem writes_carries (h : c.Lawful) (w : AuthenticationWriter c) (hstream : w.transferType = .stream)
    {mbs : List MultiBuffer} (hne : ∀ mb ∈ mbs, MultiBuffer.bytes mb ≠ []) :
    ∃ out w' pieces, w.writes mbs = (.ok out, w') ∧ w'.transferType = .stream ∧
      Carries c w.st out pieces w'.st ∧
      pieces.flatten = written mbs := by
  induction mbs generalizing w with
  | nil => exact ⟨[], w, [], rfl, hstream, .nil _, rfl⟩
  | cons mb mbs ih =>
    have hmbs := fun mb he => hne mb (List.mem_cons_of_mem _ he)
    rw [writes, written]
    rcases writeMultiBuffer_carries h w hstream (hne mb List.mem_cons_self) with
      ⟨hlarge, hwrite⟩ | ⟨hlarge, out, w', pieces, hwrite, ht, hcarries, hpieces⟩
    · rw [hwrite, if_pos hlarge]
      exact ih w hstream hmbs
    · obtain ⟨out', w'', pieces', hws, ht', hcarries', hpieces'⟩ := ih w' ht hmbs
      rw [hwrite, if_neg hlarge]
      dsimp only
      rw [hws]
      exact ⟨out ++ out', w'', pieces ++ pieces', rfl, ht', hcarries.append hcarries', by
        rw [List.flatten_append, hpieces, hpieces']⟩

theorem legacyCodec_lawful : AuthenticationReader.legacyCodec.Lawful where
  auth := Vmess.withoutNonce_lawful rfl Vmess.fnvAuthenticator_inverts
  sizeParser _ h := by cases h

end AuthenticationWriter

end Gzv2ray
