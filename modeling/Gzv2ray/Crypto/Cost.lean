import Gzv2ray.Crypto.Calls
import Gzv2ray.Protocol.Drain

/-!
# What an encrypted stream costs

The reader of an encrypted stream takes more from its connection than it returns: the
sizes and the tags too, and what it cannot open. A call that starts with a chunk takes
its size on top of what it returns (`readMultiBuffer_pays`), as long as the
connection has not come to its end.
-/

namespace Gzv2ray

/-- The bytes were paid for, or the connection has come to its end. -/
def Pays (before : BufferedReader) (got : ℕ) (after : BufferedReader) : Prop :=
  after.bytes = [] ∨ got + after.bytes.length ≤ before.bytes.length

namespace Pays

variable {a b c : BufferedReader} {m n : ℕ}

theorem refl (a : BufferedReader) : Pays a 0 a := .inr (Nat.zero_add _).le

theorem mono (h : Pays a n b) (hle : m ≤ n) : Pays a m b :=
  h.imp_right fun h => (Nat.add_le_add_right hle _).trans h

theorem trans (h : Pays a m b) (h' : Pays b n c) : Pays a (m + n) c := by
  rcases h' with h' | h'
  · exact .inl h'
  rcases h with h | h
  · rw [h, List.length_nil] at h'
    exact .inl (List.length_eq_zero_iff.1 (by omega))
  · exact .inr (by omega)

theorem length_le (h : Pays a n b) : b.bytes.length ≤ a.bytes.length := by
  rcases h with h | h
  · rw [h]
    exact Nat.zero_le _
  · omega

/-- A read takes what it was asked for, or comes to the end. -/
theorem of_readFull (r : BufferedReader) (n : ℕ) : Pays r n (r.readFull n).2 := by
  rcases le_or_gt n r.bytes.length with h | h
  · obtain ⟨r', hread, hbytes, -⟩ := r.readFull_ok h
    rw [hread]
    refine .inr ?_
    rw [hbytes, List.length_drop]
    omega
  · obtain ⟨r', hread, hbytes, -⟩ := r.readFull_short h
    rw [hread]
    exact .inl hbytes

end Pays

namespace AuthenticationReader

variable {c : ChunkCodec} (r : AuthenticationReader c)

/-- What the size of the next chunk costs. -/
def sizeCost : ℕ := if r.hasSize then 0 else c.sizeBytes

theorem readSize_pays : Pays r.reader r.sizeCost r.readSize.2.reader := by
  rw [readSize, sizeCost]
  split_ifs
  · exact .refl _
  · have hpays := Pays.of_readFull r.reader c.sizeBytes
    generalize r.reader.readFull c.sizeBytes = out at hpays ⊢
    rcases out with ⟨e | b, reader⟩
    · exact hpays
    · dsimp only
      rcases c.decodeSize (c.nextPaddingLen r.st).2 b with ⟨size | e | -, st⟩ <;> exact hpays

/-- Nothing is returned where there is no size. -/
theorem readSize_plain (event : ChunkEvent) (h : r.readSize.1 = .error event) : event.plain = [] := by
  rw [r.readSize_wire.1] at h
  rcases Wire.readSize_error h with ⟨⟨e, rfl⟩, -⟩ | ⟨e, rfl, -⟩ <;> rfl

theorem readBuffer_pays (size padding : UInt16) :
    Pays r.reader (ChunkEvent.body size padding (r.readBuffer size padding).1).plain.length
      (r.readBuffer size padding).2.reader := by
  rw [readBuffer]
  have hpays := Pays.of_readFull r.reader size.toNat
  have hlength {p reader} (h : r.reader.readFull size.toNat = (.ok p, reader)) : p.length = size.toNat :=
    (r.reader.readFull_eq_ok h).1
  rcases hout : r.reader.readFull size.toNat with ⟨e | b, reader⟩ <;> rw [hout] at hpays
  · exact hpays.mono (Nat.zero_le _)
  · refine hpays.mono ?_
    dsimp only
    rw [← hlength hout]
    rcases hopen : (c.openBody r.st size padding b).1 with p | e | -
    · exact Wire.openBody_fits hopen
    · exact Nat.zero_le _
    · exact Nat.zero_le _

theorem readBody_pays (size padding : UInt16) :
    Pays r.reader (ChunkEvent.body size padding (r.readBody size padding).1).plain.length
      (r.readBody size padding).2.reader := by
  rw [readBody]
  split_ifs
  · exact r.readBuffer_pays size padding
  rcases r.pool with - | ⟨- | -, pool⟩
  · exact readBuffer_pays { r with pool := [] } size padding
  · exact readBuffer_pays { r with pool } size padding
  · exact .refl _

/-- A step pays for what it returns, and for the size of its chunk if it has to read it. -/
theorem readInternal_pays (soft : Bool) :
    Pays r.reader ((if soft ∨ r.done then 0 else r.sizeCost) +
      (r.readInternal soft).1.plain.length) (r.readInternal soft).2.reader := by
  rw [readInternal]
  by_cases hsoft : soft ∧ r.reader.bufferedBytes < c.sizeBytes
  · rw [if_pos hsoft, if_pos (.inl hsoft.1)]
    exact .refl _
  rw [if_neg hsoft]
  by_cases hdone : r.done
  · rw [if_pos hdone, if_pos (.inr hdone)]
    exact .refl _
  rw [if_neg hdone]
  have hsize : Pays r.reader (if soft ∨ r.done then 0 else r.sizeCost) r.readSize.2.reader :=
    r.readSize_pays.mono (by split_ifs <;> simp)
  have hevent := r.readSize_plain
  generalize (if soft ∨ r.done then 0 else r.sizeCost) = cost at hsize ⊢
  generalize r.readSize = out at hsize hevent ⊢
  rcases out with ⟨event | ⟨size, padding⟩, r'⟩
  · rw [hevent event rfl]
    exact hsize
  dsimp only
  split_ifs with heof hlater
  · exact hsize
  · exact hsize
  · exact hsize.trans (r'.readBody_pays size padding)

/-- The bytes that a call returns. -/
def returned (result : Outcome MultiBuffer) : Bytes :=
  match result with
  | .ok mb => MultiBuffer.bytes mb
  | _ => []

theorem append_length_le (event : ChunkEvent) (mb : MultiBuffer) :
    (MultiBuffer.bytes (event.append mb)).length ≤
      (MultiBuffer.bytes mb).length + event.plain.length := by
  rcases event with - | - | - | - | - | ⟨size, padding, p | - | -⟩
  case body.ok =>
    rw [ChunkEvent.append]
    split_ifs
    · simp [Buffer.write, ChunkEvent.plain]
    · simp [ChunkEvent.plain]
  all_goals exact Nat.le_add_right _ _

theorem readLoop_pays (n : ℕ) (r : AuthenticationReader c) (mb : MultiBuffer) :
    ∃ got, (returned (r.readLoop n mb).1.result).length ≤ (MultiBuffer.bytes mb).length + got ∧
      Pays r.reader got (r.readLoop n mb).2.reader := by
  induction n generalizing r mb with
  | zero => exact ⟨0, le_rfl, .refl _⟩
  | succ n ih =>
    rw [readLoop]
    have hpays := r.readInternal_pays true
    rw [if_pos (.inl rfl), Nat.zero_add] at hpays
    generalize r.readInternal true = out at hpays ⊢
    obtain ⟨event, r'⟩ := out
    dsimp only at hpays ⊢
    rcases event.outcome with _ | e | -
    · obtain ⟨got, hle, hrest⟩ := ih r' (event.append mb)
      have happend := append_length_le event mb
      exact ⟨event.plain.length + got, by dsimp only; omega, hpays.trans hrest⟩
    · dsimp only
      split_ifs
      · exact ⟨0, le_rfl, hpays.mono (Nat.zero_le _)⟩
      · exact ⟨0, Nat.zero_le _, hpays.mono (Nat.zero_le _)⟩
    · exact ⟨0, Nat.zero_le _, hpays.mono (Nat.zero_le _)⟩

/-- A call pays for what it returns, and for the size of its first chunk. -/
theorem readMultiBuffer_pays :
    Pays r.reader ((if r.done then 0 else r.sizeCost) + (returned r.readMultiBuffer.1.result).length)
      r.readMultiBuffer.2.reader := by
  rw [readMultiBuffer]
  have hpays := r.readInternal_pays false
  simp only [Bool.false_eq_true, false_or] at hpays
  generalize r.readInternal false = out at hpays ⊢
  obtain ⟨event, r'⟩ := out
  dsimp only at hpays ⊢
  rcases event.outcome with _ | e | -
  · obtain ⟨got, hle, hrest⟩ := r'.readLoop_pays 15 (event.append [])
    have happend := append_length_le event []
    refine (hpays.trans hrest).mono ?_
    dsimp only at hle ⊢
    rw [MultiBuffer.bytes_nil, List.length_nil] at happend
    omega
  · exact hpays.mono (Nat.add_le_add_left (Nat.zero_le _) _)
  · exact hpays.mono (Nat.add_le_add_left (Nat.zero_le _) _)

end AuthenticationReader

end Gzv2ray
