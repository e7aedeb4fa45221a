import Gzv2ray.Buf.Nested
import Gzv2ray.Net.AddressRoundTrip

/-!
# What a reader delivers

The bytes that the calls of a reader return, one after the other, up to an error, and
how many calls they take (`Delivers`).

* `BufferedReader.delivers`: a connection delivers its bytes;
* `NestedReader.readInto_feeds`: a buffered reader over one that delivers bytes reads
  those it is asked for, with fuel for as many calls;
* `NestedReader.Holding.delivers_all`: it delivers what it has not been asked for.
-/

namespace Gzv2ray

/-- The calls return the bytes, in so many calls, and then the error. -/
inductive Delivers {ρ : Type} (below : MultiReader ρ) : ℕ → ρ → Bytes → Error → Prop
  | error {r r' : ρ} {e : Error} : below r = (.error e, r') → Delivers below 0 r [] e
  | ok {n : ℕ} {r r' : ρ} {mb : MultiBuffer} {b : Bytes} {e : Error} :
    below r = (.ok mb, r') → Delivers below n r' b e →
    Delivers below (n + 1) r (MultiBuffer.bytes mb ++ b) e

/-- A connection delivers the bytes of its segments, and then its error. -/
theorem BufferedReader.delivers (r : BufferedReader) :
    ∃ n, Delivers readBuffers n r r.bytes r.reader.err := by
  have hsegments : ∀ buffer segments err, MultiBuffer.isEmpty buffer = true → ∃ n,
      Delivers readBuffers n ⟨buffer, ⟨segments, err⟩⟩ (segments.flatMap MultiBuffer.bytes) err := by
    intro buffer segments err hempty
    induction segments with
    | nil =>
      have hread : readBuffers ⟨buffer, ⟨[], err⟩⟩ = (.error err, ⟨buffer, ⟨[], err⟩⟩) := by
        simp [readBuffers, readMultiBuffer, Source.readMultiBuffer, hempty]
      exact ⟨0, .error hread⟩
    | cons mb segments ih =>
      obtain ⟨n, h⟩ := ih
      exact ⟨n + 1, .ok (by simp [readBuffers, readMultiBuffer, Source.readMultiBuffer, hempty]) h⟩
  obtain ⟨buffer, segments, err⟩ := r
  rcases hempty : MultiBuffer.isEmpty buffer with - | -
  · obtain ⟨n, h⟩ := hsegments [] segments err rfl
    exact ⟨n + 1, .ok (by simp [readBuffers, readMultiBuffer, hempty]) h⟩
  · obtain ⟨n, h⟩ := hsegments buffer segments err hempty
    refine ⟨n, ?_⟩
    rwa [bytes, (MultiBuffer.isEmpty_iff buffer).1 hempty, List.nil_append]

namespace NestedReader

variable {ρ : Type} {below : MultiReader ρ}

/-- The bytes at hand and those that are delivered below, in so many calls at most. What is at hand
    counts as one. -/
structure Holding (below : MultiReader ρ) (calls : ℕ) (e : Error) (r : NestedReader ρ) (b : Bytes) :
    Prop where
  stuck : r.stuck = none
  delivers : ∃ n b', n + (if MultiBuffer.isEmpty r.buffer then 0 else 1) ≤ calls ∧
    b = MultiBuffer.bytes r.buffer ++ b' ∧ Delivers below n r.reader b' e

variable {calls fuel : ℕ} {e : Error} {r : NestedReader ρ} {b : Bytes}

theorem Holding.mono (h : Holding below calls e r b) {calls' : ℕ} (hle : calls ≤ calls') :
    Holding below calls' e r b := by
  obtain ⟨hstuck, n, b', hn, hb, hdelivers⟩ := h
  exact ⟨hstuck, n, b', hn.trans hle, hb, hdelivers⟩

/-- What is split off some bytes, and what is left of them at hand. -/
theorem Holding.of_split {mb : MultiBuffer} {n k : ℕ} {b' : Bytes} {r' : ρ} (hstuck : r.stuck = none)
    (hk : k ≤ fuel) (h : Delivers below k r' b' e) :
    let out := (MultiBuffer.splitBytes mb n).2
    let r'' : NestedReader ρ := { r with buffer := (MultiBuffer.splitBytes mb n).1, reader := r' }
    out = (MultiBuffer.bytes mb ++ b').take out.length ∧ out.length ≤ n ∧
      Holding below (fuel + 1) e r'' ((MultiBuffer.bytes mb ++ b').drop out.length) ∧
      (out.length < n → Holding below fuel e r'' ((MultiBuffer.bytes mb ++ b').drop out.length)) := by
  intro out r''
  have hout : out = (MultiBuffer.bytes mb).take n := MultiBuffer.splitBytes_snd mb n
  have hleft : MultiBuffer.bytes r''.buffer = (MultiBuffer.bytes mb).drop n :=
    MultiBuffer.splitBytes_fst_bytes mb n
  have hlength : out.length = min n (MultiBuffer.bytes mb).length := by
    rw [hout, List.length_take]
  have hrest : (MultiBuffer.bytes mb ++ b').drop out.length = MultiBuffer.bytes r''.buffer ++ b' := by
    rw [List.drop_append_of_le_length (by omega), hleft]
    congr 1
    rcases Nat.le_total n (MultiBuffer.bytes mb).length with hle | hle
    · rw [hlength, Nat.min_eq_left hle]
    · rw [List.drop_of_length_le hle, List.drop_of_length_le (by omega)]
  refine ⟨?_, by omega, ⟨hstuck, k, b', ?_, hrest, h⟩, fun hless => ⟨hstuck, k, b', ?_, hrest, h⟩⟩
  · rw [List.take_append_of_le_length (by omega), hlength, hout, List.take_eq_take_min]
  · split_ifs <;> omega
  · rw [if_pos ((MultiBuffer.isEmpty_iff _).2 (hleft.trans (List.drop_of_length_le (by omega))))]
    omega

/-- A read takes bytes, all that it was asked for or with fewer calls left. -/
theorem Holding.read (h : Holding below (fuel + 1) e r b) {n : ℕ} (hn : 0 < n) (hle : n ≤ b.length) :
    ∃ out r', r.read below n = (.ok out, r') ∧ out = b.take out.length ∧ out.length ≤ n ∧
      Holding below (fuel + 1) e r' (b.drop out.length) ∧
      (out.length < n → Holding below fuel e r' (b.drop out.length)) := by
  obtain ⟨hstuck, k, b', hk, rfl, hdelivers⟩ := h
  rw [NestedReader.read]
  rcases hempty : MultiBuffer.isEmpty r.buffer with - | -
  · rw [hempty] at hk
    refine ⟨_, _, rfl, Holding.of_split hstuck (Nat.le_of_succ_le_succ hk) hdelivers⟩
  · rw [(MultiBuffer.isEmpty_iff _).1 hempty, List.nil_append] at hle ⊢
    rcases hdelivers with herror | ⟨hbelow, hdelivers⟩
    · exact absurd (hn.trans_le hle) (lt_irrefl 0)
    · rw [hbelow]
      refine ⟨_, _, rfl, Holding.of_split hstuck ?_ hdelivers⟩
      rw [hempty] at hk
      exact Nat.le_of_succ_le_succ hk

/-- With fuel for the calls, the bytes asked for are read. -/
theorem readFullLoop_holding (h : Holding below fuel e r b) {n : ℕ} (hle : n ≤ b.length) :
    ∃ r', readFullLoop below fuel r n = (b.take n, none, r') ∧ Holding below fuel e r' (b.drop n) := by
  induction fuel generalizing r b n with
  | zero =>
    have hzero : n = 0 := by
      obtain ⟨-, k, b', hk, rfl, hdelivers⟩ := h
      rcases hempty : MultiBuffer.isEmpty r.buffer with - | - <;> rw [hempty] at hk
      · exact absurd hk (Nat.not_succ_le_zero k)
      · obtain rfl := Nat.le_zero.1 hk
        obtain ⟨-⟩ := hdelivers
        simpa [(MultiBuffer.isEmpty_iff _).1 hempty] using hle
    rw [readFullLoop, if_pos hzero]
    exact ⟨r, by simp [hzero], by simpa [hzero] using h⟩
  | succ fuel ih =>
    rw [readFullLoop]
    split_ifs with hn
    · exact ⟨r, by simp [hn], by simpa [hn] using h⟩
    obtain ⟨out, r', hread, hout, hlen, hholding, hless⟩ := h.read (Nat.pos_of_ne_zero hn) hle
    rw [hread]
    dsimp only
    rcases Nat.eq_or_lt_of_le hlen with hall | hlt
    · -- The bytes asked for are there.
      have hstop : readFullLoop below fuel r' (n - out.length) = ([], none, r') := by
        rw [hall, Nat.sub_self]
        rcases fuel with - | fuel <;> rw [readFullLoop, if_pos rfl]
      rw [hstop, List.append_nil, ← hall]
      exact ⟨r', by rw [← hout], hholding⟩
    · obtain ⟨r'', hloop, hholding'⟩ := ih (n := n - out.length) (hless hlt)
        (by rw [List.length_drop]; omega)
      have hsum : out.length + (n - out.length) = n := by omega
      rw [List.drop_drop, hsum] at hholding'
      rw [hloop]
      refine ⟨r'', ?_, hholding'.mono (Nat.le_succ fuel)⟩
      conv_rhs => rw [← hsum, List.take_add, ← hout]

/-- It reads exactly what it is asked for, and holds the rest. -/
theorem readInto_feeds (below : MultiReader ρ) (fuel : ℕ) (e : Error) :
    Feeds (readInto below fuel).full (Holding below fuel e) := by
  intro r b n h hle
  obtain ⟨r', hloop, hholding⟩ := readFullLoop_holding h hle
  refine ⟨r', ?_, hholding⟩
  rw [ReadFull.full, readInto, hloop]

/-- With nothing at hand, what is delivered below is passed on. -/
theorem delivers_of_empty {n : ℕ} {stuck : Option Stuck} {buffer : MultiBuffer} {r' : ρ}
    (h : Delivers below n r' b e) (hempty : MultiBuffer.isEmpty buffer = true) :
    Delivers (readMultiBuffer below) n ⟨buffer, r', stuck⟩ b e := by
  induction h with
  | @error r' r'' e hbelow =>
    have hread : readMultiBuffer below ⟨buffer, r', stuck⟩ = (.error e, ⟨buffer, r'', stuck⟩) := by
      simp [readMultiBuffer, hempty, hbelow]
    exact .error hread
  | @ok n r' r'' mb b e hbelow _ ih =>
    have hread : readMultiBuffer below ⟨buffer, r', stuck⟩ = (.ok mb, ⟨buffer, r'', stuck⟩) := by
      simp [readMultiBuffer, hempty, hbelow]
    exact .ok hread ih

/-- What is held is delivered. -/
theorem Holding.delivers_all (h : Holding below fuel e r b) :
    ∃ n, Delivers (readMultiBuffer below) n r b e := by
  obtain ⟨-, n, b', -, rfl, hdelivers⟩ := h
  obtain ⟨buffer, r', stuck⟩ := r
  rcases hempty : MultiBuffer.isEmpty buffer with - | -
  · have hread : readMultiBuffer below ⟨buffer, r', stuck⟩ = (.ok buffer, ⟨[], r', stuck⟩) := by
      simp [readMultiBuffer, hempty]
    exact ⟨n + 1, .ok hread (delivers_of_empty hdelivers rfl)⟩
  · have hnil : MultiBuffer.bytes buffer = [] := (MultiBuffer.isEmpty_iff _).1 hempty
    refine ⟨n, ?_⟩
    rw [hnil, List.nil_append]
    exact delivers_of_empty hdelivers hempty

end NestedReader

end Gzv2ray
