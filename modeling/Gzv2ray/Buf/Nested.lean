import Gzv2ray.Buf.Reading

/-!
# Buffered readers over any reader

A `NestedReader` is a `BufferedReader` over whatever returns buffers, such as a
reader that decrypts. It keeps what it was handed and not asked for.

What is below may panic, or return nothing time and again, so that `io.ReadFull`
goes on for longer than the fuel it has. Such a reader is stuck from then on.

* `NestedReader.readInto`: `io.ReadFull`, with what it read before an error;
* `NestedReader.readInto_follows`: a relation that holds of each read holds of it;
* `NestedReader.readInto_supplies`: over a reader that hands bytes over, it reads them.
-/

namespace Gzv2ray

/-- Whatever returns buffers. -/
abbrev MultiReader (ρ : Type) := ρ → Outcome MultiBuffer × ρ

/-- The transport of a `BufferedReader` returns an error, or buffers. -/
def BufferedReader.readBuffers : MultiReader BufferedReader := fun r =>
  match r.readMultiBuffer with
  | (.ok mb, r) => (.ok mb, r)
  | (.error e, r) => (.error e, r)

/-- Why a reader is stuck. -/
inductive Stuck
  | panic
  | endless
  deriving DecidableEq

structure NestedReader (ρ : Type) where
  buffer : MultiBuffer := []
  reader : ρ
  stuck : Option Stuck := none

namespace NestedReader

variable {ρ : Type} (below : MultiReader ρ)

/-- Reads up to `n` bytes, from the bytes at hand if there are any. -/
def read (r : NestedReader ρ) (n : ℕ) : Outcome Bytes × NestedReader ρ :=
  if !MultiBuffer.isEmpty r.buffer then
    let (buffer, out) := MultiBuffer.splitBytes r.buffer n
    (.ok out, { r with buffer })
  else
    match below r.reader with
    | (.ok mb, reader) =>
      let (buffer, out) := MultiBuffer.splitBytes mb n
      (.ok out, { r with buffer, reader })
    | (.error e, reader) => (.error e, { r with reader })
    | (.panic, reader) => (.panic, { r with reader })

/-- Reads whatever comes next. -/
def readMultiBuffer : MultiReader (NestedReader ρ) := fun r =>
  if !MultiBuffer.isEmpty r.buffer then (.ok r.buffer, { r with buffer := [] })
  else
    let (out, reader) := below r.reader
    (out, { r with reader })

/-- What is returned by a reader that is stuck stands for nothing. -/
def stuckError : Error := .new []

/-- The loop of `io.ReadFull`. -/
def readFullLoop : ℕ → NestedReader ρ → ℕ → Bytes × Option Error × NestedReader ρ
  | 0, r, n =>
    if n = 0 then ([], none, r) else ([], some stuckError, { r with stuck := some .endless })
  | fuel + 1, r, n =>
    if n = 0 then ([], none, r)
    else
      match r.read below n with
      | (.ok out, r) =>
        let (out', err, r) := readFullLoop fuel r (n - out.length)
        (out ++ out', err, r)
      | (.error e, r) => ([], some e, r)
      | (.panic, r) => ([], some stuckError, { r with stuck := some .panic })

/-- `io.ReadFull`. -/
def readInto (fuel : ℕ) : ReadFull (NestedReader ρ) := fun r n =>
  match readFullLoop below fuel r n with
  | (out, some .eof, r) => (out, some (if out.isEmpty then .eof else .unexpectedEOF), r)
  | out => out

/-! ## What each read does -/

/-- The bytes that a read returns. -/
def taken : Outcome Bytes → Bytes
  | .ok out => out
  | _ => []

variable {below} {S : NestedReader ρ → Bytes → NestedReader ρ → Prop}

variable (below) in
theorem read_length_le (r : NestedReader ρ) (n : ℕ) : (taken (r.read below n).1).length ≤ n := by
  rw [read]
  split_ifs
  · simp [taken]
  · rcases below r.reader with ⟨mb | e | -, reader⟩ <;> simp [taken]

theorem readFullLoop_full (fuel : ℕ) (r : NestedReader ρ) (n : ℕ) :
    (readFullLoop below fuel r n).1.length ≤ n ∧
      ((readFullLoop below fuel r n).2.1 = none → (readFullLoop below fuel r n).1.length = n) := by
  induction fuel generalizing r n with
  | zero =>
    rw [readFullLoop]
    split_ifs with hn <;> simp [hn]
  | succ fuel ih =>
    rw [readFullLoop]
    split_ifs with hn
    · simp [hn]
    have hle := read_length_le below r n
    generalize r.read below n = out at hle ⊢
    rcases out with ⟨out | e | -, r'⟩
    · obtain ⟨hle', hfull⟩ := ih r' (n - out.length)
      dsimp only [taken] at hle ⊢
      rw [List.length_append]
      exact ⟨by omega, fun hnone => by rw [hfull hnone]; omega⟩
    · simp
    · simp

variable (below) in
theorem readInto_cases (fuel : ℕ) (r : NestedReader ρ) (n : ℕ) :
    (readInto below fuel r n).1 = (readFullLoop below fuel r n).1 ∧
      (readInto below fuel r n).2.2 = (readFullLoop below fuel r n).2.2 ∧
      ((readInto below fuel r n).2.1 = none ↔ (readFullLoop below fuel r n).2.1 = none) := by
  rw [readInto]
  rcases readFullLoop below fuel r n with ⟨out, - | - | - | - | - | text, r'⟩ <;> simp

theorem readInto_isFull (fuel : ℕ) : (readInto below fuel).IsFull := by
  intro r n
  obtain ⟨hout, -, herr⟩ := readInto_cases below fuel r n
  rw [hout, herr]
  exact readFullLoop_full fuel r n

/-- What holds of each read, and of getting stuck, holds of the loop. -/
theorem readFullLoop_follows (hS : IsPath S)
    (hread : ∀ r n, 0 < n → S r (taken (r.read below n).1) (r.read below n).2)
    (hstuck : ∀ r why, S r [] { r with stuck := some why }) (fuel : ℕ) (r : NestedReader ρ) (n : ℕ) :
    S r (readFullLoop below fuel r n).1 (readFullLoop below fuel r n).2.2 := by
  induction fuel generalizing r n with
  | zero =>
    rw [readFullLoop]
    split_ifs
    · exact hS.refl r
    · exact hstuck r .endless
  | succ fuel ih =>
    rw [readFullLoop]
    split_ifs with hn
    · exact hS.refl r
    have htaken := hread r n (Nat.pos_of_ne_zero hn)
    generalize r.read below n = out at htaken ⊢
    rcases out with ⟨out | e | -, r'⟩
    · exact hS.trans htaken (ih r' (n - out.length))
    · exact htaken
    · exact hS.trans htaken (hstuck r' .panic)

theorem readInto_follows (hS : IsPath S)
    (hread : ∀ r n, 0 < n → S r (taken (r.read below n).1) (r.read below n).2)
    (hstuck : ∀ r why, S r [] { r with stuck := some why }) (fuel : ℕ) :
    (readInto below fuel).Follows S where
  refl := hS.refl
  trans := hS.trans
  le r n := (readInto_isFull fuel r n).1
  read r n := by
    obtain ⟨hout, hr, -⟩ := readInto_cases below fuel r n
    rw [hout, hr]
    exact readFullLoop_follows hS hread hstuck fuel r n

/-! ## Over a reader that hands bytes over -/

/-- Each call hands some of the bytes over that are to come, or meets an end. -/
def HandsOver (below : MultiReader ρ) (P : ρ → Bytes → Prop) (ended : ρ → Prop) : Prop :=
  ∀ r b, P r b → (∃ e r', below r = (.error e, r') ∧ ended r') ∨
    ∃ mb r' b', below r = (.ok mb, r') ∧ b = MultiBuffer.bytes mb ++ b' ∧ P r' b'

/-- The bytes at hand come before those that the reader below hands over. -/
def Holds (P : ρ → Bytes → Prop) (r : NestedReader ρ) (b : Bytes) : Prop :=
  ∃ b', b = MultiBuffer.bytes r.buffer ++ b' ∧ P r.reader b'

variable {P : ρ → Bytes → Prop} {ended : ρ → Prop}

theorem read_handsOver (h : HandsOver below P ended) {r : NestedReader ρ} {b : Bytes}
    (hr : Holds P r b) (n : ℕ) :
    (∃ e r', r.read below n = (.error e, r') ∧ ended r'.reader) ∨
      ∃ out r' b', r.read below n = (.ok out, r') ∧ b = out ++ b' ∧ out.length ≤ n ∧ Holds P r' b' := by
  obtain ⟨b', rfl, hr⟩ := hr
  rw [read]
  split_ifs with hbuffer
  · refine .inr ⟨_, _, (MultiBuffer.bytes r.buffer).drop n ++ b', rfl, ?_, by simp, b', by simp, hr⟩
    rw [MultiBuffer.splitBytes_snd, ← List.append_assoc, List.take_append_drop]
  have hempty : MultiBuffer.bytes r.buffer = [] := by
    rwa [Bool.not_eq_true', Bool.not_eq_false, MultiBuffer.isEmpty_iff] at hbuffer
  rw [hempty, List.nil_append]
  rcases h r.reader b' hr with ⟨e, r', hbelow, hended⟩ | ⟨mb, r', b'', hbelow, rfl, hr'⟩ <;>
    rw [hbelow]
  · exact .inl ⟨e, _, rfl, hended⟩
  · refine .inr ⟨_, _, (MultiBuffer.bytes mb).drop n ++ b'', rfl, ?_, by simp, b'', by simp, hr'⟩
    rw [MultiBuffer.splitBytes_snd, ← List.append_assoc, List.take_append_drop]

theorem readFullLoop_supplies (h : HandsOver below P ended) (fuel : ℕ) {r : NestedReader ρ} {b : Bytes}
    (hr : Holds P r b) (n : ℕ) :
    (∃ p e r', readFullLoop below fuel r n = (p, some e, r') ∧
      (r'.stuck ≠ none ∨ ended r'.reader)) ∨
    n ≤ b.length ∧ ∃ r', readFullLoop below fuel r n = (b.take n, none, r') ∧ Holds P r' (b.drop n) := by
  induction fuel generalizing r b n with
  | zero =>
    rw [readFullLoop]
    split_ifs with hn
    · exact .inr ⟨by omega, r, by simp [hn], by simpa [hn] using hr⟩
    · exact .inl ⟨_, _, _, rfl, .inl (by simp)⟩
  | succ fuel ih =>
    rw [readFullLoop]
    split_ifs with hn
    · exact .inr ⟨by omega, r, by simp [hn], by simpa [hn] using hr⟩
    rcases read_handsOver h hr n with ⟨e, r', hread, hended⟩ | ⟨out, r', b', hread, rfl, hle, hr'⟩ <;>
      rw [hread] <;> dsimp only
    · exact .inl ⟨_, _, r', rfl, .inr hended⟩
    · rcases ih hr' (n - out.length) with ⟨p, e, r'', hloop, hend⟩ | ⟨hn', r'', hloop, hr''⟩ <;>
        rw [hloop] <;> dsimp only
      · exact .inl ⟨_, _, r'', rfl, hend⟩
      · refine .inr ⟨by rw [List.length_append]; omega, r'', ?_, ?_⟩
        · rw [List.take_append, List.take_of_length_le hle]
        · rwa [List.drop_append, List.drop_of_length_le hle, List.nil_append]

theorem readInto_supplies (h : HandsOver below P ended) (fuel : ℕ) :
    (readInto below fuel).Supplies (Holds P) fun r => r.stuck ≠ none ∨ ended r.reader := by
  intro r b n hr
  rw [readInto]
  rcases readFullLoop_supplies h fuel hr n with ⟨p, e, r', hloop, hend⟩ | ⟨hn, r', hloop, hr'⟩ <;>
    rw [hloop]
  · rcases e with - | - | - | - | text <;> exact .inl ⟨_, _, r', rfl, hend⟩
  · exact .inr ⟨hn, r', rfl, hr'⟩

end NestedReader

end Gzv2ray
