import Gzv2ray.Buf.Reading

/-!
# Draining a connection

A server that rejects a connection reads on before it closes it, so that what it
took does not tell how much of it was parsed. How many bytes it takes is drawn
from two dice, one of which is seeded by the secrets of the server.

* `Dice.drainBehavior`: the numbers drawn;
* `drainConnN`: reads as many bytes, and discards them (`drainConnN_bytes`);
* `Consumes.drain`: what is taken in all.
-/

namespace Gzv2ray

/-! ## Dice -/

/-- The generators of random numbers: that of a seed, at each of its calls, and the global one. -/
structure Dice where
  seeded : (seed : ℤ) → (call n : ℕ) → ℕ
  intn : (n : ℕ) → ℕ
  seeded_lt : ∀ seed call n, 0 < n → seeded seed call n < n
  intn_lt : ∀ n, 0 < n → intn n < n

/-- What was drawn for a connection. -/
structure DrainBehavior where
  baseDrainSize : ℕ
  randDrainMax : ℕ
  randDrainRolled : ℕ

namespace Dice

variable (d : Dice)

/-- `Roll` of the dice of a seed. -/
def rollSeeded (seed : ℤ) (call n : ℕ) : ℕ := if n = 1 then 0 else d.seeded seed call n

/-- `Roll` of the global dice. -/
def roll (n : ℕ) : ℕ := if n = 1 then 0 else d.intn n

def drainBehavior (seed : ℤ) : DrainBehavior where
  baseDrainSize := d.rollSeeded seed 0 3266
  randDrainMax := d.rollSeeded seed 1 64 + 1
  randDrainRolled := d.roll (d.rollSeeded seed 1 64 + 1)

end Dice

/-- `DrainSize`: how many bytes are to be taken from the connection. -/
def DrainBehavior.drainSize (b : DrainBehavior) : ℕ :=
  b.baseDrainSize + 16 + 38 + b.randDrainRolled

theorem DrainBehavior.le_drainSize (b : DrainBehavior) : 54 ≤ b.drainSize := by
  rw [drainSize]
  omega

/-- So many bytes are taken from a connection. -/
def Consumes (r : BufferedReader) (n : ℕ) (r' : BufferedReader) : Prop :=
  n + r'.bytes.length = r.bytes.length

theorem Consumes.trans {r r' r'' : BufferedReader} {n n' : ℕ} (h : Consumes r n r')
    (h' : Consumes r' n' r'') : Consumes r (n + n') r'' := by
  rw [Consumes] at *
  omega

/-- Of two connections not the same is taken. -/
theorem Consumes.not_same {r r' left left' : BufferedReader} (m n : ℕ) (hne : m ≠ n)
    (h : Consumes r m left) (h' : Consumes r' n left') :
    ¬ ∃ k, Consumes r k left ∧ Consumes r' k left' := by
  rintro ⟨k, hk, hk'⟩
  rw [Consumes] at *
  omega

theorem readInto_consumes (r : BufferedReader) (n : ℕ) :
    Consumes r (r.readInto n).1.length (r.readInto n).2.2 := by
  rw [Consumes, ← List.length_append, ← (BufferedReader.readInto_isLawful r n).1]

/-! ## Reading on -/

/-- The loop of `io.CopyN` to `ioutil.Discard`, which takes up to 8192 bytes at a time. -/
def discardLoop : ℕ → BufferedReader → ℕ → Option Error × BufferedReader
  | 0, r, _ => (none, r)
  | fuel + 1, r, n =>
    if n = 0 then (none, r)
    else
      match r.read (min n 8192) with
      | (.ok out, r) => discardLoop fuel r (n - out.length)
      | (.error e, r) => (some e, r)

/-- `DrainConnN`. An iteration takes a byte or uses a segment up, which bounds their number. -/
def drainConnN (r : BufferedReader) (n : ℤ) : Option Error × BufferedReader :=
  discardLoop (r.reader.segments.length + n.toNat + 1) r n.toNat

theorem discardLoop_spec (fuel : ℕ) (r : BufferedReader) (n : ℕ)
    (hfuel : r.reader.segments.length + n + 1 ≤ fuel) :
    ∃ r', r'.bytes = r.bytes.drop n ∧
      discardLoop fuel r n = (if n ≤ r.bytes.length then none else some r.reader.err, r') := by
  induction fuel generalizing r n with
  | zero => exact absurd hfuel (Nat.not_succ_le_zero _)
  | succ fuel ih =>
    rw [discardLoop]
    rcases Nat.eq_zero_or_pos n with rfl | hn
    · exact ⟨r, rfl, by simp⟩
    rw [if_neg hn.ne']
    rcases r.read_cases (min n 8192) with
      ⟨out, r', hr, hbytes, hlen, herr, hsegs, hshort⟩ | ⟨hr, hbytes, -⟩
    · have hless := r.read_less (by omega) hr
      rw [← hbytes, List.length_append] at hless
      have hle : out.length ≤ n := hlen.trans (min_le_left _ _)
      obtain ⟨r'', hbytes', hloop⟩ := ih r' (n - out.length) (by omega)
      refine ⟨r'', ?_, ?_⟩
      · rw [hbytes', ← hbytes, List.drop_append, List.drop_of_length_le (hlen.trans (min_le_left _ _)),
          List.nil_append]
      · rw [hr]
        dsimp only
        rw [hloop, ← hbytes, List.length_append, herr]
        congr 2
        exact propext (by omega)
    · rw [hr, hbytes]
      exact ⟨r, by simp [hbytes], by simp [hn.ne']⟩

/-- What is drained is taken from the connection, as far as there is any. -/
theorem drainConnN_bytes (r : BufferedReader) (n : ℤ) :
    (drainConnN r n).2.bytes = r.bytes.drop n.toNat := by
  obtain ⟨r', hbytes, hloop⟩ := discardLoop_spec _ r n.toNat le_rfl
  rw [drainConnN, hloop]
  exact hbytes

/-- After some bytes, the rest of a size is drained: in all, the size or what was taken before is
    taken, whichever is more. There may also be nothing left to be drained. -/
theorem Consumes.drain {r r₁ r' : BufferedReader} {n size : ℕ} {remain : ℤ} (h : Consumes r n r₁)
    (hlong : size ≤ r.bytes.length) (hr' : r'.bytes = r₁.bytes.drop remain.toNat)
    (hremain : remain = size - n ∨ r₁.bytes = []) : Consumes r (max size n) r' := by
  rw [Consumes] at h ⊢
  rw [hr', List.length_drop]
  rcases hremain with rfl | hnil
  · omega
  · rw [hnil, List.length_nil] at h ⊢
    omega

end Gzv2ray
