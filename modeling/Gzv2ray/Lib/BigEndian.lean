import Mathlib.Tactic

/-!
# Big-endian numbers

Fixed-width numbers as bytes, most significant byte first: `bigEndian k v` is
the number `v` on `k` bytes, `ofBigEndian` reads it back (`ofBigEndian_bigEndian`).
-/

/-- The number `v` on `k` bytes. -/
def bigEndian : ℕ → ℕ → List UInt8
  | 0, _ => []
  | k + 1, v => bigEndian k (v / 256) ++ [UInt8.ofNat (v % 256)]

/-- The number that bytes stand for. -/
def ofBigEndian (l : List UInt8) : ℕ := l.foldl (fun n b => 256 * n + b.toNat) 0

@[simp] theorem length_bigEndian (k v : ℕ) : (bigEndian k v).length = k := by
  induction k generalizing v with
  | zero => rfl
  | succ k ih => simp [bigEndian, ih]

@[simp] theorem ofBigEndian_nil : ofBigEndian [] = 0 := rfl

theorem ofBigEndian_concat (l : List UInt8) (b : UInt8) :
    ofBigEndian (l ++ [b]) = 256 * ofBigEndian l + b.toNat := by
  rw [ofBigEndian, List.foldl_append]
  rfl

/-- A number on enough bytes is read back. -/
theorem ofBigEndian_bigEndian {k v : ℕ} (h : v < 256 ^ k) : ofBigEndian (bigEndian k v) = v := by
  induction k generalizing v with
  | zero => simp only [pow_zero, Nat.lt_one_iff] at h; rw [h]; rfl
  | succ k ih =>
    have hdiv : v / 256 < 256 ^ k := Nat.div_lt_of_lt_mul (by rwa [pow_succ, mul_comm] at h)
    rw [bigEndian, ofBigEndian_concat, ih hdiv, UInt8.toNat_ofNat_of_lt' (Nat.mod_lt _ (by decide))]
    exact Nat.div_add_mod v 256

theorem ofBigEndian_lt (l : List UInt8) : ofBigEndian l < 256 ^ l.length := by
  induction l using List.reverseRecOn with
  | nil => decide
  | append_singleton l b ih =>
    have hb := b.toNat_lt
    rw [ofBigEndian_concat, List.length_append, List.length_singleton, pow_succ]
    omega

/-- The number read from `k` bytes, on `k` bytes, is these bytes. -/
theorem bigEndian_ofBigEndian (l : List UInt8) : bigEndian l.length (ofBigEndian l) = l := by
  induction l using List.reverseRecOn with
  | nil => rfl
  | append_singleton l b ih =>
    have hb := b.toNat_lt
    rw [ofBigEndian_concat, List.length_append, List.length_singleton, bigEndian]
    rw [show (256 * ofBigEndian l + b.toNat) / 256 = ofBigEndian l by omega, ih,
      show (256 * ofBigEndian l + b.toNat) % 256 = b.toNat by omega, UInt8.ofNat_toNat]

theorem ofBigEndian_append (l l' : List UInt8) :
    ofBigEndian (l ++ l') = ofBigEndian l * 256 ^ l'.length + ofBigEndian l' := by
  induction l' using List.reverseRecOn with
  | nil => simp
  | append_singleton l' b ih =>
    rw [← List.append_assoc, ofBigEndian_concat, ofBigEndian_concat, ih, List.length_append,
      List.length_singleton, pow_succ]
    ring

theorem ofBigEndian_cons (x : UInt8) (l : List UInt8) :
    ofBigEndian (x :: l) = x.toNat * 256 ^ l.length + ofBigEndian l := by
  rw [← List.singleton_append, ofBigEndian_append, ← List.nil_append [x], ofBigEndian_concat,
    ofBigEndian_nil, Nat.mul_zero, zero_add]
