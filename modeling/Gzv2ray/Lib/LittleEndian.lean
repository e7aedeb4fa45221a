import Mathlib.Tactic

/-!
# Little-endian numbers

Numbers as bytes, least significant byte first: `littleEndian k v` is the number `v` on `k`
bytes, modulo `2 ^ (8 * k)`, and `ofLittleEndian` reads it back (`ofLittleEndian_littleEndian`).

As many numbers in a row as there are are all different on `k` bytes (`nodup_littleEndian_iff`).
-/

/-- The number `v` on `k` bytes. -/
def littleEndian : ℕ → ℕ → List UInt8
  | 0, _ => []
  | k + 1, v => UInt8.ofNat (v % 256) :: littleEndian k (v / 256)

/-- The number that bytes stand for. -/
def ofLittleEndian : List UInt8 → ℕ
  | [] => 0
  | b :: l => b.toNat + 256 * ofLittleEndian l

@[simp] theorem length_littleEndian (k v : ℕ) : (littleEndian k v).length = k := by
  induction k generalizing v with
  | zero => rfl
  | succ k ih => rw [littleEndian, List.length_cons, ih]

theorem two_pow_eight_mul_succ (k : ℕ) : 2 ^ (8 * (k + 1)) = 256 * 2 ^ (8 * k) := by
  rw [Nat.mul_succ, pow_add, mul_comm]
  rfl

/-- A number is read back, as far as the bytes go. -/
theorem ofLittleEndian_littleEndian (k v : ℕ) :
    ofLittleEndian (littleEndian k v) = v % 2 ^ (8 * k) := by
  induction k generalizing v with
  | zero => exact (Nat.mod_one v).symm
  | succ k ih =>
    rw [littleEndian, ofLittleEndian, ih, UInt8.toNat_ofNat_of_lt' (Nat.mod_lt _ (by decide)),
      two_pow_eight_mul_succ, Nat.mod_mul]

theorem ofLittleEndian_lt (l : List UInt8) : ofLittleEndian l < 256 ^ l.length := by
  induction l with
  | nil => exact Nat.one_pos
  | cons b l ih =>
    have hb := b.toNat_lt
    rw [ofLittleEndian, List.length_cons, pow_succ]
    omega

/-- The number read from `k` bytes, on `k` bytes, is these bytes. -/
theorem littleEndian_ofLittleEndian (l : List UInt8) :
    littleEndian l.length (ofLittleEndian l) = l := by
  induction l with
  | nil => rfl
  | cons b l ih =>
    have hb := b.toNat_lt
    have hmod : (b.toNat + 256 * ofLittleEndian l) % 256 = b.toNat := by omega
    have hdiv : (b.toNat + 256 * ofLittleEndian l) / 256 = ofLittleEndian l := by omega
    rw [List.length_cons, ofLittleEndian, littleEndian, hmod, hdiv, ih, UInt8.ofNat_toNat]

/-- Numbers are the same on `k` bytes where they are modulo `2 ^ (8 * k)`. -/
theorem littleEndian_eq_iff (k v w : ℕ) :
    littleEndian k v = littleEndian k w ↔ v % 2 ^ (8 * k) = w % 2 ^ (8 * k) := by
  constructor
  · intro h
    rw [← ofLittleEndian_littleEndian, h, ofLittleEndian_littleEndian]
  · intro h
    rw [← ofLittleEndian_littleEndian, ← ofLittleEndian_littleEndian] at h
    have hv := littleEndian_ofLittleEndian (littleEndian k v)
    have hw := littleEndian_ofLittleEndian (littleEndian k w)
    rw [length_littleEndian] at hv hw
    rw [← hv, h, hw]

theorem littleEndian_mod (k v : ℕ) : littleEndian k (v % 2 ^ (8 * k)) = littleEndian k v :=
  (littleEndian_eq_iff k _ _).2 (Nat.mod_mod _ _)

/-- Numbers in a row are all different on `k` bytes, up to as many as there are. -/
theorem nodup_littleEndian_iff (k v n : ℕ) :
    ((List.range n).map fun i => littleEndian k (v + i)).Nodup ↔ n ≤ 2 ^ (8 * k) := by
  constructor
  · intro h
    by_contra hn
    have hpos : 0 < 2 ^ (8 * k) := Nat.two_pow_pos _
    -- the first of the numbers has come back
    have hback := List.inj_on_of_nodup_map h (List.mem_range.2 (by omega : 0 < n))
      (List.mem_range.2 (by omega : 2 ^ (8 * k) < n))
      ((littleEndian_eq_iff k _ _).2 (Nat.add_mod_right v _).symm)
    omega
  · intro hn
    refine List.Nodup.map_on (fun i hi j hj heq => ?_) List.nodup_range
    have hij : v + i ≡ v + j [MOD 2 ^ (8 * k)] := (littleEndian_eq_iff k _ _).1 heq
    rw [List.mem_range] at hi hj
    exact (Nat.ModEq.add_left_cancel' v hij).eq_of_lt_of_lt (by omega) (by omega)
