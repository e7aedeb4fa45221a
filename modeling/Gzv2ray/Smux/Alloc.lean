import Gzv2ray.Buf.Reader

/-!
# The allocator of smux

Buffers for the frames that arrive, by the powers of two from one byte to 64 KiB. A pool of each size
keeps what is put back, and hands out that or a new buffer as it likes.

* `msb_eq`: the position of the most significant bit, found by filling the bits below it and a
  multiplication, is that of the logarithm;
* `get_eq`, `put_eq`: a buffer has the least power of two that it fits in, and is taken back by the
  pool that it was given by;
* `run_panics_iff`: a pool keeps pointers to the buffers put back, and takes them for buffers when
  they are handed out. So a buffer that is asked for after one of its size was put back may panic, and
  nothing else does.
-/

namespace Gzv2ray.Smux

/-! ## The most significant bit -/

def debruijinPos : List UInt8 :=
  [0, 9, 1, 10, 13, 21, 2, 29, 11, 14, 16, 18, 22, 25, 3, 30, 8, 12, 20, 28, 15, 17, 24, 7, 19, 27, 23, 6,
    26, 5, 4, 31]

/-- The bits of a number, and those `k` below them. -/
def smear (k v : UInt32) : UInt32 := v ||| v >>> k

/-- The position of the most significant bit. -/
def msb (size : ℕ) : UInt8 :=
  let v := smear 16 (smear 8 (smear 4 (smear 2 (smear 1 (UInt32.ofNat size)))))
  debruijinPos.getD ((v * 0x07C4ACDD) >>> 27).toNat 0

/-- A bit of `v` is one of the `k` bits of `n` from there on. -/
def Covers (n : ℕ) (k : ℕ) (v : UInt32) : Prop :=
  ∀ i, v.toNat.testBit i = true ↔ ∃ j < k, n.testBit (i + j) = true

theorem covers_one {n : ℕ} (hn : n < 2 ^ 32) : Covers n 1 (UInt32.ofNat n) := by
  intro i
  rw [UInt32.toNat_ofNat_of_lt' hn]
  refine ⟨fun h => ⟨0, Nat.one_pos, h⟩, ?_⟩
  rintro ⟨j, hj, h⟩
  obtain rfl : j = 0 := by omega
  exact h

/-- Each step covers twice as many bits. -/
theorem Covers.smear {n k : ℕ} {v : UInt32} (h : Covers n k v) (hk : k < 32) :
    Covers n (k + k) (smear (UInt32.ofNat k) v) := by
  intro i
  have hshift : (UInt32.ofNat k).toNat % 32 = k := by
    rw [UInt32.toNat_ofNat_of_lt' (hk.trans (by decide)), Nat.mod_eq_of_lt hk]
  rw [Smux.smear, UInt32.toNat_or, UInt32.toNat_shiftRight, hshift, Nat.testBit_or, Nat.testBit_shiftRight,
    Bool.or_eq_true, h i, h (k + i)]
  constructor
  · rintro (⟨j, hj, hbit⟩ | ⟨j, hj, hbit⟩)
    · exact ⟨j, by omega, hbit⟩
    · exact ⟨k + j, by omega, by rwa [← add_assoc, add_comm i k]⟩
  · rintro ⟨j, hj, hbit⟩
    by_cases hjk : j < k
    · exact .inl ⟨j, hjk, hbit⟩
    · refine .inr ⟨j - k, by omega, ?_⟩
      rwa [show k + i + (j - k) = i + j by omega]

/-- Where every bit up to the most significant one is set, there are no others. -/
theorem Covers.eq {n : ℕ} {v : UInt32} (h : Covers n 32 v) (hpos : 0 < n) (hn : n < 2 ^ 32) :
    v = UInt32.ofNat (2 ^ (Nat.log2 n + 1) - 1) := by
  have hlog : Nat.log2 n < 32 := (Nat.log2_lt (by omega)).2 hn
  have hle : 2 ^ (Nat.log2 n + 1) ≤ 2 ^ 32 := Nat.pow_le_pow_right (by decide) hlog
  rw [← UInt32.toNat_inj, UInt32.toNat_ofNat_of_lt' (by rw [UInt32.size]; omega)]
  refine Nat.eq_of_testBit_eq fun i => ?_
  rw [Nat.testBit_two_pow_sub_one, Bool.eq_iff_iff, h i, decide_eq_true_iff]
  constructor
  · rintro ⟨j, hj, hbit⟩
    by_contra hi
    have hlt : n < 2 ^ (i + j) := (Nat.lt_log2_self).trans_le (Nat.pow_le_pow_right (by decide) (by omega))
    rw [Nat.testBit_lt_two_pow hlt] at hbit
    cases hbit
  · intro hi
    refine ⟨Nat.log2 n - i, by omega, ?_⟩
    rw [show i + (Nat.log2 n - i) = Nat.log2 n by omega]
    exact Nat.testBit_log2 (by omega)

/-- The table tells the positions apart. -/
theorem debruijinPos_getD : ∀ k : Fin 32,
    debruijinPos.getD ((UInt32.ofNat (2 ^ (k.val + 1) - 1) * 0x07C4ACDD) >>> 27).toNat 0 = UInt8.ofNat k.val := by
  decide

theorem msb_eq {n : ℕ} (hpos : 0 < n) (hn : n < 2 ^ 32) : (msb n).toNat = Nat.log2 n := by
  have hlog : Nat.log2 n < 32 := (Nat.log2_lt (by omega)).2 hn
  have hcovers := ((((covers_one hn).smear (by decide)).smear (by decide)).smear (by decide)).smear
    (by decide) |>.smear (by decide)
  have hv := hcovers.eq hpos hn
  rw [msb]
  rw [show smear 16 (smear 8 (smear 4 (smear 2 (smear 1 (UInt32.ofNat n))))) = _ from hv,
    debruijinPos_getD ⟨Nat.log2 n, hlog⟩, UInt8.toNat_ofNat_of_lt' (by rw [UInt8.size]; omega)]

/-! ## The pools -/

/-- A buffer: the bytes that are used, and all that there are. -/
structure Slice where
  len : ℕ
  cap : ℕ
  deriving DecidableEq

/-- What is in the pools: pointers to the buffers that were put back. -/
abbrev Allocator := ℕ → List Slice

namespace Allocator

variable (alloc : Allocator)

/-- The pool that a size is taken from. -/
def classOf (size : ℕ) : ℕ := if size = 2 ^ (msb size).toNat then (msb size).toNat else (msb size).toNat + 1

/-- Asks for a buffer. Its pool has it made, or hands out what it keeps; there may be none, and it may be
    that the pool hands out none of those it keeps. What it keeps is not a buffer. -/
def get (size : ℤ) (reuse : Bool) : Option (Outcome (Option Slice) × Allocator) :=
  if size ≤ 0 ∨ 65536 < size then some (.ok none, alloc)
  else
    let k := classOf size.toNat
    match reuse, alloc k with
    | false, _ => some (.ok (some { len := size.toNat, cap := 2 ^ k }), alloc)
    | true, [] => none
    | true, _ :: pool => some (.panic, Function.update alloc k pool)

/-- Puts a buffer back, if it is of a size that there are pools of. -/
def put (buf : Slice) : Option Allocator :=
  let bits := (msb buf.cap).toNat
  if buf.cap = 0 ∨ 65536 < buf.cap ∨ buf.cap ≠ 2 ^ bits then none
  else some (Function.update alloc bits (buf :: alloc bits))

/-- What is asked of the allocator. -/
inductive Request
  | get (size : ℤ)
  | put (buf : Slice)

/-- What is done, the pool using a buffer again or not, and whether that panics. A buffer that is
    refused is dropped. -/
def step (reuse : Bool) : Request → Option (Bool × Allocator)
  | .get size => (alloc.get size reuse).map fun (r, alloc) => (r == .panic, alloc)
  | .put buf => some (false, (alloc.put buf).getD alloc)

/-- A run panics at the last of its requests, or not at all. -/
def run (alloc : Allocator) : List (Request × Bool) → Option (Bool × Allocator)
  | [] => some (false, alloc)
  | (r, reuse) :: l =>
    match alloc.step reuse r with
    | some (false, alloc) => alloc.run l
    | res => res

variable {alloc}

/-- The pool that a size is taken from is that of the least power of two. -/
theorem classOf_eq {size : ℕ} (hpos : 0 < size) (hle : size ≤ 65536) : classOf size = Nat.clog 2 size := by
  have hmsb : (msb size).toNat = Nat.log2 size := msb_eq hpos (by omega)
  have hlog := Nat.log2_self_le (Nat.pos_iff_ne_zero.1 hpos)
  rw [classOf, hmsb]
  split_ifs with hpow
  · conv_rhs => rw [hpow]
    exact (Nat.clog_pow 2 _ (by decide)).symm
  · refine le_antisymm ?_ (Nat.clog_le_of_le_pow Nat.lt_log2_self.le)
    exact (Nat.lt_clog_iff_pow_lt (by decide)).2 (lt_of_le_of_ne hlog (Ne.symm hpow))

/-- A buffer that is made has the length asked for, and is the least one that has it. -/
theorem get_eq {size : ℤ} (hpos : 0 < size) (hle : size ≤ 65536) :
    alloc.get size false = some (.ok (some { len := size.toNat, cap := 2 ^ Nat.clog 2 size.toNat }), alloc) := by
  rw [get, if_neg (by omega)]
  dsimp only
  rw [classOf_eq (by omega) (by omega)]

/-- What is used again is not a buffer. -/
theorem get_reuse {size : ℤ} (hpos : 0 < size) (hle : size ≤ 65536) {buf : Slice} {pool : List Slice}
    (hpool : alloc (Nat.clog 2 size.toNat) = buf :: pool) :
    alloc.get size true = some (.panic, Function.update alloc (Nat.clog 2 size.toNat) pool) := by
  rw [get, if_neg (by omega)]
  dsimp only
  rw [classOf_eq (by omega) (by omega), hpool]

/-- What is taken back is as large as what is given. -/
theorem put_eq {buf : Slice} : alloc.put buf =
    if buf.cap ≠ 0 ∧ buf.cap ≤ 65536 ∧ buf.cap = 2 ^ Nat.log2 buf.cap then
      some (Function.update alloc (Nat.log2 buf.cap) (buf :: alloc (Nat.log2 buf.cap)))
    else none := by
  rw [put]
  by_cases hzero : buf.cap = 0
  · rw [if_pos (.inl hzero), if_neg fun h => h.1 hzero]
  by_cases hlarge : 65536 < buf.cap
  · rw [if_pos (.inr (.inl hlarge)), if_neg fun h => absurd h.2.1 (Nat.not_le.2 hlarge)]
  rw [msb_eq (Nat.pos_of_ne_zero hzero) (by omega)]
  by_cases hpow : buf.cap = 2 ^ Nat.log2 buf.cap
  · rw [if_neg (by tauto), if_pos ⟨hzero, by omega, hpow⟩]
  · rw [if_pos (.inr (.inr hpow)), if_neg fun h => hpow h.2.2]

theorem stocked_put {k : ℕ} {buf : Slice} (hk : k ≤ 16) :
    (alloc.put buf).getD alloc k ≠ [] ↔ alloc k ≠ [] ∨ buf.cap = 2 ^ k := by
  have hpow : 2 ^ k ≤ 65536 := Nat.pow_le_pow_right (by decide) hk
  rw [put_eq]
  by_cases hcap : buf.cap = 2 ^ k
  · rw [hcap, Nat.log2_two_pow, if_pos ⟨(Nat.two_pow_pos k).ne', hpow, rfl⟩, Option.getD_some,
      Function.update_self]
    exact iff_of_true (List.cons_ne_nil _ _) (.inr rfl)
  · rw [or_iff_left hcap]
    split_ifs with hput
    · rw [Option.getD_some, Function.update_of_ne fun h => hcap (hput.2.2.trans (by rw [← h]))]
    · rfl

theorem step_get_false (size : ℤ) : alloc.step false (.get size) = some (false, alloc) := by
  rw [step, get]
  split_ifs <;> rfl

/-- A get that uses a buffer again panics, if there is any of its pool. -/
theorem step_get_true {size : ℤ} {b : Bool} {alloc' : Allocator}
    (h : alloc.step true (.get size) = some (b, alloc')) :
    b = false ∧ alloc' = alloc ∨
      b = true ∧ 0 < size ∧ size ≤ 65536 ∧ alloc (Nat.clog 2 size.toNat) ≠ [] := by
  rw [step] at h
  by_cases hsize : size ≤ 0 ∨ 65536 < size
  · rw [get, if_pos hsize] at h
    cases h
    exact .inl ⟨rfl, rfl⟩
  · rw [not_or, not_le, not_lt] at hsize
    cases hpool : alloc (Nat.clog 2 size.toNat) with
    | nil =>
      rw [get, if_neg (by omega)] at h
      dsimp only at h
      rw [classOf_eq (by omega) (by omega), hpool] at h
      cases h
    | cons buf pool =>
      rw [get_reuse hsize.1 hsize.2 hpool] at h
      cases h
      exact .inr ⟨rfl, hsize.1, hsize.2, List.cons_ne_nil _ _⟩

theorem clog_le {size : ℤ} (hle : size ≤ 65536) : Nat.clog 2 size.toNat ≤ 16 :=
  Nat.clog_le_of_le_pow (by omega)

/-- A get of a size of which something is in its pool, or is put there before. -/
def Reused (alloc : Allocator) (l : List Request) : Prop :=
  ∃ l₁ l₂ size, l = l₁ ++ .get size :: l₂ ∧ 0 < size ∧ size ≤ 65536 ∧
    (alloc (Nat.clog 2 size.toNat) ≠ [] ∨ ∃ buf, .put buf ∈ l₁ ∧ buf.cap = 2 ^ Nat.clog 2 size.toNat)

theorem Reused.cons_get {l : List Request} (h : Reused alloc l) (size : ℤ) : Reused alloc (.get size :: l) := by
  obtain ⟨l₁, l₂, size', rfl, hpos, hle, hstock⟩ := h
  refine ⟨.get size :: l₁, l₂, size', rfl, hpos, hle, hstock.imp_right ?_⟩
  rintro ⟨buf, hmem, hcap⟩
  exact ⟨buf, List.mem_cons_of_mem _ hmem, hcap⟩

theorem reused_of_run {l : List (Request × Bool)} {alloc alloc' : Allocator}
    (h : alloc.run l = some (true, alloc')) : Reused alloc (l.map Prod.fst) := by
  induction l generalizing alloc with
  | nil => cases h
  | cons e l ih =>
    obtain ⟨r, reuse⟩ := e
    rw [run] at h
    cases r with
    | get size =>
      cases reuse with
      | false =>
        rw [step_get_false] at h
        exact (ih h).cons_get size
      | true =>
        cases hstep : alloc.step true (.get size) with
        | none =>
          rw [hstep] at h
          cases h
        | some res =>
          obtain ⟨b, alloc''⟩ := res
          rcases step_get_true hstep with ⟨rfl, rfl⟩ | ⟨rfl, hpos, hle, hstock⟩
          · rw [hstep] at h
            exact (ih h).cons_get size
          · exact ⟨[], l.map Prod.fst, size, rfl, hpos, hle, .inl hstock⟩
    | put buf =>
      obtain ⟨l₁, l₂, size, hl, hpos, hle, hstock⟩ := ih h
      refine ⟨.put buf :: l₁, l₂, size, by rw [List.map_cons, hl]; rfl, hpos, hle, ?_⟩
      rcases hstock with hstock | ⟨buf', hmem, hcap⟩
      · refine ((stocked_put (clog_le hle)).1 hstock).imp_right fun hcap => ?_
        exact ⟨buf, List.mem_cons_self, hcap⟩
      · exact .inr ⟨buf', List.mem_cons_of_mem _ hmem, hcap⟩

/-- All that is needed is that the pool hands it out. -/
theorem run_of_stocked {l₁ l₂ : List Request} {size : ℤ} {alloc : Allocator} (hpos : 0 < size)
    (hle : size ≤ 65536) (hstock : alloc (Nat.clog 2 size.toNat) ≠ [] ∨
      ∃ buf, .put buf ∈ l₁ ∧ buf.cap = 2 ^ Nat.clog 2 size.toNat) :
    ∃ alloc', alloc.run ((l₁.map (·, false)) ++ (.get size, true) :: l₂.map (·, false)) = some (true, alloc') := by
  induction l₁ generalizing alloc with
  | nil =>
    rcases hstock with hstock | ⟨buf, hmem, -⟩
    · obtain ⟨buf, pool, hpool⟩ := List.exists_cons_of_ne_nil hstock
      refine ⟨Function.update alloc (Nat.clog 2 size.toNat) pool, ?_⟩
      rw [List.map_nil, List.nil_append, run, step, get_reuse hpos hle hpool]
      rfl
    · cases hmem
  | cons r l₁ ih =>
    rw [List.map_cons, List.cons_append, run]
    cases r with
    | get size' =>
      rw [step_get_false]
      refine ih (hstock.imp_right ?_)
      rintro ⟨buf, hmem, hcap⟩
      exact ⟨buf, by simpa using hmem, hcap⟩
    | put buf =>
      refine ih ?_
      rw [stocked_put (clog_le hle)]
      rcases hstock with hstock | ⟨buf', hmem, hcap⟩
      · exact .inl (.inl hstock)
      · rcases List.mem_cons.1 hmem with hmem | hmem
        · cases hmem
          exact .inl (.inr hcap)
        · exact .inr ⟨buf', hmem, hcap⟩

/-- Requests can panic, as the pools have it, if and only if a buffer is asked for after one of its
    size was put back. Otherwise every buffer given is the least one that has the length. -/
theorem run_panics_iff (l : List Request) :
    (∃ l' alloc, l'.map Prod.fst = l ∧ run (fun _ => []) l' = some (true, alloc)) ↔
      ∃ l₁ l₂ size buf, l = l₁ ++ .get size :: l₂ ∧ 0 < size ∧ size ≤ 65536 ∧ .put buf ∈ l₁ ∧
        buf.cap = 2 ^ Nat.clog 2 size.toNat := by
  constructor
  · rintro ⟨l', alloc, rfl, h⟩
    obtain ⟨l₁, l₂, size, hl, hpos, hle, hstock | ⟨buf, hmem, hcap⟩⟩ := reused_of_run h
    · exact absurd rfl hstock
    · exact ⟨l₁, l₂, size, buf, hl, hpos, hle, hmem, hcap⟩
  · rintro ⟨l₁, l₂, size, buf, rfl, hpos, hle, hmem, hcap⟩
    obtain ⟨alloc, h⟩ := @run_of_stocked l₁ l₂ size _ hpos hle (.inr ⟨buf, hmem, hcap⟩)
    refine ⟨_, alloc, ?_, h⟩
    rw [List.map_append, List.map_cons, List.map_map, List.map_map]
    exact congrArg₂ _ (List.map_id _) (congrArg _ (List.map_id _))

end Allocator

end Gzv2ray.Smux
