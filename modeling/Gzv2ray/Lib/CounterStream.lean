import Mathlib.Tactic

/-!
# Key streams of blocks

A block generator makes a stream of bytes, block by block, from a state that is advanced between
blocks. Bytes are enciphered by the exclusive or with the bytes of the stream, from some position
on (`BlockGenerator.xorFrom`): what is enciphered does not depend on how it is cut
(`xorFrom_append`), doing it twice does nothing (`xorFrom_xorFrom`), and within one block it is
the exclusive or with a part of the block (`xorFrom_block`).
-/

/-- A generator of blocks of one size. -/
structure BlockGenerator (S : Type*) where
  size : ℕ
  size_pos : 0 < size
  next : S → S
  block : S → List UInt8
  length_block (s : S) : (block s).length = size

namespace BlockGenerator

variable {S : Type*} (g : BlockGenerator S) (s : S)

/-- The state for a block of the stream. -/
def stateAt (k : ℕ) : S := g.next^[k] s

/-- A byte of the stream. -/
def byteAt (i : ℕ) : UInt8 := (g.block (g.stateAt s (i / g.size))).getD (i % g.size) 0

/-- Bytes, with those of the stream from a position on. -/
def xorFrom : ℕ → List UInt8 → List UInt8
  | _, [] => []
  | i, x :: l => (x ^^^ g.byteAt s i) :: xorFrom (i + 1) l

@[simp] theorem length_xorFrom (i : ℕ) (l : List UInt8) : (g.xorFrom s i l).length = l.length := by
  induction l generalizing i with
  | nil => rfl
  | cons x l ih => rw [xorFrom, List.length_cons, ih, List.length_cons]

theorem xorFrom_append (i : ℕ) (l l' : List UInt8) :
    g.xorFrom s i (l ++ l') = g.xorFrom s i l ++ g.xorFrom s (i + l.length) l' := by
  induction l generalizing i with
  | nil => rfl
  | cons x l ih =>
    rw [List.cons_append, xorFrom, ih, xorFrom, List.cons_append, List.length_cons, Nat.add_assoc,
      Nat.add_comm 1]

/-- What is enciphered is deciphered by the same. -/
theorem xorFrom_xorFrom (i : ℕ) (l : List UInt8) : g.xorFrom s i (g.xorFrom s i l) = l := by
  induction l generalizing i with
  | nil => rfl
  | cons x l ih => rw [xorFrom, xorFrom, ih, UInt8.xor_assoc, UInt8.xor_self, UInt8.xor_zero]

theorem getElem?_xorFrom (i : ℕ) (l : List UInt8) (j : ℕ) :
    (g.xorFrom s i l)[j]? = l[j]?.map fun x => x ^^^ g.byteAt s (i + j) := by
  induction l generalizing i j with
  | nil => rfl
  | cons x l ih =>
    rcases j with - | j
    · rfl
    · rw [xorFrom, List.getElem?_cons_succ, List.getElem?_cons_succ, ih, Nat.add_assoc, Nat.add_comm 1]

/-- A byte within a block. -/
theorem byteAt_block {k o : ℕ} (ho : o < g.size) :
    g.byteAt s (k * g.size + o) = (g.block (g.stateAt s k)).getD o 0 := by
  rw [byteAt, Nat.mul_comm, Nat.mul_add_div g.size_pos, Nat.div_eq_of_lt ho, Nat.add_zero,
    Nat.mul_add_mod, Nat.mod_eq_of_lt ho]

/-- Bytes that do not go beyond a block. -/
theorem xorFrom_block {k o : ℕ} {l : List UInt8} (h : o + l.length ≤ g.size) :
    g.xorFrom s (k * g.size + o) l =
      List.zipWith (· ^^^ ·) l ((g.block (g.stateAt s k)).drop o) := by
  induction l generalizing o with
  | nil => rfl
  | cons x l ih =>
    rw [List.length_cons] at h
    have ho : o < (g.block (g.stateAt s k)).length := by
      rw [g.length_block]
      omega
    have hbyte : (g.block (g.stateAt s k)).getD o 0 = (g.block (g.stateAt s k))[o] := by
      rw [List.getD_eq_getElem?_getD, List.getElem?_eq_getElem ho, Option.getD_some]
    rw [xorFrom, Nat.add_assoc, ih (by omega), g.byteAt_block s (by omega), hbyte,
      List.drop_eq_getElem_cons ho, List.zipWith_cons_cons]

/-- The stream goes on with the next state. -/
theorem byteAt_add_size (i : ℕ) : g.byteAt s (i + g.size) = g.byteAt (g.next s) i := by
  rw [byteAt, byteAt, Nat.add_div_right _ g.size_pos, Nat.add_mod_right, stateAt,
    Function.iterate_succ_apply, stateAt]

end BlockGenerator
