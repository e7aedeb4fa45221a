import Mathlib.Tactic

/-!
# Rings of numbers

The numbers from `base` on, `size` of them, in a ring: `next` goes from each to the
one after it, and from the last to the first. A walk of `size` steps meets all of
them (`exists_iterate_next`).
-/

namespace Ring

variable {base size p q : ℕ}

/-- The number after `p`. -/
def next (base size p : ℕ) : ℕ := if p + 1 < base + size then p + 1 else base

theorem next_mem (h : p ∈ Set.Ico base (base + size)) :
    next base size p ∈ Set.Ico base (base + size) := by
  rw [Set.mem_Ico] at h ⊢
  rw [next]
  split <;> omega

/-- Where a walk gets to, by the number of its steps. -/
theorem iterate_next (h : p ∈ Set.Ico base (base + size)) (k : ℕ) :
    (next base size)^[k] p = base + (p - base + k) % size := by
  induction k generalizing p with
  | zero =>
    rw [Set.mem_Ico] at h
    rw [Function.iterate_zero, id, Nat.mod_eq_of_lt (by omega)]
    omega
  | succ k ih =>
    rw [Function.iterate_succ_apply, ih (next_mem h)]
    rw [Set.mem_Ico] at h
    rw [next]
    split
    · rw [show p + 1 - base + k = p - base + (k + 1) by omega]
    · rw [show p - base + (k + 1) = base - base + k + size by omega, Nat.add_mod_right]

/-- A walk meets every number before it comes back. -/
theorem exists_iterate_next (hp : p ∈ Set.Ico base (base + size))
    (hq : q ∈ Set.Ico base (base + size)) : ∃ k < size, (next base size)^[k] p = q := by
  rw [Set.mem_Ico] at hq
  have hsize : 0 < size := by omega
  refine ⟨(q - base + size - (p - base)) % size, Nat.mod_lt _ hsize, ?_⟩
  rw [iterate_next hp, Nat.add_mod_mod]
  rw [Set.mem_Ico] at hp
  rw [show p - base + (q - base + size - (p - base)) = q - base + size by omega,
    Nat.add_mod_right, Nat.mod_eq_of_lt (by omega)]
  omega

end Ring
