import Mathlib.Tactic

/-!
# Taking turns

The entries of a list visited in turn, from any of them on and round the list again and again.
In whole rounds all entries are visited equally often (`count_visits_mul`); in any number of
visits, none is one round ahead of another (`count_visits_bounds`).
-/

namespace RoundRobin

variable {α : Type*}

/-- The first `k` visits, from the entry `a` on. -/
def visits (l : List α) (a k : ℕ) : List α := (List.range k).filterMap fun i => l[(a + i) % l.length]?

variable {l : List α} {a k : ℕ}

@[simp] theorem visits_zero (l : List α) (a : ℕ) : visits l a 0 = [] := rfl

/-- One more visit. -/
theorem visits_succ (l : List α) (a k : ℕ) :
    visits l a (k + 1) = visits l a k ++ (l[(a + k) % l.length]?).toList := by
  rw [visits, List.range_succ, List.filterMap_append]
  cases h : l[(a + k) % l.length]? <;> simp [visits, h]

theorem visits_add (l : List α) (a j k : ℕ) :
    visits l a (j + k) = visits l a j ++ visits l (a + j) k := by
  induction k with
  | zero => rw [add_zero, visits_zero, List.append_nil]
  | succ k ih => rw [← add_assoc, visits_succ, ih, visits_succ, List.append_assoc, add_assoc]

theorem length_visits (hl : l ≠ []) (a k : ℕ) : (visits l a k).length = k := by
  induction k with
  | zero => rfl
  | succ k ih =>
    have hlt : (a + k) % l.length < l.length := Nat.mod_lt _ (List.length_pos_iff.2 hl)
    rw [visits_succ, List.length_append, ih, List.getElem?_eq_getElem hlt, Option.toList_some,
      List.length_singleton]

/-- A whole round is a rotation of the list. -/
theorem visits_length (hl : l ≠ []) (a : ℕ) : visits l a l.length = l.rotate a := by
  have hpos : 0 < l.length := List.length_pos_iff.2 hl
  have hget (i : ℕ) : l[(a + i) % l.length]? = some (l.get ⟨(a + i) % l.length, Nat.mod_lt _ hpos⟩) :=
    List.getElem?_eq_getElem _
  have hmap : visits l a l.length =
      (List.range l.length).map fun i => l.get ⟨(a + i) % l.length, Nat.mod_lt _ hpos⟩ := by
    rw [visits, ← List.filterMap_eq_map]
    exact List.filterMap_congr fun i _ => hget i
  rw [hmap]
  refine List.ext_getElem (by rw [List.length_map, List.length_range, List.length_rotate]) ?_
  intro i hi hi'
  rw [List.getElem_map, List.getElem_range, List.getElem_rotate, List.get_eq_getElem]
  congr 1
  rw [add_comm]

section

variable [DecidableEq α]

/-- In whole rounds, all entries are visited as often as there are rounds. -/
theorem count_visits_mul (hl : l ≠ []) (a m : ℕ) (x : α) :
    (visits l a (m * l.length)).count x = m * l.count x := by
  induction m with
  | zero => rw [zero_mul, zero_mul, visits_zero, List.count_nil]
  | succ m ih =>
    rw [add_mul, one_mul, visits_add, List.count_append, ih, visits_length hl,
      (List.rotate_perm l _).count_eq, add_mul, one_mul]

theorem count_visits_mono (l : List α) (a : ℕ) (x : α) {j k : ℕ} (h : j ≤ k) :
    (visits l a j).count x ≤ (visits l a k).count x := by
  obtain ⟨i, rfl⟩ := Nat.exists_eq_add_of_le h
  rw [visits_add, List.count_append]
  exact Nat.le_add_right _ _

/-- In any number of visits, all entries are visited in every whole round, and at most once
    after that. -/
theorem count_visits_bounds (hl : l ≠ []) (a k : ℕ) (x : α) :
    k / l.length * l.count x ≤ (visits l a k).count x ∧
      (visits l a k).count x ≤ (k / l.length + 1) * l.count x := by
  have hpos : 0 < l.length := List.length_pos_iff.2 hl
  rw [← count_visits_mul hl a, ← count_visits_mul hl a]
  refine ⟨count_visits_mono l a x (Nat.div_mul_le_self k _), count_visits_mono l a x ?_⟩
  rw [add_mul, one_mul, mul_comm]
  exact (Nat.lt_mul_div_succ k hpos).le

end

end RoundRobin
