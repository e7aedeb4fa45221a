import Mathlib.Tactic

/-!
# Registries

A table with one slot for each key. It is a registry of some members if each of them
is in the slot of its key (`IsRegistry`): then no two of them have the same key
(`IsRegistry.injOn`).

* `IsRegistry.insert`: a new member takes the slot of a key that no member has;
* `IsRegistry.update_none_iff`: a slot is cleared harmlessly if no member is in it.
-/

variable {K ι : Type*}

/-- Each member is in the slot of its key, and no slot holds what has another key. -/
structure IsRegistry (slot : K → Option ι) (key : ι → K) (members : Set ι) : Prop where
  key_eq : ∀ k i, slot k = some i → key i = k
  slot_eq : ∀ i ∈ members, slot (key i) = some i

namespace IsRegistry

variable {slot : K → Option ι} {key : ι → K} {members members' : Set ι} {k : K} {i : ι}

/-- No two members have the same key. -/
theorem injOn (h : IsRegistry slot key members) : Set.InjOn key members := by
  intro i hi j hj heq
  have hslot := h.slot_eq i hi
  rw [heq, h.slot_eq j hj, Option.some.injEq] at hslot
  exact hslot.symm

/-- A registry of some members is one of fewer. -/
theorem mono (h : IsRegistry slot key members) (hsub : members' ⊆ members) :
    IsRegistry slot key members' :=
  ⟨h.key_eq, fun i hi => h.slot_eq i (hsub hi)⟩

/-- A member is in a slot if and only if it has the key. -/
theorem key_eq_iff (h : IsRegistry slot key members) (hi : i ∈ members) :
    key i = k ↔ slot k = some i :=
  ⟨fun heq => heq ▸ h.slot_eq i hi, h.key_eq k i⟩

variable [DecidableEq K]

/-- Something new is put in the slot of a key that no member has. -/
theorem insert [DecidableEq ι] (h : IsRegistry slot key members) (hnew : ∀ k, slot k ≠ some i)
    (hfree : ∀ j ∈ members, slot k ≠ some j) :
    IsRegistry (Function.update slot k (some i)) (Function.update key i k) (insert i members) := by
  constructor
  · intro k' j hj
    by_cases hk : k' = k
    · rw [hk, Function.update_self, Option.some.injEq] at hj
      rw [← hj, Function.update_self, hk]
    · rw [Function.update_of_ne hk] at hj
      have hji : j ≠ i := by
        rintro rfl
        exact hnew k' hj
      rw [Function.update_of_ne hji]
      exact h.key_eq k' j hj
  · intro j hj
    by_cases hji : j = i
    · rw [hji, Function.update_self, Function.update_self]
    · have hmem := Set.mem_of_mem_insert_of_ne hj hji
      rw [Function.update_of_ne hji,
        Function.update_of_ne fun hk => hfree j hmem ((h.key_eq_iff hmem).1 hk)]
      exact h.slot_eq j hmem

/-- A slot is cleared harmlessly if and only if no member is in it. -/
theorem update_none_iff (h : IsRegistry slot key members) :
    IsRegistry (Function.update slot k none) key members ↔ ∀ j ∈ members, slot k ≠ some j := by
  constructor
  · intro hcleared j hj hslot
    have hnone := hcleared.slot_eq j hj
    rw [h.key_eq k j hslot, Function.update_self] at hnone
    cases hnone
  · intro hfree
    constructor
    · intro k' j hj
      by_cases hk : k' = k
      · rw [hk, Function.update_self] at hj
        cases hj
      · rw [Function.update_of_ne hk] at hj
        exact h.key_eq k' j hj
    · intro j hj
      rw [Function.update_of_ne fun hk => hfree j hj ((h.key_eq_iff hj).1 hk)]
      exact h.slot_eq j hj

end IsRegistry
