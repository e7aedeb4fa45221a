import Mathlib.Data.Set.Basic
import Mathlib.Tactic

/-!
# A token

A token that is free, or held by one: a lock, or a semaphore with one permit.
The holders are a set, which the steps of a system change in one place; the
rules tell what becomes of the token when it is acquired, released or passed on.
-/

/-- The token is free, or there is one who holds it. -/
def Token.Held {H : Type*} (free : Bool) (s : Set H) : Prop :=
  if free then s = ∅ else ∃ h, s = {h}

namespace Token.Held

variable {H : Type*} {free : Bool} {s s' : Set H} {x z : H}

/-- The one who holds it. -/
theorem eq_singleton (h : Held free s) (hx : x ∈ s) : free = false ∧ s = {x} := by
  rw [Held] at h
  split_ifs at h with hfree
  · exact absurd (h ▸ hx) (Set.notMem_empty x)
  · obtain ⟨y, rfl⟩ := h
    rw [Set.mem_singleton_iff.1 hx]
    exact ⟨by simpa using hfree, rfl⟩

/-- Two do not hold it. -/
theorem unique (h : Held free s) (hx : x ∈ s) (hz : z ∈ s) : z = x := by
  rwa [(h.eq_singleton hx).2] at hz

/-- Someone holds a token that is not free. -/
theorem exists_mem (h : Held free s) (hfree : free = false) : ∃ x, x ∈ s := by
  rw [Held, if_neg (by simp [hfree])] at h
  obtain ⟨x, rfl⟩ := h
  exact ⟨x, Set.mem_singleton x⟩

/-- No one holds a token that is free. -/
theorem notMem (h : Held free s) (hfree : free = true) : x ∉ s := fun hx =>
  absurd ((h.eq_singleton hx).1.symm.trans hfree) Bool.false_ne_true

theorem congr (h : Held free s) (hs : ∀ y, y ∈ s' ↔ y ∈ s) : Held free s' :=
  Set.ext hs ▸ h

theorem acquire (h : Held free s) (hfree : free = true) (hs : ∀ y, y ∈ s' ↔ y = x ∨ y ∈ s) :
    Held false s' := by
  refine ⟨x, Set.ext fun y => ?_⟩
  rw [hs, or_iff_left (h.notMem hfree), Set.mem_singleton_iff]

theorem release (h : Held free s) (hx : x ∈ s) (hs : ∀ y, y ∈ s' ↔ y ≠ x ∧ y ∈ s) :
    Held true s' := by
  refine Set.eq_empty_iff_forall_notMem.2 fun y hy => ?_
  obtain ⟨hne, hmem⟩ := (hs y).1 hy
  exact hne (h.unique hx hmem)

theorem pass (h : Held free s) (hx : x ∈ s) (hs : ∀ y, y ∈ s' ↔ y = z ∨ y ≠ x ∧ y ∈ s) :
    Held false s' := by
  refine ⟨z, Set.ext fun y => ?_⟩
  rw [hs, or_iff_left fun hy => hy.1 (h.unique hx hy.2), Set.mem_singleton_iff]

end Token.Held
