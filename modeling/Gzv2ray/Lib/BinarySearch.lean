import Mathlib.Tactic

/-!
# Binary search

The elements that a binary search compares what is wanted with (`probes`): the
middle of a window, and those of the half that is left of it or right of it,
according to whether what is wanted is below.

In a list that is sorted, the last element that what is wanted is not below is
one of them (`mem_probes`).
-/

namespace BinarySearch

variable {α β : Type*}

/-- The elements of the window that are compared with. -/
def probes (isBelow : α → Bool) (l : List α) : ℕ → ℕ → ℕ → List α
  | 0, _, _ => []
  | fuel + 1, lo, hi =>
    if lo < hi then
      match l[(lo + hi) / 2]? with
      | none => []
      | some x =>
        x :: if isBelow x then probes isBelow l fuel lo ((lo + hi) / 2)
          else probes isBelow l fuel ((lo + hi) / 2 + 1) hi
    else []

theorem mem_of_mem_probes {isBelow : α → Bool} {l : List α} {fuel lo hi : ℕ} {x : α}
    (h : x ∈ probes isBelow l fuel lo hi) : x ∈ l := by
  induction fuel generalizing lo hi with
  | zero => exact absurd h List.not_mem_nil
  | succ fuel ih =>
    rw [probes] at h
    split at h
    · cases hget : l[(lo + hi) / 2]? with
      | none =>
        rw [hget] at h
        exact absurd h List.not_mem_nil
      | some y =>
        rw [hget] at h
        rcases List.mem_cons.1 h with rfl | h
        · exact List.mem_of_getElem? hget
        · split at h
          · exact ih h
          · exact ih h
    · exact absurd h List.not_mem_nil

theorem probes_congr {isBelow isBelow' : α → Bool} {l : List α} (h : ∀ x ∈ l, isBelow x = isBelow' x)
    (fuel lo hi : ℕ) : probes isBelow l fuel lo hi = probes isBelow' l fuel lo hi := by
  induction fuel generalizing lo hi with
  | zero => rfl
  | succ fuel ih =>
    rw [probes, probes]
    cases hget : l[(lo + hi) / 2]? with
    | none => rfl
    | some x => simp only [ih, h x (List.mem_of_getElem? hget)]

/-- The search in a list of images. -/
theorem probes_map (f : β → α) (isBelow : α → Bool) (l : List β) (fuel lo hi : ℕ) :
    probes isBelow (l.map f) fuel lo hi = (probes (isBelow ∘ f) l fuel lo hi).map f := by
  induction fuel generalizing lo hi with
  | zero => rfl
  | succ fuel ih =>
    rw [probes, probes, List.getElem?_map]
    split
    · cases l[(lo + hi) / 2]? with
      | none => rfl
      | some y =>
        simp only [Option.map_some, List.map_cons, Function.comp_apply, ih]
        split <;> rfl
    · rfl

/-- An element of a list that is not `p` is followed by a last one that is not. -/
theorem exists_last {p : α → Bool} {l : List α} {j : ℕ} {x : α} (hj : l[j]? = some x)
    (hx : p x = false) : ∃ i y, j ≤ i ∧ l[i]? = some y ∧ p y = false ∧
      ∀ k z, i < k → l[k]? = some z → p z = true := by
  induction hn : l.length - j using Nat.strong_induction_on generalizing j x with
  | h n ih =>
    by_cases hlast : ∀ k z, j < k → l[k]? = some z → p z = true
    · exact ⟨j, x, le_rfl, hj, hx, hlast⟩
    · push Not at hlast
      obtain ⟨k, z, hjk, hk, hz⟩ := hlast
      have hlt := (List.getElem?_eq_some_iff.1 hk).1
      obtain ⟨i, y, hki, hrest⟩ := ih (l.length - k) (by omega) hk (Bool.eq_false_of_not_eq_true hz) rfl
      exact ⟨i, y, hjk.le.trans hki, hrest⟩

/-- The last element that what is wanted is not below is compared with. -/
theorem mem_probes {isBelow : α → Bool} {l : List α} {fuel lo hi i : ℕ} {x : α}
    (hx : l[i]? = some x) (hlo : lo ≤ i) (hhi : i < hi) (hle : hi ≤ l.length) (hfuel : hi - lo ≤ fuel)
    (hleft : ∀ j y, j ≤ i → l[j]? = some y → isBelow y = false)
    (hright : ∀ j y, i < j → l[j]? = some y → isBelow y = true) :
    x ∈ probes isBelow l fuel lo hi := by
  induction fuel generalizing lo hi with
  | zero => omega
  | succ fuel ih =>
    obtain ⟨y, hget⟩ : ∃ y, l[(lo + hi) / 2]? = some y := ⟨_, List.getElem?_eq_getElem (by omega)⟩
    rw [probes, if_pos (hlo.trans_lt hhi), hget]
    rcases lt_trichotomy i ((lo + hi) / 2) with hlt | heq | hgt
    · simp only [hright _ _ hlt hget, if_true]
      exact List.mem_cons_of_mem _ (ih hlo hlt (by omega) (by omega))
    · rw [← heq, hx] at hget
      exact List.mem_cons.2 (.inl (Option.some.inj hget))
    · simp only [hleft _ _ hgt.le hget, Bool.false_eq_true, if_false]
      exact List.mem_cons_of_mem _ (ih hgt hhi hle (by omega))

end BinarySearch
