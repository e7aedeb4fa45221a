import Mathlib.Order.Basic
import Mathlib.Tactic

/-!
# Running minimum

A scan of a list for the least value of its elements, of those that are kept and whose
values are below a bound. It finds the first of the elements with the least value
(`runningMin_cases`), and there is one such element only (`IsFirstLeast.unique`).
-/

variable {α β : Type*} [LinearOrder β]

/-- The place of the first element with the least value, and this value. -/
def runningMin (keep : α → Bool) (f : α → β) : List α → ℕ → Option ℕ × β → Option ℕ × β
  | [], _, least => least
  | a :: l, i, least =>
    runningMin keep f l (i + 1) (if keep a && f a < least.2 then (some i, f a) else least)

/-- The first of the elements with the least value, of those that are kept. -/
structure IsFirstLeast (keep : α → Bool) (f : α → β) (l : List α) (i : ℕ) (a : α) : Prop where
  getElem? : l[i]? = some a
  kept : keep a = true
  le : ∀ (j : ℕ) b, l[j]? = some b → keep b = true → f a ≤ f b
  lt : ∀ (j : ℕ) b, l[j]? = some b → keep b = true → j < i → f a < f b

variable {keep : α → Bool} {f : α → β} {l : List α} {i j : ℕ} {a b : α}

theorem IsFirstLeast.unique (h : IsFirstLeast keep f l i a) (h' : IsFirstLeast keep f l j b) :
    i = j ∧ a = b := by
  have hij : i = j := by
    rcases lt_trichotomy i j with hlt | heq | hlt
    · exact absurd (h'.lt i a h.getElem? h.kept hlt) (not_lt.2 (h.le j b h'.getElem? h'.kept))
    · exact heq
    · exact absurd (h.lt j b h'.getElem? h'.kept hlt) (not_lt.2 (h'.le i a h.getElem? h.kept))
  subst hij
  exact ⟨rfl, Option.some.inj (h.getElem?.symm.trans h'.getElem?)⟩

/-- An element that is first and whose value is at most the others'. -/
theorem IsFirstLeast.head (hkeep : keep a = true)
    (hle : ∀ b ∈ l, keep b = true → f a ≤ f b) : IsFirstLeast keep f (a :: l) 0 a where
  getElem? := rfl
  kept := hkeep
  le j b hb hb' := by
    rcases List.mem_cons.1 (List.mem_of_getElem? hb) with rfl | hmem
    · exact le_rfl
    · exact hle b hmem hb'
  lt j b _ _ hj := absurd hj (Nat.not_lt_zero j)

theorem IsFirstLeast.tail (h : IsFirstLeast keep f l i a) (hlt : keep b = true → f a < f b) :
    IsFirstLeast keep f (b :: l) (i + 1) a where
  getElem? := h.getElem?
  kept := h.kept
  le j c hc hc' := by
    cases j with
    | zero =>
      obtain rfl := Option.some.inj hc
      exact (hlt hc').le
    | succ j => exact h.le j c hc hc'
  lt j c hc hc' hj := by
    cases j with
    | zero =>
      obtain rfl := Option.some.inj hc
      exact hlt hc'
    | succ j => exact h.lt j c hc hc' (Nat.lt_of_succ_lt_succ hj)

/-- A scan finds nothing below the bound, or the first of the least. -/
theorem runningMin_cases (keep : α → Bool) (f : α → β) (l : List α) (start : ℕ)
    (least : Option ℕ × β) :
    (runningMin keep f l start least = least ∧ ∀ a ∈ l, keep a = true → least.2 ≤ f a) ∨
      ∃ i a, runningMin keep f l start least = (some (start + i), f a) ∧ f a < least.2 ∧
        IsFirstLeast keep f l i a := by
  induction l generalizing start least with
  | nil => exact .inl ⟨rfl, fun a ha => absurd ha List.not_mem_nil⟩
  | cons b l ih =>
    rw [runningMin]
    by_cases hb : (keep b && f b < least.2) = true
    · rw [if_pos hb]
      rw [Bool.and_eq_true, decide_eq_true_iff] at hb
      rcases ih (start + 1) (some start, f b) with ⟨heq, hle⟩ | ⟨i, a, heq, hlt, hfirst⟩
      · exact .inr ⟨0, b, heq, hb.2, .head hb.1 hle⟩
      · refine .inr ⟨i + 1, a, ?_, hlt.trans hb.2, hfirst.tail fun _ => hlt⟩
        rw [heq, Nat.add_right_comm, Nat.add_assoc]
    · rw [if_neg hb]
      rw [Bool.and_eq_true, decide_eq_true_iff, not_and, not_lt] at hb
      rcases ih (start + 1) least with ⟨heq, hle⟩ | ⟨i, a, heq, hlt, hfirst⟩
      · refine .inl ⟨heq, fun a ha hkeep => ?_⟩
        rcases List.mem_cons.1 ha with rfl | ha
        · exact hb hkeep
        · exact hle a ha hkeep
      · refine .inr ⟨i + 1, a, ?_, hlt, hfirst.tail fun hkeep => hlt.trans_le (hb hkeep)⟩
        rw [heq, Nat.add_right_comm, Nat.add_assoc]
