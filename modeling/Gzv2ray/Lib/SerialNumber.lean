import Mathlib.Tactic

/-!
# Serial numbers

Numbers of 32 bits in an order that wraps around: a number precedes those that are
less than half the circle ahead of it (`Precedes`). How far a number is behind another one
(`behind`) tells all other distances (`toNat_sub_eq`).

A list of consecutive numbers (`IsConsecutive`) is cleared of those that precede
another number by a comparison of the numbers themselves exactly if the comparison
does not wrap around (`dropWhile_eq_iff`).
-/

namespace SerialNumber

/-- `b` is ahead of `a`, by less than half the circle. -/
def Precedes (a b : UInt32) : Prop := a ≠ b ∧ b - a < 0x80000000

instance (a b : UInt32) : Decidable (Precedes a b) := inferInstanceAs (Decidable (_ ∧ _))

theorem precedes_iff (a b : UInt32) :
    Precedes a b ↔ a.toNat < b.toNat ∧ b.toNat < a.toNat + 2 ^ 31 ∨ b.toNat + 2 ^ 31 < a.toNat := by
  have ha := a.toNat_lt
  have hb := b.toNat_lt
  rw [Precedes, ne_eq, ← UInt32.toNat_inj, UInt32.lt_iff_toNat_lt, UInt32.toNat_sub]
  change _ ∧ _ < 2147483648 ↔ _
  omega

variable {α : Type*} {number : α → UInt32} {first : UInt32} {l : List α}

/-- The numbers of a list are consecutive ones, and fewer than half of all. -/
structure IsConsecutive (number : α → UInt32) (first : UInt32) (l : List α) : Prop where
  getElem (i) (x) : l[i]? = some x → (number x).toNat = (first.toNat + i) % 2 ^ 32
  length_le : l.length ≤ 2 ^ 31

/-- What is dropped from the front is what is filtered out, if these are the first `k`. -/
theorem dropWhile_eq_filter {p q : α → Bool} (k : ℕ)
    (hl : ∀ i x, i < k → l[i]? = some x → p x = true ∧ q x = false)
    (hr : ∀ i x, k ≤ i → l[i]? = some x → q x = true)
    (hk : ∀ x, l[k]? = some x → p x = false) : l.dropWhile p = l.filter q := by
  have htake (x) (hx : x ∈ l.take k) : p x = true ∧ q x = false := by
    obtain ⟨i, hi⟩ := List.mem_iff_getElem?.1 hx
    obtain ⟨hlt, -⟩ := List.getElem?_eq_some_iff.1 hi
    rw [List.length_take] at hlt
    rw [List.getElem?_take_of_lt (by omega)] at hi
    exact hl i x (by omega) hi
  have hdrop (x) (hx : x ∈ l.drop k) : q x = true := by
    obtain ⟨i, hi⟩ := List.mem_iff_getElem?.1 hx
    rw [List.getElem?_drop] at hi
    exact hr _ x (Nat.le_add_right k i) hi
  conv_lhs => rw [← List.take_append_drop k l, List.dropWhile_append_of_pos fun x hx => (htake x hx).1]
  conv_rhs => rw [← List.take_append_drop k l, List.filter_append,
    List.filter_eq_nil_iff.2 fun x hx => Bool.eq_false_iff.1 (htake x hx).2, List.nil_append,
    List.filter_eq_self.2 hdrop]
  cases hd : l.drop k with
  | nil => rfl
  | cons x rest =>
    have hx : l[k]? = some x := by rw [← List.head?_drop, hd, List.head?_cons]
    rw [List.dropWhile_cons_of_neg (Bool.eq_false_iff.1 (hk x hx))]

/-- The comparison of `una` with `n` numbers from `first` on does not wrap around. -/
def Compares (first una : UInt32) (n : ℕ) : Prop :=
  n = 0 ∨ first ≤ una ∧ una.toNat < first.toNat + 2 ^ 31 ∨
    una < first ∧ first.toNat + n ≤ una.toNat + 2 ^ 31 + 1

/-- Dropping numbers below `una` from the front drops those that precede it exactly if
    their comparison does not wrap around. -/
theorem dropWhile_eq_iff (h : IsConsecutive number first l) (una : UInt32) :
    l.dropWhile (fun x => number x < una) = l.filter (fun x => ¬ Precedes (number x) una) ↔
      Compares first una l.length := by
  have huna := una.toNat_lt
  have hfirst := first.toNat_lt
  have hlen := h.length_le
  have hlt (x : α) : decide (number x < una) = true ↔ (number x).toNat < una.toNat := by
    rw [decide_eq_true_iff, UInt32.lt_iff_toNat_lt]
  have hkeep (x : α) : decide (¬ Precedes (number x) una) = true ↔ ¬ Precedes (number x) una :=
    decide_eq_true_iff
  rw [Compares, UInt32.le_iff_toNat_le, UInt32.lt_iff_toNat_lt]
  constructor
  · intro heq
    by_contra hnot
    cases l with
    | nil => exact hnot (.inl rfl)
    | cons x rest =>
      have hx := h.getElem 0 x rfl
      by_cases hbelow : first.toNat < una.toNat
      · -- the first number is dropped, though it does not precede
        have hmem : x ∈ (x :: rest).filter fun x => ¬ Precedes (number x) una := by
          refine List.mem_filter.2 ⟨List.mem_cons_self, (hkeep x).2 ?_⟩
          rw [precedes_iff]
          omega
        rw [← heq, List.dropWhile_cons_of_pos (p := fun x => number x < una) ((hlt x).2 (by omega))] at hmem
        obtain ⟨j, hj⟩ := List.mem_iff_getElem?.1 ((List.dropWhile_suffix _).subset hmem)
        have hxj := h.getElem (j + 1) x hj
        have hjlt := (List.getElem?_eq_some_iff.1 hj).1
        rw [List.length_cons] at hlen
        omega
      · -- none is dropped, though one of them precedes
        rw [List.dropWhile_cons_of_neg (p := fun x => number x < una) (by rw [hlt]; omega)] at heq
        have hall (i) (y) (hy : (x :: rest)[i]? = some y) : ¬ Precedes (number y) una :=
          (hkeep y).1 (List.filter_eq_self.1 heq.symm y (List.mem_of_getElem? hy))
        by_cases hfar : una.toNat + 2 ^ 31 < first.toNat
        · refine hall 0 x rfl ((precedes_iff _ _).2 (.inr ?_))
          omega
        · have hi : una.toNat + 2 ^ 31 + 1 - first.toNat < (x :: rest).length := by omega
          have hy := h.getElem _ _ (List.getElem?_eq_getElem hi)
          refine hall _ _ (List.getElem?_eq_getElem hi) ((precedes_iff _ _).2 ?_)
          omega
  · rintro (hnil | ⟨hle, hahead⟩ | ⟨hbehind, hle⟩)
    · rw [List.length_eq_zero_iff.1 hnil]
      rfl
    -- As many are dropped as there are numbers from the first up to `una`.
    · have hk (i) (x) (hx : l[i]? = some x) : (number x).toNat = (first.toNat + i) % 2 ^ 32 ∧ i < 2 ^ 31 :=
        ⟨h.getElem i x hx, lt_of_lt_of_le (List.getElem?_eq_some_iff.1 hx).1 hlen⟩
      refine dropWhile_eq_filter (una.toNat - first.toNat) (fun i x hi hx => ?_) (fun i x hi hx => ?_)
        fun x hx => ?_
      · obtain ⟨hnum, -⟩ := hk i x hx
        refine ⟨(hlt x).2 (by omega), Bool.eq_false_iff.2 fun hq => (hkeep x).1 hq ?_⟩
        rw [precedes_iff]
        omega
      · obtain ⟨hnum, hi'⟩ := hk i x hx
        rw [hkeep, precedes_iff]
        omega
      · obtain ⟨hnum, -⟩ := hk _ x hx
        rw [Bool.eq_false_iff, ne_eq, hlt]
        omega
    · refine dropWhile_eq_filter 0 (fun i x hi => absurd hi (Nat.not_lt_zero i)) (fun i x _ hx => ?_)
        fun x hx => ?_
      · have hnum := h.getElem i x hx
        have hi := (List.getElem?_eq_some_iff.1 hx).1
        rw [hkeep, precedes_iff]
        omega
      · have hnum := h.getElem 0 x hx
        rw [Bool.eq_false_iff, ne_eq, hlt]
        omega

/-! ## Distances -/

/-- How far `n` is behind `last`. -/
def behind (last n : UInt32) : ℕ := (last - n).toNat

theorem behind_lt (last n : UInt32) : behind last n < 2 ^ 32 := (last - n).toNat_lt

theorem toNat_sub_eq (last a b : UInt32) :
    (b - a).toNat = (behind last a + (2 ^ 32 - behind last b)) % 2 ^ 32 := by
  have ha := a.toNat_lt
  have hb := b.toNat_lt
  have hlast := last.toNat_lt
  rw [behind, behind, UInt32.toNat_sub, UInt32.toNat_sub, UInt32.toNat_sub]
  omega

theorem behind_inj {last a b : UInt32} : behind last a = behind last b ↔ a = b := by
  refine ⟨fun h => ?_, fun h => by rw [h]⟩
  have ha := a.toNat_lt
  have hb := b.toNat_lt
  have hlast := last.toNat_lt
  rw [behind, behind, UInt32.toNat_sub, UInt32.toNat_sub] at h
  exact UInt32.toNat_inj.1 (by omega)

@[simp] theorem behind_self (last : UInt32) : behind last last = 0 := by
  rw [behind, UInt32.sub_self]
  rfl

theorem behind_eq_zero {last n : UInt32} : behind last n = 0 ↔ n = last := by
  rw [← behind_self last, behind_inj]

/-- `last` is one of some numbers, and at most half the circle ahead of each of them. -/
structure IsLatest (last : UInt32) (l : List UInt32) : Prop where
  mem : last ∈ l
  behind_lt : ∀ n ∈ l, behind last n < 2 ^ 31

end SerialNumber
