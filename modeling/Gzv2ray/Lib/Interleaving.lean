import Mathlib.Data.List.Forall2
import Mathlib.Tactic

/-!
# Interleavings

`Interleaves f l`: the list `l` is an interleaving of the lists `f i`, each in
order. What is known of the elements of each list is known of the interleaving,
from which a tag sorts them out again (`Interleaves.sort`).
-/

/-- The list is an interleaving of a family of lists. -/
inductive Interleaves {ι α : Type*} [DecidableEq ι] : (ι → List α) → List α → Prop
  | nil {f : ι → List α} : (∀ i, f i = []) → Interleaves f []
  | cons {f : ι → List α} {i : ι} {a : α} {as l : List α} :
    f i = a :: as → Interleaves (Function.update f i as) l → Interleaves f (a :: l)

namespace Interleaves

variable {ι α β : Type*} [DecidableEq ι] {f : ι → List α} {l : List α}

/-- A list alone. -/
theorem single (i : ι) (l : List α) : Interleaves (Function.update (fun _ => []) i l) l := by
  induction l with
  | nil => exact .nil fun j => by rw [Function.update_apply]; split <;> rfl
  | cons a l ih =>
    exact .cons (i := i) (Function.update_self ..) (by rwa [Function.update_idem])

/-- Lists related to those interleaved are interleaved as they are, and the tags of
    their elements tell them apart. -/
theorem sort (h : Interleaves f l) {R : α → β → Prop} {g : ι → List β}
    (hR : ∀ i, List.Forall₂ R (f i) (g i)) {tag : β → ι} (htag : ∀ i, ∀ b ∈ g i, tag b = i) :
    ∃ l', List.Forall₂ R l l' ∧ ∀ i, l'.filter (fun b => tag b = i) = g i := by
  induction h generalizing g with
  | nil hf =>
    refine ⟨[], .nil, fun i => ?_⟩
    have hi := hR i
    rw [hf i] at hi
    rw [List.forall₂_nil_left_iff.1 hi, List.filter_nil]
  | @cons f i a as l hf _ ih =>
    have hi := hR i
    rw [hf] at hi
    obtain ⟨b, bs, hb, hbs, hgi⟩ := List.forall₂_cons_left_iff.1 hi
    obtain ⟨l', hl', hsort⟩ := ih (g := Function.update g i bs)
      (fun j => by
        rcases eq_or_ne j i with rfl | hj
        · simpa using hbs
        · simpa [Function.update_of_ne hj] using hR j)
      (fun j c hc => by
        rcases eq_or_ne j i with rfl | hj
        · exact htag _ c (by rw [hgi]; simp at hc; exact List.mem_cons_of_mem _ hc)
        · rw [Function.update_of_ne hj] at hc
          exact htag j c hc)
    refine ⟨b :: l', .cons hb hl', fun j => ?_⟩
    have hbi : tag b = i := htag i b (by rw [hgi]; exact List.mem_cons_self)
    rcases eq_or_ne j i with rfl | hj
    · rw [List.filter_cons_of_pos (by simpa using hbi), hsort, Function.update_self, hgi]
    · rw [List.filter_cons_of_neg (by simpa [hbi] using hj.symm), hsort, Function.update_of_ne hj]

end Interleaves
