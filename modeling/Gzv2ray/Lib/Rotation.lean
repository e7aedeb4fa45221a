import Mathlib.Data.Set.Insert
import Mathlib.Algebra.Group.Nat.Even
import Mathlib.Tactic

/-!
# Two sets cleared in turn

A pair of sets remembers what was noted of late: each *rotation* clears one of
them, in turn, and what is noted is put in the first, and in the second too
if the first did not have it. With the rotations counted, what is remembered
follows from the generations in which it was noted (`Notes.Remembers`):

* `Rotating.Reflects`: the sets are those that the notes lead to, which is
  preserved by rotations and by further notes;
* `Notes.nodup_accepted_iff`: what is accepted, as it is not remembered, is
  accepted once only exactly if nothing is noted after it was forgotten
  (`Notes.IsTimely`).
-/

/-- What was noted, with the number of rotations before. -/
abbrev Notes (α : Type*) := List (α × ℕ)

namespace Notes

variable {α : Type*} (l : Notes α)

/-- The note is the first one since the first set was cleared. -/
def IsFirst (g : ℕ) (x : α) : Prop := (x, g) ∈ l ∧ (Even g ∨ ∀ k, g = k + 1 → (x, k) ∉ l)

/-- It was noted in this generation, or it was first noted in the one before; where the
    first set was not cleared in between, it need not have been the first time. -/
def Remembers (g : ℕ) (x : α) : Prop :=
  (x, g) ∈ l ∨ ∃ k, g = k + 1 ∧ (x, k) ∈ l ∧ (Odd g ∨ l.IsFirst k x)

/-- It was noted. -/
def Has (x : α) : Prop := ∃ g, (x, g) ∈ l

variable {l}

theorem Remembers.has {g : ℕ} {x : α} (h : l.Remembers g x) : l.Has x := by
  rcases h with h | ⟨k, -, h, -⟩
  · exact ⟨g, h⟩
  · exact ⟨k, h⟩

/-- What was noted as it was not remembered is remembered in the next generation: where the
    first set is not cleared, it was not in it. -/
theorem remembers_succ {g : ℕ} {x : α} (h : (x, g) ∈ l)
    (hnew : Odd g → ∀ k, g = k + 1 → (x, k) ∉ l) : l.Remembers (g + 1) x := by
  rcases Nat.even_or_odd g with heven | hodd
  · exact .inr ⟨g, rfl, h, .inl heven.add_one⟩
  · exact .inr ⟨g, rfl, h, .inr ⟨h, .inr (hnew hodd)⟩⟩

end Notes

/-- Two sets, and whether the first one is cleared next. -/
structure Rotating (α : Type*) where
  fst : Set α
  snd : Set α
  swap : Bool

namespace Rotating

variable {α : Type*} (r : Rotating α)

def rotate : Rotating α :=
  if r.swap then { r with fst := ∅, swap := false } else { r with snd := ∅, swap := true }

def note (x : α) : Rotating α :=
  { r with fst := insert x r.fst, snd := { y | y ∈ r.snd ∨ y = x ∧ x ∉ r.fst } }

/-- None of the sets has it. -/
def IsFresh (x : α) : Prop := x ∉ r.fst ∧ x ∉ r.snd

/-- The sets are those that the notes lead to. -/
structure Reflects (l : Notes α) (g : ℕ) : Prop where
  swap : r.swap ↔ Odd g
  bound (x k) : (x, k) ∈ l → k ≤ g
  fst (x) : x ∈ r.fst ↔ (x, g) ∈ l ∨ Odd g ∧ ∃ k, g = k + 1 ∧ (x, k) ∈ l
  snd (x) : x ∈ r.snd ↔ l.IsFirst g x ∨ Even g ∧ ∃ k, g = k + 1 ∧ l.IsFirst k x

variable {r} {l : Notes α} {g : ℕ}

theorem reflects_empty : (⟨∅, ∅, false⟩ : Rotating α).Reflects [] 0 := by
  constructor <;> simp [Notes.IsFirst]

/-- What is fresh is what is not remembered. -/
theorem Reflects.isFresh_iff (h : r.Reflects l g) (x : α) : r.IsFresh x ↔ ¬ l.Remembers g x := by
  rw [IsFresh, h.fst, h.snd, ← not_or, not_iff_not]
  constructor
  · rintro ((hx | ⟨hodd, k, rfl, hx⟩) | hx | ⟨-, k, rfl, hx⟩)
    · exact .inl hx
    · exact .inr ⟨k, rfl, hx, .inl hodd⟩
    · exact .inl hx.1
    · exact .inr ⟨k, rfl, hx.1, .inr hx⟩
  · rintro (hx | ⟨k, rfl, hx, hodd | hfirst⟩)
    · exact .inl (.inl hx)
    · exact .inl (.inr ⟨hodd, k, rfl, hx⟩)
    · rcases Nat.even_or_odd (k + 1) with heven | hodd
      · exact .inr (.inr ⟨heven, k, rfl, hfirst⟩)
      · exact .inl (.inr ⟨hodd, k, rfl, hx⟩)

/-- A rotation starts the next generation. -/
theorem Reflects.rotate (h : r.Reflects l g) : r.rotate.Reflects l (g + 1) := by
  have hnone (x : α) : (x, g + 1) ∉ l := fun hx => Nat.not_succ_le_self g (h.bound x _ hx)
  have hsucc (P : ℕ → Prop) : (∃ k, g + 1 = k + 1 ∧ P k) ↔ P g :=
    ⟨fun ⟨k, hk, hP⟩ => by obtain rfl := Nat.succ_inj.1 hk; exact hP, fun hP => ⟨g, rfl, hP⟩⟩
  rw [Rotating.rotate]
  split
  · rename_i hswap
    have hodd : Odd g := h.swap.1 hswap
    refine ⟨by simp [Nat.odd_add_one, hodd], fun x k hx => (h.bound x k hx).trans g.le_succ,
      fun x => ?_, fun x => ?_⟩
    · simp [hnone, Nat.odd_add_one, hodd]
    · rw [hsucc, h.snd]
      simp [Notes.IsFirst, hnone, Nat.even_add_one, Nat.not_even_iff_odd.2 hodd]
  · rename_i hswap
    have heven : Even g := Nat.not_odd_iff_even.1 fun hodd => hswap (h.swap.2 hodd)
    refine ⟨by simp [Nat.odd_add_one, Nat.not_odd_iff_even.2 heven],
      fun x k hx => (h.bound x k hx).trans g.le_succ, fun x => ?_, fun x => ?_⟩
    · rw [hsucc, h.fst]
      simp [hnone, Nat.odd_add_one, Nat.not_odd_iff_even.2 heven]
    · simp [Notes.IsFirst, hnone, Nat.even_add_one, heven]

/-- A note is added in the current generation. -/
theorem Reflects.note (h : r.Reflects l g) (x : α) : (r.note x).Reflects (l ++ [(x, g)]) g := by
  have hmem (y : α) (k : ℕ) : (y, k) ∈ l ++ [(x, g)] ↔ (y, k) ∈ l ∨ y = x ∧ k = g := by simp
  have hbefore {k : ℕ} (hk : g = k + 1) (y : α) : (y, k) ∈ l ++ [(x, g)] ↔ (y, k) ∈ l := by
    rw [hmem, or_iff_left]
    omega
  have hfirst {k : ℕ} (hk : g = k + 1) (y : α) :
      Notes.IsFirst (l ++ [(x, g)]) k y ↔ Notes.IsFirst l k y := by
    rw [Notes.IsFirst, Notes.IsFirst, hbefore hk]
    refine and_congr_right fun _ => or_congr_right (forall₂_congr fun j hj => ?_)
    rw [hmem, or_iff_left]
    omega
  have hfst := h.fst x
  refine ⟨h.swap, fun y k hy => ?_, fun y => ?_, fun y => ?_⟩
  · rcases (hmem y k).1 hy with hy | ⟨-, rfl⟩
    · exact h.bound y k hy
    · exact le_rfl
  · have hk : (∃ k, g = k + 1 ∧ (y, k) ∈ l ++ [(x, g)]) ↔ ∃ k, g = k + 1 ∧ (y, k) ∈ l :=
      exists_congr fun k => and_congr_right fun hk => hbefore hk y
    rw [hk, hmem, Rotating.note, Set.mem_insert_iff, h.fst]
    tauto
  · have hk : (∃ k, g = k + 1 ∧ Notes.IsFirst (l ++ [(x, g)]) k y) ↔
        ∃ k, g = k + 1 ∧ Notes.IsFirst l k y :=
      exists_congr fun k => and_congr_right fun hk => hfirst hk y
    rw [hk, Rotating.note, Set.mem_ofPred_eq, h.snd, or_right_comm, Notes.IsFirst, Notes.IsFirst, hmem]
    refine or_congr_left ?_
    have hbefore' : (∀ k, g = k + 1 → (y, k) ∉ l ++ [(x, g)]) ↔ ∀ k, g = k + 1 → (y, k) ∉ l :=
      forall₂_congr fun k hk => not_congr (hbefore hk y)
    rw [hbefore']
    by_cases hy : y = x
    · subst hy
      -- the first set lacks it exactly if this is the first note since it was cleared
      have hnot : y ∉ r.fst ↔ (y, g) ∉ l ∧ (Even g ∨ ∀ k, g = k + 1 → (y, k) ∉ l) := by
        rw [hfst, not_or, not_and_or, Nat.not_odd_iff_even]
        push Not
        rfl
      rw [hnot]
      by_cases hg : (y, g) ∈ l <;> simp [hg]
    · simp [hy]

end Rotating

namespace Notes

variable {α : Type*}

/-- After the first notes, what is noted again is still remembered. -/
def Timely : Notes α → Notes α → Prop
  | _, [] => True
  | l, (x, g) :: rest => (l.Has x → l.Remembers g x) ∧ Timely (l ++ [(x, g)]) rest

open Classical in
/-- What is accepted after the first notes, as it is not remembered. -/
noncomputable def accepted : Notes α → Notes α → List α
  | _, [] => []
  | l, (x, g) :: rest =>
    if l.Remembers g x then accepted (l ++ [(x, g)]) rest else x :: accepted (l ++ [(x, g)]) rest

theorem has_append {l : Notes α} {x y : α} {g : ℕ} :
    Has (l ++ [(x, g)]) y ↔ l.Has y ∨ y = x := by
  simp only [Has, List.mem_append, List.mem_singleton, Prod.mk.injEq, exists_or]
  simp

theorem timely_iff (l rest : Notes α) :
    Timely l rest ↔ (∀ x ∈ accepted l rest, ¬ l.Has x) ∧ (accepted l rest).Nodup := by
  induction rest generalizing l with
  | nil => simp [Timely, accepted]
  | cons note rest ih =>
    obtain ⟨x, g⟩ := note
    rw [Timely, ih, accepted]
    by_cases hx : l.Remembers g x
    · rw [if_pos hx]
      simp only [hx, implies_true, true_and, has_append]
      refine and_congr_left fun _ => forall₂_congr fun y _ => ?_
      rw [not_or, and_iff_left_iff_imp]
      rintro hy rfl
      exact hy hx.has
    · rw [if_neg hx, List.nodup_cons]
      simp only [hx, imp_false, has_append, List.mem_cons, forall_eq_or_imp, not_or]
      constructor
      · rintro ⟨hhas, hrest, hnodup⟩
        exact ⟨⟨hhas, fun y hy => (hrest y hy).1⟩, fun hmem => (hrest x hmem).2 rfl, hnodup⟩
      · rintro ⟨⟨hhas, hrest⟩, hmem, hnodup⟩
        exact ⟨hhas, fun y hy => ⟨hrest y hy, fun h => hmem (h ▸ hy)⟩, hnodup⟩

/-- Nothing is noted again after it was forgotten. -/
def IsTimely (l : Notes α) : Prop := Timely [] l

/-- Nothing is accepted twice exactly if nothing is noted after it was forgotten. -/
theorem nodup_accepted_iff (l : Notes α) : (accepted [] l).Nodup ↔ l.IsTimely := by
  rw [IsTimely, timely_iff, and_iff_right]
  rintro x - ⟨g, hg⟩
  exact List.not_mem_nil hg

end Notes
