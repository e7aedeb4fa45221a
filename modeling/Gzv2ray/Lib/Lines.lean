import Mathlib.Data.List.Infix

/-!
# Lines

A list is cut into lines at a separator by `List.splitOn`, and a line is cut in
two at its first separator by `cut`.

* `splitOn_unlines`: lines that end in a separator are split at their ends;
* `splitOn_prefix`: a prefix of such a list has some of the lines, and a prefix
  of the next one;
* `cut_prefix`: a prefix of a list is cut like the list, or not at all.
-/

namespace Gzv2ray

variable {α : Type*} {sep : α}

/-! ## Lines that end in a separator -/

/-- The lines, each with a separator behind it. -/
def unlines (sep : α) (lines : List (List α)) : List α := lines.flatMap (· ++ [sep])

@[simp] theorem unlines_nil : unlines sep [] = [] := rfl

@[simp] theorem unlines_cons (line : List α) (lines : List (List α)) :
    unlines sep (line :: lines) = line ++ sep :: unlines sep lines := by
  simp [unlines]

@[simp] theorem unlines_append (lines lines' : List (List α)) :
    unlines sep (lines ++ lines') = unlines sep lines ++ unlines sep lines' := by
  simp [unlines]

/-- A prefix of a line and what follows it is a prefix of the line, or the line
    and a prefix of what follows. -/
theorem prefix_line {line rest p : List α} (h : p <+: line ++ sep :: rest) :
    p <+: line ∨ ∃ q, q <+: rest ∧ p = line ++ sep :: q := by
  obtain ⟨u, hu⟩ := h
  rcases List.append_eq_append_iff.1 hu with ⟨q, rfl, -⟩ | ⟨q, rfl, hq⟩
  · exact Or.inl (List.prefix_append p q)
  · cases q with
    | nil => exact Or.inl (by simp)
    | cons c q =>
      obtain ⟨rfl, rfl⟩ := List.cons_eq_cons.1 hq
      exact Or.inr ⟨q, List.prefix_append q u, rfl⟩

variable [DecidableEq α]

theorem splitOn_unlines {lines : List (List α)} (hsep : ∀ line ∈ lines, sep ∉ line)
    (rest : List α) : (unlines sep lines ++ rest).splitOn sep = lines ++ rest.splitOn sep := by
  induction lines with
  | nil => rfl
  | cons line lines ih =>
    rw [List.forall_mem_cons] at hsep
    rw [unlines_cons, List.append_assoc, List.cons_append,
      List.splitOn_append_cons_self_of_not_mem hsep.1, ih hsep.2, List.cons_append]

/-- A prefix is split into some of the lines and a prefix of the next one. -/
theorem splitOn_prefix {lines : List (List α)} {last p : List α}
    (hsep : ∀ line ∈ lines, sep ∉ line) (hlast : sep ∉ last) (h : p <+: unlines sep lines ++ last) :
    ∃ before line after t, lines ++ [last] = before ++ line :: after ∧ t <+: line ∧
      p.splitOn sep = before ++ [t] := by
  induction lines generalizing p with
  | nil => exact ⟨[], last, [], p, rfl, h, List.splitOn_eq_singleton fun hp => hlast (h.mem hp)⟩
  | cons line lines ih =>
    rw [List.forall_mem_cons] at hsep
    rw [unlines_cons, List.append_assoc, List.cons_append] at h
    rcases prefix_line h with hp | ⟨q, hq, rfl⟩
    · exact ⟨[], line, lines ++ [last], p, rfl, hp,
        List.splitOn_eq_singleton fun hmem => hsep.1 (hp.mem hmem)⟩
    · obtain ⟨before, line', after, t, heq, ht, hsplit⟩ := ih hsep.2 hq
      refine ⟨line :: before, line', after, t, by rw [List.cons_append, heq]; rfl, ht, ?_⟩
      rw [List.splitOn_append_cons_self_of_not_mem hsep.1, hsplit, List.cons_append]

/-! ## Cutting a line in two -/

/-- The list before the first separator and the list behind it, if there is one. -/
def cut (sep : α) : List α → Option (List α × List α)
  | [] => none
  | c :: s => if c = sep then some ([], s) else (cut sep s).map fun (k, v) => (c :: k, v)

theorem cut_append {k : List α} (hk : sep ∉ k) (v : List α) :
    cut sep (k ++ sep :: v) = some (k, v) := by
  induction k with
  | nil => rw [List.nil_append, cut, if_pos rfl]
  | cons c k ih =>
    rw [List.mem_cons, not_or] at hk
    rw [List.cons_append, cut, if_neg (Ne.symm hk.1), ih hk.2, Option.map_some]

theorem eq_of_cut {s k v : List α} (h : cut sep s = some (k, v)) : s = k ++ sep :: v ∧ sep ∉ k := by
  induction s generalizing k v with
  | nil => exact nomatch h
  | cons c s ih =>
    rw [cut] at h
    split at h
    · next hc => cases h; exact ⟨by rw [hc, List.nil_append], List.not_mem_nil⟩
    · next hc =>
      obtain ⟨⟨k', v'⟩, heq, hkv⟩ := Option.map_eq_some_iff.1 h
      cases hkv
      obtain ⟨rfl, hk⟩ := ih heq
      exact ⟨rfl, by rw [List.mem_cons, not_or]; exact ⟨Ne.symm hc, hk⟩⟩

theorem cut_prefix {p s k v : List α} (h : p <+: s) (hp : cut sep p = some (k, v)) :
    ∃ w, cut sep s = some (k, w) ∧ v <+: w := by
  obtain ⟨rfl, hk⟩ := eq_of_cut hp
  obtain ⟨u, rfl⟩ := h
  exact ⟨v ++ u, by rw [List.append_assoc, List.cons_append, cut_append hk], List.prefix_append v u⟩

end Gzv2ray
