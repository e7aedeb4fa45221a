import Mathlib.Data.List.Infix
import Mathlib.Data.Set.Basic
import Mathlib.Tactic

/-!
# Longest suffixes

Of the suffixes of a text, the longest one in a set `W` of words (`IsLongestSuffix`). If the
set has all prefixes of its words, it is computed as the text is read from left to right
(`IsLongestSuffix.concat`), by the longest suffix of what follows the first letter of a word
where no word goes on (`IsLongestSuffix.fail`).

If `W` are the prefixes of some keywords, a text is *hit* where its longest suffix is a
keyword (`Hits`). Every keyword in every text is found so if and only if no keyword is
hidden in a word that is a prefix of others (`hits_iff_infix`).
-/

variable {α : Type*} {W : Set (List α)} {x w v f : List α} {a : α}

/-- The longest suffix of a text that is in a set. -/
structure IsLongestSuffix (W : Set (List α)) (x w : List α) : Prop where
  mem : w ∈ W
  suffix : w <:+ x
  length_le : ∀ v ∈ W, v <:+ x → v.length ≤ w.length

/-- The set has all prefixes of its words. -/
def PrefixClosed (W : Set (List α)) : Prop := ∀ w ∈ W, ∀ v, v <+: w → v ∈ W

namespace IsLongestSuffix

/-- Any suffix in the set is one of the longest. -/
theorem suffix_of (h : IsLongestSuffix W x w) (hv : v ∈ W) (hsuffix : v <:+ x) : v <:+ w :=
  List.suffix_of_suffix_length_le hsuffix h.suffix (h.length_le v hv hsuffix)

theorem unique (h : IsLongestSuffix W x w) (h' : IsLongestSuffix W x v) : v = w :=
  (h.suffix_of h'.mem h'.suffix).eq_of_length_le (h'.length_le w h.mem h.suffix)

/-- A word of the set. -/
theorem self (h : w ∈ W) : IsLongestSuffix W w w :=
  ⟨h, List.suffix_refl w, fun _ _ hv => hv.length_le⟩

theorem suffix_concat_concat_iff {u : List α} {b : α} :
    u ++ [b] <:+ x ++ [a] ↔ u <:+ x ∧ b = a := by
  rw [List.suffix_concat_iff]
  constructor
  · rintro (h | ⟨t, h, hsuffix⟩)
    · exact absurd h (List.append_ne_nil_of_right_ne_nil u (List.cons_ne_nil b []))
    · obtain ⟨rfl, hb⟩ := List.append_inj' h rfl
      exact ⟨hsuffix, List.head_eq_of_cons_eq hb⟩
  · rintro ⟨hsuffix, rfl⟩
    exact .inr ⟨u, rfl, hsuffix⟩

theorem nil (h : [] ∈ W) : IsLongestSuffix W [] [] := self h

/-- The text is read on: only the longest suffix counts for what comes. -/
theorem concat (hW : PrefixClosed W) (h : IsLongestSuffix W x w)
    (h' : IsLongestSuffix W (w ++ [a]) v) : IsLongestSuffix W (x ++ [a]) v where
  mem := h'.mem
  suffix := h'.suffix.trans (suffix_concat_concat_iff.2 ⟨h.suffix, rfl⟩)
  length_le u hu hsuffix := by
    refine h'.length_le u hu ?_
    rcases List.eq_nil_or_concat u with rfl | ⟨u, b, rfl⟩
    · exact List.nil_suffix
    · rw [List.concat_eq_append] at hu hsuffix ⊢
      obtain ⟨hu', rfl⟩ := suffix_concat_concat_iff.1 hsuffix
      exact suffix_concat_concat_iff.2
        ⟨h.suffix_of (hW _ hu _ (List.prefix_append u [b])) hu', rfl⟩

/-- Where no word goes on with a letter, the longest suffix of what follows the first letter
    is read on. -/
theorem fail (hW : PrefixClosed W) (hne : w ≠ []) (hfail : IsLongestSuffix W w.tail f)
    (hnot : w ++ [a] ∉ W) (h : IsLongestSuffix W (f ++ [a]) v) :
    IsLongestSuffix W (w ++ [a]) v := by
  have htail := hfail.concat hW h
  have happend : (w ++ [a]).tail = w.tail ++ [a] := List.tail_append_of_ne_nil hne
  rw [← happend] at htail
  refine ⟨htail.mem, htail.suffix.trans (List.tail_suffix _), fun u hu hsuffix => ?_⟩
  refine htail.length_le u hu ?_
  obtain ⟨b, w, rfl⟩ := List.exists_cons_of_ne_nil hne
  rcases List.suffix_cons_iff.1 hsuffix with rfl | hsuffix
  · exact absurd hu hnot
  · exact hsuffix

end IsLongestSuffix

/-! ## Keywords -/

/-- The prefixes of some keywords. -/
def prefixesOf (R : Set (List α)) : Set (List α) := {w | w = [] ∨ ∃ r ∈ R, w <+: r}

theorem prefixClosed_prefixesOf (R : Set (List α)) : PrefixClosed (prefixesOf R) := by
  rintro w (rfl | ⟨r, hr, hw⟩) v hv
  · exact .inl (List.prefix_nil.1 hv)
  · exact .inr ⟨r, hr, hv.trans hw⟩

variable {R : Set (List α)}

theorem nil_mem_prefixesOf : [] ∈ prefixesOf R := .inl rfl

theorem mem_prefixesOf {r : List α} (h : r ∈ R) : r ∈ prefixesOf R := .inr ⟨r, h, List.prefix_refl r⟩

/-- Some part of the text that was read, though not none, has a keyword as its longest
    suffix. -/
def Hits (R : Set (List α)) (x : List α) : Prop :=
  ∃ y, y <+: x ∧ y ≠ [] ∧ ∃ r ∈ R, IsLongestSuffix (prefixesOf R) y r

/-- No keyword is hidden at the end of a word: a word that ends with one begins with one. -/
def NoneHidden (R : Set (List α)) : Prop :=
  ∀ u ∈ prefixesOf R, u ≠ [] → (∃ r ∈ R, r <:+ u) → ∃ r ∈ R, r ≠ [] ∧ r <+: u

theorem Hits.contains {R : Set (List α)} {x : List α} (h : Hits R x) : ∃ r ∈ R, r <:+: x := by
  obtain ⟨y, hy, -, r, hr, hlongest⟩ := h
  exact ⟨r, hr, hlongest.suffix.isInfix.trans hy.isInfix⟩

/-- Every text has a longest suffix in the set. -/
theorem exists_isLongestSuffix (hnil : [] ∈ W) (x : List α) : ∃ w, IsLongestSuffix W x w := by
  classical
  induction x with
  | nil => exact ⟨[], .nil hnil⟩
  | cons a x ih =>
    by_cases h : a :: x ∈ W
    · exact ⟨a :: x, .self h⟩
    · obtain ⟨w, hw⟩ := ih
      refine ⟨w, hw.mem, hw.suffix.trans (List.suffix_cons a x), fun v hv hsuffix => ?_⟩
      rcases List.suffix_cons_iff.1 hsuffix with rfl | hsuffix
      · exact absurd hv h
      · exact hw.length_le v hv hsuffix

/-- A keyword that ends somewhere is followed back to one that is hit. -/
theorem hits_of_suffix (h : NoneHidden R) {x : List α} (n : ℕ) : ∀ {y u r : List α}, y <+: x →
    y ≠ [] → IsLongestSuffix (prefixesOf R) y u → y.length - u.length ≤ n → r ∈ R → r <:+ y →
      Hits R x := by
  induction n using Nat.strong_induction_on with
  | _ n ih =>
    intro y u r hy hne hlongest hn hr hsuffix
    have hru : r <:+ u := hlongest.suffix_of (mem_prefixesOf hr) hsuffix
    by_cases hu : u = []
    · obtain rfl := hu
      exact ⟨y, hy, hne, r, hr, List.suffix_nil.1 hru ▸ hlongest⟩
    · obtain ⟨v, hv, hvne, hvu⟩ := h u hlongest.mem hu ⟨r, hr, hru⟩
      obtain ⟨p, rfl⟩ := hlongest.suffix
      obtain ⟨t, rfl⟩ := hvu
      -- The keyword at the beginning of the longest suffix was read before.
      have hread : p ++ v <+: x := by
        rw [← List.append_assoc] at hy
        exact (List.prefix_append _ t).trans hy
      have hvsuffix : v <:+ p ++ v := List.suffix_append p v
      have hnil : p ++ v ≠ [] := fun heq => hvne (List.append_eq_nil_iff.1 heq).2
      obtain ⟨u', hu'⟩ := exists_isLongestSuffix nil_mem_prefixesOf (p ++ v)
      have hlength := hu'.length_le v (mem_prefixesOf hv) hvsuffix
      rcases Nat.eq_or_lt_of_le hlength with heq | hlt
      · have hself : v = u' := (hu'.suffix_of (mem_prefixesOf hv) hvsuffix).eq_of_length heq
        exact ⟨p ++ v, hread, hnil, v, hv, hself ▸ hu'⟩
      · refine ih ((p ++ v).length - u'.length) ?_ hread hnil hu' le_rfl hv hvsuffix
        have hle := hu'.suffix.length_le
        rw [List.length_append] at hle hn ⊢
        omega

/-- Every keyword in every text is found if and only if none is hidden. It is enough to look at
    texts among which the prefixes of the keywords are. -/
theorem hits_iff_infix {S : Set (List α)} (hS : prefixesOf R ⊆ S) :
    (∀ x ∈ S, x ≠ [] → (Hits R x ↔ ∃ r ∈ R, r <:+: x)) ↔ NoneHidden R := by
  constructor
  · intro h u hu hne ⟨r, hr, hsuffix⟩
    obtain ⟨y, hy, hyne, r', hr', hlongest⟩ := (h u (hS hu) hne).2 ⟨r, hr, hsuffix.isInfix⟩
    have heq : y = r' := hlongest.unique (.self (prefixClosed_prefixesOf R u hu y hy))
    exact ⟨r', hr', heq ▸ hyne, heq ▸ hy⟩
  · refine fun h x _ hx => ⟨Hits.contains, ?_⟩
    rintro ⟨r, hr, s, t, rfl⟩
    by_cases hsr : s ++ r = []
    · -- The empty keyword, which is a suffix of the first letter.
      obtain ⟨-, rfl⟩ := List.append_eq_nil_iff.1 hsr
      obtain ⟨a, x, heq⟩ := List.exists_cons_of_ne_nil hx
      rw [heq]
      obtain ⟨u, hu⟩ := exists_isLongestSuffix nil_mem_prefixesOf [a]
      exact hits_of_suffix h _ (List.prefix_append [a] x) (List.cons_ne_nil a []) hu le_rfl hr
        List.nil_suffix
    · obtain ⟨u, hu⟩ := exists_isLongestSuffix nil_mem_prefixesOf (s ++ r)
      exact hits_of_suffix h _ (List.prefix_append _ t) hsr hu le_rfl hr (List.suffix_append s r)
