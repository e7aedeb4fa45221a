import Mathlib.Data.List.Infix
import Mathlib.Data.List.Nodup
import Mathlib.Data.List.TakeWhile

/-!
# First occurrences

The entries of a list, each where it occurs first (`List.eraseDups`), and the *ranking* that
puts them before some others (`ranking`).

* `eraseDups_concat`: a list that is read entry by entry;
* `ranking_map_eq_iff`: if entries are renamed into a set that the renaming keeps, then the
  ranking is the same exactly when the renamed entries come last, are renamed to earlier
  entries, and are those that the others begin with anyway.
-/

namespace List

variable {α : Type*} [DecidableEq α]

theorem eraseDups_concat (l : List α) (a : α) :
    (l ++ [a]).eraseDups = if a ∈ l then l.eraseDups else l.eraseDups ++ [a] := by
  rw [eraseDups_append]
  by_cases ha : a ∈ l
  · have hremoved : [a].removeAll l = [] :=
      filter_eq_nil_iff.2 fun b hb => by rw [mem_singleton.1 hb]; simpa using ha
    rw [if_pos ha, hremoved, eraseDups_nil, append_nil]
  · have hkept : [a].removeAll l = [a] :=
      filter_eq_self.2 fun b hb => by rw [mem_singleton.1 hb]; simpa using ha
    rw [if_neg ha, hkept]
    rfl

theorem nodup_eraseDups (l : List α) : l.eraseDups.Nodup := by
  induction l using reverseRecOn with
  | nil => exact nodup_nil
  | append_singleton l a ih =>
    rw [eraseDups_concat]
    by_cases ha : a ∈ l
    · rwa [if_pos ha]
    · rw [if_neg ha, ← concat_eq_append]
      exact ih.concat fun h => ha (mem_eraseDups.1 h)

theorem eraseDups_eq_self {l : List α} (h : l.Nodup) : l.eraseDups = l := by
  induction l using reverseRecOn with
  | nil => rfl
  | append_singleton l a ih =>
    obtain ⟨hl, -, hdisjoint⟩ := nodup_append.1 h
    have ha : a ∉ l := fun ha => hdisjoint a ha a (mem_singleton_self a) rfl
    rw [eraseDups_concat, if_neg ha, ih hl]

/-- A renamed list has the same first occurrences if its repetitions are left out before. -/
theorem eraseDups_map_eraseDups (f : α → α) (l : List α) :
    (l.eraseDups.map f).eraseDups = (l.map f).eraseDups := by
  induction l using reverseRecOn with
  | nil => rfl
  | append_singleton l a ih =>
    rw [eraseDups_concat, map_append, map_singleton, eraseDups_concat]
    by_cases ha : a ∈ l
    · rw [if_pos ha, if_pos (mem_map_of_mem ha), ih]
    · have hmem : f a ∈ l.eraseDups.map f ↔ f a ∈ l.map f := by
        simp only [mem_map, mem_eraseDups]
      rw [if_neg ha, map_append, map_singleton, eraseDups_concat, ih, if_congr hmem rfl rfl]

end List

/-- Some entries, each where it occurs first, and then those of the others that are not among
    them. -/
def ranking {α : Type*} [DecidableEq α] (first others : List α) : List α :=
  first.eraseDups ++ others.filter fun a => a ∉ first

section

variable {α : Type*} [DecidableEq α] {first others : List α}

theorem ranking_eq_eraseDups (h : others.Nodup) :
    ranking first others = (first ++ others).eraseDups := by
  have hremoved : others.removeAll first = others.filter fun a => a ∉ first :=
    List.filter_congr fun a _ => by simp
  rw [List.eraseDups_append, hremoved, List.eraseDups_eq_self (h.filter _), ranking]

theorem nodup_ranking (h : others.Nodup) : (ranking first others).Nodup := by
  rw [ranking_eq_eraseDups h]
  exact List.nodup_eraseDups _

/-- What a renaming does not show of: the entries that it keeps come before those that it
    does not, it makes one of the former of each of the latter, and these are those that the
    others begin with. -/
structure IsUnseen (kept : α → Prop) (f : α → α) (first others early late : List α) : Prop where
  eraseDups_eq : first.eraseDups = early ++ late
  kept_early : ∀ a ∈ early, kept a
  not_kept_late : ∀ a ∈ late, ¬ kept a
  map_late : ∀ a ∈ late, f a ∈ early
  prefix_others : late <+: others.filter fun a => a ∉ early

variable {kept : α → Prop} {f : α → α}

theorem IsUnseen.mem_first {early late : List α} (h : IsUnseen kept f first others early late)
    (a : α) : a ∈ first ↔ a ∈ early ∨ a ∈ late := by
  rw [← List.mem_eraseDups, h.eraseDups_eq, List.mem_append]

/-- The entries of the renamed list: none of them is new. -/
theorem IsUnseen.mem_map (hkept : ∀ a, kept a → f a = a) {early late : List α}
    (h : IsUnseen kept f first others early late) (a : α) : a ∈ first.map f ↔ a ∈ early := by
  rw [List.mem_map]
  constructor
  · rintro ⟨b, hb, rfl⟩
    rcases (h.mem_first b).1 hb with hb | hb
    · rwa [hkept b (h.kept_early b hb)]
    · exact h.map_late b hb
  · intro ha
    exact ⟨a, (h.mem_first a).2 (.inl ha), hkept a (h.kept_early a ha)⟩

theorem IsUnseen.eraseDups_map (hkept : ∀ a, kept a → f a = a) {early late : List α}
    (h : IsUnseen kept f first others early late) : (first.map f).eraseDups = early := by
  have hearly : early.map f = early := by
    conv_rhs => rw [← List.map_id early]
    exact List.map_congr_left fun a ha => hkept a (h.kept_early a ha)
  have hnodup : early.Nodup :=
    (List.nodup_append.1 (h.eraseDups_eq ▸ List.nodup_eraseDups first)).1
  have hlate : (late.map f).removeAll early = [] := by
    refine List.filter_eq_nil_iff.2 fun a ha => ?_
    obtain ⟨b, hb, rfl⟩ := List.mem_map.1 ha
    simpa using h.map_late b hb
  rw [← List.eraseDups_map_eraseDups, h.eraseDups_eq, List.map_append, hearly,
    List.eraseDups_append, hlate, List.eraseDups_nil, List.append_nil,
    List.eraseDups_eq_self hnodup]

theorem IsUnseen.ranking_map (hkept : ∀ a, kept a → f a = a) (hothers : others.Nodup)
    {early late : List α} (h : IsUnseen kept f first others early late) :
    ranking (first.map f) others = ranking first others := by
  obtain ⟨rest, hrest⟩ := h.prefix_others
  have hnodup : (late ++ rest).Nodup := hrest ▸ hothers.filter _
  -- Of the others that are left, those that come last are not to be put first.
  have hlater : others.filter (fun a => a ∉ first) = rest := by
    have hsplit : others.filter (fun a => a ∉ first) =
        (others.filter fun a => a ∉ early).filter fun a => a ∉ late := by
      rw [List.filter_filter]
      refine List.filter_congr fun a _ => ?_
      simp [h.mem_first a, Bool.and_comm]
    have hlate : late.filter (fun a => a ∉ late) = [] :=
      List.filter_eq_nil_iff.2 fun a ha => by simpa using ha
    have hkeep : rest.filter (fun a => a ∉ late) = rest :=
      List.filter_eq_self.2 fun a ha => by
        simpa using fun hmem => List.disjoint_of_nodup_append hnodup hmem ha
    rw [hsplit, ← hrest, List.filter_append, hlate, hkeep, List.nil_append]
  have hleft : others.filter (fun a => a ∉ first.map f) = others.filter fun a => a ∉ early :=
    List.filter_congr fun a _ => by rw [decide_eq_decide, not_congr (h.mem_map hkept a)]
  rw [ranking, ranking, h.eraseDups_map hkept, hleft, ← hrest, hlater, h.eraseDups_eq,
    List.append_assoc]

/-- Two rankings are the same. What comes before the first entry that is not kept is then
    all that the renamed list has. -/
theorem eraseDups_map_of_ranking_eq (hkept : ∀ a, kept a → f a = a) (hf : ∀ a, kept (f a))
    {early late : List α} {c : α} (hsplit : first.eraseDups = early ++ c :: late)
    (hearly : ∀ a ∈ early, kept a) (hc : ¬ kept c)
    (heq : ranking (first.map f) others = ranking first others) :
    (first.map f).eraseDups = early := by
  have hrenamed (a : α) (ha : a ∈ (first.map f).eraseDups) : kept a := by
    obtain ⟨b, -, rfl⟩ := List.mem_map.1 (List.mem_eraseDups.1 ha)
    exact hf b
  have hleft : (first.map f).eraseDups <+: ranking first others := heq ▸ List.prefix_append _ _
  have hright : early ++ [c] <+: ranking first others := by
    rw [ranking, hsplit]
    exact ⟨late ++ others.filter fun a => a ∉ first, by simp⟩
  -- The entry that is not kept cannot be among the renamed ones.
  have hprefix : (first.map f).eraseDups <+: early := by
    rcases Nat.lt_or_ge early.length (first.map f).eraseDups.length with hlt | hge
    · have hinside : early ++ [c] <+: (first.map f).eraseDups :=
        List.prefix_of_prefix_length_le hright hleft (by rw [List.length_append]; exact hlt)
      exact absurd (hrenamed c (hinside.subset (by simp))) hc
    · exact List.prefix_of_prefix_length_le hleft ((List.prefix_append _ _).trans hright) hge
  obtain ⟨rest, hrest⟩ := hprefix
  cases rest with
  | nil => rwa [List.append_nil] at hrest
  | cons a rest =>
    have ha : a ∈ early := hrest ▸ List.mem_append_right _ List.mem_cons_self
    have hmem : a ∈ first :=
      List.mem_eraseDups.1 (hsplit ▸ List.mem_append_left _ ha)
    have hmap : a ∈ (first.map f).eraseDups :=
      List.mem_eraseDups.2 (List.mem_map.2 ⟨a, hmem, hkept a (hearly a ha)⟩)
    have hnodup : ((first.map f).eraseDups ++ a :: rest).Nodup := by
      rw [hrest]
      exact (List.nodup_append.1 (hsplit ▸ List.nodup_eraseDups first)).1
    exact absurd List.mem_cons_self (List.disjoint_of_nodup_append hnodup hmap)

/-- Entries are renamed to such that the renaming keeps. The ranking is the same exactly if the
    renaming is not seen in it. -/
theorem ranking_map_eq_iff [DecidablePred kept] (hkept : ∀ a, kept a → f a = a)
    (hf : ∀ a, kept (f a)) (hothers : others.Nodup) :
    ranking (first.map f) others = ranking first others ↔
      ∃ early late, IsUnseen kept f first others early late := by
  refine ⟨fun heq => ?_, fun ⟨early, late, h⟩ => h.ranking_map hkept hothers⟩
  obtain ⟨early, late, hsplit, hearly, hlate⟩ : ∃ early late, first.eraseDups = early ++ late ∧
      (∀ a ∈ early, kept a) ∧ ∀ c ∈ late.head?, ¬ kept c := by
    refine ⟨first.eraseDups.takeWhile (kept ·), first.eraseDups.dropWhile (kept ·),
      (List.takeWhile_append_dropWhile ..).symm, fun a ha => ?_, fun c hc => ?_⟩
    · simpa using List.mem_takeWhile_imp ha
    · have hnot := List.head?_dropWhile_not (kept ·) first.eraseDups
      rw [Option.mem_def.1 hc] at hnot
      simpa using hnot
  cases late with
  | nil =>
    exact ⟨early, [], hsplit, hearly, by simp, by simp, List.nil_prefix⟩
  | cons c late =>
    have hmap := eraseDups_map_of_ranking_eq hkept hf hsplit hearly (hlate c rfl) heq
    have hmem (a : α) : a ∈ first.map f ↔ a ∈ early := by rw [← hmap, List.mem_eraseDups]
    have hfirst (a : α) (ha : a ∈ c :: late) : a ∈ first :=
      List.mem_eraseDups.1 (hsplit ▸ List.mem_append_right _ ha)
    have hnodup : (early ++ c :: late).Nodup := hsplit ▸ List.nodup_eraseDups first
    refine ⟨early, c :: late, hsplit, hearly, fun a ha hka => ?_, fun a ha => ?_, ?_⟩
    · have hin : a ∈ early := (hmem a).1 (List.mem_map.2 ⟨a, hfirst a ha, hkept a hka⟩)
      exact List.disjoint_of_nodup_append hnodup hin ha
    · exact (hmem (f a)).1 (List.mem_map_of_mem (hfirst a ha))
    · have hleft : others.filter (fun a => a ∉ first.map f) = others.filter fun a => a ∉ early :=
        List.filter_congr fun a _ => by rw [decide_eq_decide, not_congr (hmem a)]
      rw [ranking, ranking, hmap, hsplit, List.append_assoc, List.append_cancel_left_eq,
        hleft] at heq
      exact ⟨_, heq.symm⟩

end
