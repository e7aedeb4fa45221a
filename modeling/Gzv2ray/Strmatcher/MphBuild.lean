import Gzv2ray.Strmatcher.MphMatcher

/-!
# Building the tables

The seeds of the buckets give each rule a place that has its index. A place that was taken is
not written again, and the places of a seed that fails are given back.

* `Attempt`: what a seed does to the tables;
* `Placed`: the rules of some buckets have their places;
* `placeAll_placed`, `placeAll_returns`: all buckets get a seed, if one is found for each.
-/

namespace Gzv2ray.Strmatcher

/-! ## The places of a bucket -/

/-- Places were taken, which were free before. -/
structure Attempt (t₀ : Tables) (tmpOcc : List ℕ) (t : Tables) : Prop where
  free : ∀ n ∈ tmpOcc, t₀.occ n = false
  occ_iff : ∀ n, t.occ n = true ↔ t₀.occ n = true ∨ n ∈ tmpOcc
  level0_eq : t.level0 = t₀.level0
  level1_eq : ∀ n, t₀.occ n = true → t.level1 n = t₀.level1 n

theorem Attempt.refl (t : Tables) : Attempt t [] t where
  free _ h := absurd h List.not_mem_nil
  occ_iff _ := (or_iff_left List.not_mem_nil).symm
  level0_eq := rfl
  level1_eq _ _ := rfl

variable {slot : ℕ → ℕ} {t₀ t t' : Tables} {vals tmpOcc : List ℕ}

/-- A free place is taken. -/
theorem Attempt.take (h : Attempt t₀ tmpOcc t) {n : ℕ} (hn : t.occ n = false) (i : UInt32) :
    Attempt t₀ (tmpOcc ++ [n])
      { t with
        occ := Function.update t.occ n true
        level1 := Function.update t.level1 n i } := by
  have hn₀ : t₀.occ n = false := by
    rw [Bool.eq_false_iff] at hn ⊢
    exact fun ht => hn ((h.occ_iff n).2 (.inl ht))
  refine ⟨fun m hm => ?_, fun m => ?_, h.level0_eq, fun m hm => ?_⟩
  · rcases List.mem_append.1 hm with hm | hm
    · exact h.free m hm
    · exact List.mem_singleton.1 hm ▸ hn₀
  · rw [List.mem_append, List.mem_singleton, ← or_assoc, ← h.occ_iff m]
    by_cases hmn : m = n
    · simp [hmn]
    · simp [hmn]
  · have hmn : m ≠ n := fun heq => by
      rw [heq, hn₀] at hm
      cases hm
    exact (Function.update_of_ne hmn _ _).trans (h.level1_eq m hm)

/-- The places of a seed that fails are free again. -/
theorem Attempt.giveBack (h : Attempt t₀ tmpOcc t) : Attempt t₀ []
    { t with occ := tmpOcc.foldl (fun occ n => Function.update occ n false) t.occ } := by
  have hfold : ∀ (l : List ℕ) (occ : ℕ → Bool) (n : ℕ),
      l.foldl (fun occ n => Function.update occ n false) occ n = true ↔ occ n = true ∧ n ∉ l := by
    intro l
    induction l with
    | nil => simp
    | cons m l ih =>
      intro occ n
      rw [List.foldl_cons, ih, List.mem_cons, not_or]
      by_cases hnm : n = m
      · simp [hnm]
      · simp [hnm]
  refine ⟨fun _ hn => absurd hn List.not_mem_nil, fun n => ?_, h.level0_eq, h.level1_eq⟩
  rw [hfold, h.occ_iff]
  constructor
  · rintro ⟨hn | hn, hnot⟩
    · exact .inl hn
    · exact absurd hn hnot
  · rintro (hn | hn)
    · refine ⟨.inl hn, fun hmem => ?_⟩
      rw [h.free n hmem] at hn
      cases hn
    · exact absurd hn List.not_mem_nil

theorem place_of_false (h : Attempt t₀ tmpOcc t) (hplace : place slot vals tmpOcc t = (false, t')) :
    Attempt t₀ [] t' := by
  induction vals generalizing tmpOcc t with
  | nil => cases hplace
  | cons i vals ih =>
    rw [place] at hplace
    split_ifs at hplace with hocc
    · obtain rfl := (Prod.mk.inj hplace).2
      exact h.giveBack
    · exact ih (h.take (Bool.eq_false_iff.2 hocc) _) hplace

theorem place_of_true (h : Attempt t₀ tmpOcc t) (hplace : place slot vals tmpOcc t = (true, t')) :
    Attempt t₀ (tmpOcc ++ vals.map slot) t' ∧ (∀ n, t.occ n = true → t'.level1 n = t.level1 n) ∧
      ∀ i ∈ vals, t'.level1 (slot i) = .ofNat i := by
  induction vals generalizing tmpOcc t with
  | nil =>
    obtain rfl := (Prod.mk.inj hplace).2
    rw [List.map_nil, List.append_nil]
    exact ⟨h, fun _ _ => rfl, fun _ hi => absurd hi List.not_mem_nil⟩
  | cons i vals ih =>
    rw [place] at hplace
    split_ifs at hplace with hocc
    · cases (Prod.mk.inj hplace).1
    · obtain ⟨hattempt, hold, hnew⟩ := ih (h.take (Bool.eq_false_iff.2 hocc) (.ofNat i)) hplace
      rw [List.append_assoc, List.singleton_append] at hattempt
      refine ⟨hattempt, fun n hn => ?_, fun j hj => ?_⟩
      · have hne : n ≠ slot i := fun heq => hocc (heq ▸ hn)
        rw [hold n ((Function.update_of_ne hne _ _).trans hn)]
        exact Function.update_of_ne hne _ _
      · rcases List.mem_cons.1 hj with rfl | hj
        · rw [hold _ (Function.update_self ..)]
          exact Function.update_self ..
        · exact hnew j hj

/-- The rules of a bucket get their places if these are free, and one for each. -/
theorem place_returns (tmpOcc : List ℕ) (hfree : ∀ i ∈ vals, t.occ (slot i) = false)
    (hnodup : (vals.map slot).Nodup) : ∃ t', place slot vals tmpOcc t = (true, t') := by
  induction vals generalizing tmpOcc t with
  | nil => exact ⟨t, rfl⟩
  | cons i vals ih =>
    rw [List.map_cons, List.nodup_cons] at hnodup
    rw [place, if_neg (Bool.eq_false_iff.1 (hfree i List.mem_cons_self))]
    refine ih _ (fun j hj => ?_) hnodup.2
    have hne : slot j ≠ slot i := fun heq => hnodup.1 (heq ▸ List.mem_map_of_mem hj)
    exact (Function.update_of_ne hne _ _).trans (hfree j (List.mem_cons_of_mem i hj))

/-- The indices in the second table are those of rules. -/
theorem place_level1 {p : UInt32 → Prop} (h : ∀ n, p (t.level1 n)) (hvals : ∀ i ∈ vals, p (.ofNat i))
    (n : ℕ) : p ((place slot vals tmpOcc t).2.level1 n) := by
  induction vals generalizing tmpOcc t with
  | nil => exact h n
  | cons i vals ih =>
    rw [place]
    split_ifs with hocc
    · exact h n
    · refine ih (fun m => ?_) fun j hj => hvals j (List.mem_cons_of_mem i hj)
      by_cases hm : m = slot i
      · simp only [hm, Function.update_self]
        exact hvals i List.mem_cons_self
      · simp only [Function.update_of_ne hm]
        exact h m

/-! ## The seeds of the buckets -/

section Seeds

variable {slot : UInt32 → ℕ → ℕ} {fuel : ℕ}

theorem findSeed_spec {seed seed' : UInt32} (h : Attempt t₀ [] t)
    (hfind : findSeed slot vals fuel seed t = some (seed', t')) :
    Attempt t₀ (vals.map (slot seed')) t' ∧ ∀ i ∈ vals, t'.level1 (slot seed' i) = .ofNat i := by
  induction fuel generalizing seed t with
  | zero => cases hfind
  | succ fuel ih =>
    rw [findSeed] at hfind
    rcases hplace : place (slot seed) vals [] t with ⟨_ | _, t₁⟩
    · rw [hplace] at hfind
      exact ih (place_of_false h hplace) hfind
    · rw [hplace] at hfind
      obtain ⟨rfl, rfl⟩ := Prod.mk.inj (Option.some.inj hfind)
      obtain ⟨hattempt, -, hnew⟩ := place_of_true h hplace
      exact ⟨hattempt, hnew⟩

/-- The rules of the buckets have their places. -/
def Placed (slot : UInt32 → ℕ → ℕ) (buckets : List IndexBucket) (t : Tables) : Prop :=
  ∀ b ∈ buckets, ∀ i ∈ b.vals,
    t.occ (slot (t.level0 b.n) i) = true ∧ t.level1 (slot (t.level0 b.n) i) = .ofNat i

/-- A bucket gets its seed, and the places of the others are left as they are. -/
theorem Placed.concat {buckets : List IndexBucket} {b : IndexBucket} {seed : UInt32}
    (h : Placed slot buckets t) (hb : ∀ b' ∈ buckets, b'.n ≠ b.n)
    (hattempt : Attempt t (b.vals.map (slot seed)) t')
    (hnew : ∀ i ∈ b.vals, t'.level1 (slot seed i) = .ofNat i) :
    Placed slot (buckets ++ [b]) { t' with level0 := Function.update t'.level0 b.n seed } := by
  intro b' hb' i hi
  rcases List.mem_append.1 hb' with hb' | hb'
  · obtain ⟨hocc, hlevel⟩ := h b' hb' i hi
    have heq : Function.update t'.level0 b.n seed b'.n = t.level0 b'.n :=
      (Function.update_of_ne (hb b' hb') _ _).trans (congrFun hattempt.level0_eq b'.n)
    simp only [heq]
    exact ⟨(hattempt.occ_iff _).2 (.inl hocc), (hattempt.level1_eq _ hocc).trans hlevel⟩
  · obtain rfl := List.mem_singleton.1 hb'
    simp only [Function.update_self]
    exact ⟨(hattempt.occ_iff _).2 (.inr (List.mem_map_of_mem hi)), hnew i hi⟩

theorem placeAll_placed {done buckets : List IndexBucket} (h : Placed slot done t)
    (hnodup : ((done ++ buckets).map IndexBucket.n).Nodup)
    (hplace : placeAll slot fuel buckets t = some t') : Placed slot (done ++ buckets) t' := by
  induction buckets generalizing done t with
  | nil =>
    obtain rfl := Option.some.inj hplace
    rwa [List.append_nil]
  | cons b buckets ih =>
    rw [placeAll, Option.bind_eq_some_iff] at hplace
    obtain ⟨⟨seed, t₁⟩, hfind, hplace⟩ := hplace
    obtain ⟨hattempt, hnew⟩ := findSeed_spec (.refl t) hfind
    rw [← List.singleton_append, ← List.append_assoc] at hnodup ⊢
    refine ih (h.concat (fun b' hb' heq => ?_) hattempt hnew) hnodup hplace
    rw [List.map_append, List.map_append] at hnodup
    have hdisjoint := List.disjoint_of_nodup_append hnodup.of_append_left
    exact hdisjoint (List.mem_map_of_mem hb') (by rw [heq]; exact List.mem_singleton_self _)

theorem findSeed_level1 {p : UInt32 → Prop} {seed seed' : UInt32} (h : ∀ n, p (t.level1 n))
    (hvals : ∀ i ∈ vals, p (.ofNat i))
    (hfind : findSeed slot vals fuel seed t = some (seed', t')) (n : ℕ) : p (t'.level1 n) := by
  induction fuel generalizing seed t with
  | zero => cases hfind
  | succ fuel ih =>
    have hplace : ∀ n, p ((place (slot seed) vals [] t).2.level1 n) := place_level1 h hvals
    rw [findSeed] at hfind
    generalize place (slot seed) vals [] t = r at hplace hfind
    obtain ⟨_ | _, t₁⟩ := r
    · exact ih hplace hfind
    · obtain ⟨-, rfl⟩ := Prod.mk.inj (Option.some.inj hfind)
      exact hplace n

theorem placeAll_level1 {p : UInt32 → Prop} {buckets : List IndexBucket} (h : ∀ n, p (t.level1 n))
    (hvals : ∀ b ∈ buckets, ∀ i ∈ b.vals, p (.ofNat i))
    (hplace : placeAll slot fuel buckets t = some t') (n : ℕ) : p (t'.level1 n) := by
  induction buckets generalizing t with
  | nil => exact Option.some.inj hplace ▸ h n
  | cons b buckets ih =>
    rw [placeAll, Option.bind_eq_some_iff] at hplace
    obtain ⟨⟨seed, t₁⟩, hfind, hplace⟩ := hplace
    refine ih ?_ (fun b' hb' => hvals b' (List.mem_cons_of_mem b hb')) hplace
    exact fun n => findSeed_level1 h (hvals b List.mem_cons_self) hfind n

/-- If the first seed gives places one for each rule, it is found for all buckets. -/
theorem placeAll_returns (fuel : ℕ) {home : ℕ → ℕ} {len : ℕ} {done buckets : List IndexBucket}
    (hvals : ∀ b ∈ done ++ buckets, b.vals.Nodup ∧ ∀ i ∈ b.vals, i < len ∧ home i = b.n)
    (hnodup : ((done ++ buckets).map IndexBucket.n).Nodup)
    (hinj : ∀ i < len, ∀ j < len, slot 0 i = slot 0 j → i = j)
    (hocc : ∀ n, t.occ n = true → ∃ b ∈ done, ∃ i ∈ b.vals, slot 0 i = n) :
    ∃ t', placeAll slot (fuel + 1) buckets t = some t' := by
  induction buckets generalizing done t with
  | nil => exact ⟨t, rfl⟩
  | cons b buckets ih =>
    obtain ⟨hb, hmem⟩ := hvals b (List.mem_append_right done List.mem_cons_self)
    have hne : ∀ b' ∈ done, b'.n ≠ b.n := fun b' hb' heq => by
      rw [List.map_append, List.map_cons] at hnodup
      exact List.disjoint_of_nodup_append hnodup (List.mem_map_of_mem hb')
        (heq ▸ List.mem_cons_self)
    have hfree : ∀ i ∈ b.vals, t.occ (slot 0 i) = false := by
      intro i hi
      rw [Bool.eq_false_iff]
      intro ht
      obtain ⟨b', hb', j, hj, heq⟩ := hocc _ ht
      obtain ⟨hj', hhome⟩ := (hvals b' (List.mem_append_left _ hb')).2 j hj
      obtain rfl := hinj j hj' i (hmem i hi).1 heq
      exact hne b' hb' (hhome.symm.trans (hmem j hi).2)
    have hslots : (b.vals.map (slot 0)).Nodup :=
      hb.map_on fun i hi j hj heq => hinj i (hmem i hi).1 j (hmem j hj).1 heq
    obtain ⟨t₁, hplace⟩ := place_returns [] hfree hslots
    have hattempt := (place_of_true (.refl t) hplace).1
    rw [placeAll, findSeed, hplace]
    rw [← List.singleton_append, ← List.append_assoc] at hvals hnodup
    refine ih hvals hnodup fun n hn => ?_
    rcases (hattempt.occ_iff n).1 hn with hn | hn
    · obtain ⟨b', hb', i, hi, heq⟩ := hocc n hn
      exact ⟨b', List.mem_append_left _ hb', i, hi, heq⟩
    · obtain ⟨i, hi, heq⟩ := List.mem_map.1 hn
      exact ⟨b, List.mem_append_right _ (List.mem_singleton_self b), i, hi, heq⟩

end Seeds

/-! ## The buckets -/

theorem sparseBuckets_eq (mask : ℕ) (hashes : List UInt32) (idx : ℕ) (sparse : ℕ → List ℕ)
    (n : ℕ) : sparseBuckets mask hashes idx sparse n = sparse n ++
      (hashes.zipIdx idx).filterMap fun (hash, i) =>
        if hash.toNat &&& mask = n then some i else none := by
  induction hashes generalizing idx sparse with
  | nil => exact (List.append_nil _).symm
  | cons hash hashes ih =>
    rw [sparseBuckets, ih, List.zipIdx_cons, List.filterMap_cons]
    by_cases hn : hash.toNat &&& mask = n
    · simp [hn]
    · simp [hn, Function.update_of_ne (Ne.symm hn)]

theorem mem_sparseBuckets {mask : ℕ} {hashes : List UInt32} {n i : ℕ} :
    i ∈ sparseBuckets mask hashes 0 (fun _ => []) n ↔
      ∃ hash, hashes[i]? = some hash ∧ hash.toNat &&& mask = n := by
  rw [sparseBuckets_eq, List.nil_append, List.mem_filterMap]
  constructor
  · rintro ⟨⟨hash, j⟩, hmem, heq⟩
    simp only [Option.ite_none_right_eq_some, Option.some.injEq] at heq
    obtain ⟨hn, rfl⟩ := heq
    exact ⟨hash, List.mk_mem_zipIdx_iff_getElem?.1 hmem, hn⟩
  · rintro ⟨hash, hmem, hn⟩
    exact ⟨(hash, i), List.mk_mem_zipIdx_iff_getElem?.2 hmem, if_pos hn⟩

theorem nodup_sparseBuckets (mask : ℕ) (hashes : List UInt32) (n : ℕ) :
    (sparseBuckets mask hashes 0 (fun _ => []) n).Nodup := by
  rw [sparseBuckets_eq, List.nil_append, List.Nodup, List.pairwise_filterMap]
  have hindices : (hashes.zipIdx.map Prod.snd).Nodup := by
    rw [List.zipIdx_map_snd]
    exact List.nodup_range'
  rw [List.Nodup, List.pairwise_map] at hindices
  refine hindices.imp fun {e e'} hne i hi j hj => ?_
  simp only [Option.ite_none_right_eq_some, Option.some.injEq] at hi hj
  rw [← hi.2, ← hj.2]
  exact hne

theorem nextPow2_eq (v : ℕ) : ∃ k, nextPow2 v = 2 ^ k := by
  rw [nextPow2]
  split_ifs
  · exact ⟨0, rfl⟩
  · refine ⟨64 - leadingZeros v, ?_⟩
    have hshift : (2 ^ 64 - 1) >>> leadingZeros v = 2 ^ (64 - leadingZeros v) - 1 := by
      refine Nat.eq_of_testBit_eq fun i => ?_
      rw [Nat.testBit_shiftRight, Nat.testBit_two_pow_sub_one, Nat.testBit_two_pow_sub_one,
        decide_eq_decide]
      omega
    rw [hshift, Nat.sub_add_cancel Nat.one_le_two_pow]

theorem and_nextPow2_lt (n v : ℕ) : n &&& (nextPow2 v - 1) < nextPow2 v := by
  obtain ⟨k, hk⟩ := nextPow2_eq v
  rw [hk, Nat.and_two_pow_sub_one_eq_mod]
  exact Nat.mod_lt n (Nat.two_pow_pos k)

theorem mem_denseBuckets {len : ℕ} {sparse : ℕ → List ℕ} {b : IndexBucket} :
    b ∈ denseBuckets len sparse ↔ b.n < len ∧ b.vals = sparse b.n ∧ 0 < b.vals.length := by
  obtain ⟨n, vals⟩ := b
  simp only [denseBuckets, List.mem_filterMap, List.mem_range, Option.ite_none_right_eq_some,
    Option.some.injEq, IndexBucket.mk.injEq]
  constructor
  · rintro ⟨m, hm, hpos, rfl, rfl⟩
    exact ⟨hm, rfl, hpos⟩
  · rintro ⟨hm, rfl, hpos⟩
    exact ⟨n, hm, hpos, rfl, rfl⟩

theorem nodup_denseBuckets (len : ℕ) (sparse : ℕ → List ℕ) :
    ((denseBuckets len sparse).map IndexBucket.n).Nodup := by
  rw [denseBuckets, List.Nodup, List.pairwise_map, List.pairwise_filterMap]
  refine List.nodup_range.imp fun {m m'} hne b hb b' hb' => ?_
  simp only [Option.ite_none_right_eq_some, Option.some.injEq] at hb hb'
  rw [← hb.2, ← hb'.2]
  exact hne

/-- The buckets of some hashes. -/
def bucketsOf (v : ℕ) (hashes : List UInt32) : List IndexBucket :=
  denseBuckets (nextPow2 v) (sparseBuckets (nextPow2 v - 1) hashes 0 fun _ => [])

theorem bucketsOf_vals {v : ℕ} {hashes : List UInt32} {b : IndexBucket}
    (hb : b ∈ bucketsOf v hashes) : b.vals.Nodup ∧ ∀ i ∈ b.vals, i < hashes.length ∧
      (hashes.getD i 0).toNat &&& (nextPow2 v - 1) = b.n := by
  obtain ⟨-, hvals, -⟩ := mem_denseBuckets.1 hb
  rw [hvals]
  refine ⟨nodup_sparseBuckets .., fun i hi => ?_⟩
  obtain ⟨hash, hget, hn⟩ := mem_sparseBuckets.1 hi
  refine ⟨(List.getElem?_eq_some_iff.1 hget).1, ?_⟩
  rw [List.getD_eq_getElem?_getD, hget]
  exact hn

/-- Each hash has a bucket. -/
theorem exists_bucket {v : ℕ} {hashes : List UInt32} {i : ℕ} {hash : UInt32}
    (hi : hashes[i]? = some hash) : ∃ b ∈ bucketsOf v hashes,
      b.n = hash.toNat &&& (nextPow2 v - 1) ∧ i ∈ b.vals := by
  have hmem : i ∈ sparseBuckets (nextPow2 v - 1) hashes 0 (fun _ => [])
      (hash.toNat &&& (nextPow2 v - 1)) := mem_sparseBuckets.2 ⟨hash, hi, rfl⟩
  exact ⟨⟨hash.toNat &&& (nextPow2 v - 1), _⟩,
    mem_denseBuckets.2 ⟨and_nextPow2_lt _ v, rfl, List.length_pos_of_mem hmem⟩, rfl, hmem⟩

end Gzv2ray.Strmatcher
