import Gzv2ray.Strmatcher.MphBuild

/-!
# Looking up rules

In a group that was built, a string is found if the tables lead to it. The tables lead from each
rule to its index, which has 32 bits there.

* `MphMatcherGroup.lookup_rule`: what is found of a rule;
* `MphMatcherGroup.matchIds_right_iff`: exactly the rules are found if and only if all their
  indices have 32 bits.
-/

namespace Gzv2ray.Strmatcher.MphMatcherGroup

variable {g b : MphMatcherGroup} {adds : List (Bytes × MatcherType)} {c : Choices} {fuel : ℕ}

/-- The rules of a group in the order in which it is built. -/
def rulesOf (g : MphMatcherGroup) (c : Choices) : List Bytes :=
  (c.iterate g.ruleMap).map Sigma.fst

theorem mem_rulesOf (h : g.IsGroupOf adds) {u : Bytes} : u ∈ g.rulesOf c ↔ IsRule adds u := by
  rw [← h.mem_iff, rulesOf, ((c.iterate_perm g.ruleMap).map Sigma.fst).mem_iff]
  rfl

theorem nodup_rulesOf (g : MphMatcherGroup) (c : Choices) : (g.rulesOf c).Nodup :=
  ((c.iterate_perm g.ruleMap).map Sigma.fst).nodup_iff.2 g.ruleMap.nodupKeys

theorem length_rulesOf (g : MphMatcherGroup) (c : Choices) :
    (g.rulesOf c).length = g.ruleMap.keys.length := by
  rw [rulesOf, ((c.iterate_perm g.ruleMap).map Sigma.fst).length_eq]
  rfl

theorem hash_of_iterate (h : g.IsGroupOf adds) :
    (c.iterate g.ruleMap).map Sigma.snd = (g.rulesOf c).map rollingHash := by
  rw [rulesOf, List.map_map]
  exact List.map_congr_left fun e he => h.hash e ((c.iterate_perm g.ruleMap).mem_iff.1 he)

/-- The tables of a group that is built, for all its rules. -/
structure IsBuilt (g : MphMatcherGroup) (c : Choices) (b : MphMatcherGroup) : Prop where
  ac : b.ac = none
  otherMatchers : b.otherMatchers = []
  rules : b.rules = g.rulesOf c
  level1_lt : ∀ n, (b.level1 n).toNat < (g.rulesOf c).length
  level1_eq : ∀ i rule, (g.rulesOf c)[i]? = some rule →
    b.level1 ((strhashFallback rule
        (b.level0 ((rollingHash rule).toNat &&& b.level0Mask)).toUInt64).toNat &&& b.level1Mask) =
      .ofNat i

theorem build_eq (h : g.IsGroupOf adds) (hne : g.ruleMap.entries ≠ []) :
    g.build c fuel =
      (placeAll (slot (g.rulesOf c) (nextPow2 g.ruleMap.entries.length - 1)) fuel
        (c.sort (bucketsOf (g.ruleMap.entries.length / 4) ((g.rulesOf c).map rollingHash))) {}).map
      fun t => { g with
        ac := none
        rules := g.rulesOf c
        level0Mask := nextPow2 (g.ruleMap.entries.length / 4) - 1
        level1Mask := nextPow2 g.ruleMap.entries.length - 1
        level0 := t.level0
        level1 := t.level1
        ruleMap := ∅ } := by
  simp only [build, h.ac, buildAc, Option.bind_some, if_neg hne, h.rules, List.nil_append,
    hash_of_iterate h]
  rfl

theorem isBuilt (h : g.IsGroupOf adds) (hne : g.ruleMap.entries ≠ [])
    (hbuild : g.build c fuel = some b) : IsBuilt g c b := by
  rw [build_eq h hne, Option.map_eq_some_iff] at hbuild
  obtain ⟨t, hplace, rfl⟩ := hbuild
  have hperm := c.sort_perm (bucketsOf (g.ruleMap.entries.length / 4)
    ((g.rulesOf c).map rollingHash))
  have hplaced : Placed (slot (g.rulesOf c) (nextPow2 g.ruleMap.entries.length - 1))
      (c.sort (bucketsOf (g.ruleMap.entries.length / 4) ((g.rulesOf c).map rollingHash))) t :=
    placeAll_placed (fun b hb => absurd hb List.not_mem_nil)
      ((hperm.map IndexBucket.n).nodup_iff.2 (nodup_denseBuckets ..)) hplace
  have hpos : 0 < (g.rulesOf c).length := by
    rw [length_rulesOf]
    exact List.length_pos_of_ne_nil fun hnil => hne (List.map_eq_nil_iff.1 hnil)
  refine ⟨rfl, h.otherMatchers, rfl, fun n => ?_, fun i rule hi => ?_⟩
  · refine placeAll_level1 (p := fun i => i.toNat < (g.rulesOf c).length) (t := {})
      (fun _ => hpos) (fun b hb i hi => ?_) hplace n
    have hlt := ((bucketsOf_vals (hperm.mem_iff.1 hb)).2 i hi).1
    rw [List.length_map] at hlt
    rw [UInt32.toNat_ofNat']
    exact (Nat.mod_le i _).trans_lt hlt
  · have hhash : ((g.rulesOf c).map rollingHash)[i]? = some (rollingHash rule) := by
      rw [List.getElem?_map, hi]
      rfl
    obtain ⟨bucket, hmem, hn, hvals⟩ := exists_bucket (v := g.ruleMap.entries.length / 4) hhash
    have hlevel := (hplaced bucket (hperm.mem_iff.2 hmem) i hvals).2
    rwa [slot, hn, List.getD_eq_getElem?_getD, hi] at hlevel

/-- A group is built with the first seed of all if it gives places one for each rule. -/
theorem build_returns (h : g.IsGroupOf adds) (hne : g.ruleMap.entries ≠ []) (c : Choices) (fuel : ℕ)
    (hinj : ∀ u v, IsRule adds u → IsRule adds v →
      (strhashFallback u 0).toNat &&& (nextPow2 g.ruleMap.entries.length - 1) =
        (strhashFallback v 0).toNat &&& (nextPow2 g.ruleMap.entries.length - 1) → u = v) :
    ∃ b, g.build c (fuel + 1) = some b := by
  have hperm := c.sort_perm (bucketsOf (g.ruleMap.entries.length / 4)
    ((g.rulesOf c).map rollingHash))
  have hvals : ∀ b ∈ [] ++ c.sort (bucketsOf (g.ruleMap.entries.length / 4)
      ((g.rulesOf c).map rollingHash)), b.vals.Nodup ∧ ∀ i ∈ b.vals, i < (g.rulesOf c).length ∧
        (((g.rulesOf c).map rollingHash).getD i 0).toNat &&&
          (nextPow2 (g.ruleMap.entries.length / 4) - 1) = b.n := by
    intro b hb
    have hvals := bucketsOf_vals (hperm.mem_iff.1 hb)
    rwa [List.length_map] at hvals
  have hslots : ∀ i < (g.rulesOf c).length, ∀ j < (g.rulesOf c).length,
      slot (g.rulesOf c) (nextPow2 g.ruleMap.entries.length - 1) 0 i =
        slot (g.rulesOf c) (nextPow2 g.ruleMap.entries.length - 1) 0 j → i = j := by
    intro i hi j hj heq
    rw [slot, slot, List.getD_eq_getElem?_getD, List.getD_eq_getElem?_getD,
      List.getElem?_eq_getElem hi, List.getElem?_eq_getElem hj] at heq
    exact (nodup_rulesOf g c).getElem_inj_iff.1 (hinj _ _
      ((mem_rulesOf h).1 (List.getElem_mem hi)) ((mem_rulesOf h).1 (List.getElem_mem hj)) heq)
  obtain ⟨t, ht⟩ := placeAll_returns fuel (t := {}) hvals
    ((hperm.map IndexBucket.n).nodup_iff.2 (nodup_denseBuckets ..)) hslots (fun n hn => by cases hn)
  rw [build_eq h hne, ht]
  exact ⟨_, rfl⟩

/-! ## What is found -/

/-- The tables lead to a rule, so only rules are found. -/
theorem IsBuilt.lookup_eq (h : IsBuilt g c b) (hash : UInt32) (s : Bytes) :
    ∃ rule ∈ g.rulesOf c, b.lookup hash s = .ok (s == rule) := by
  have hlt := h.level1_lt
    ((strhashFallback s (b.level0 (hash.toNat &&& b.level0Mask)).toUInt64).toNat &&& b.level1Mask)
  refine ⟨_, List.getElem_mem hlt, ?_⟩
  rw [lookup, h.rules, List.getElem?_eq_getElem hlt]

/-- The tables lead from a rule to its index, as far as 32 bits go. -/
theorem IsBuilt.lookup_rule (h : IsBuilt g c b) {i : ℕ} {rule rule' : Bytes}
    (hi : (g.rulesOf c)[i]? = some rule) (hi' : (g.rulesOf c)[i % 2 ^ 32]? = some rule') :
    b.lookup (rollingHash rule) rule = .ok (rule == rule') := by
  simp only [lookup, h.level1_eq i rule hi, h.rules, UInt32.toNat_ofNat', hi']

/-- What is found are the rules whose indices have 32 bits. -/
theorem IsBuilt.lookup_iff (h : IsBuilt g c b) (t : Bytes) :
    b.lookup (rollingHash t) t = .ok true ↔ t ∈ (g.rulesOf c).take (2 ^ 32) := by
  by_cases ht : t ∈ g.rulesOf c
  · obtain ⟨i, hi⟩ := List.mem_iff_getElem?.1 ht
    obtain ⟨hlt, hget⟩ := List.getElem?_eq_some_iff.1 hi
    have hmod : i % 2 ^ 32 < (g.rulesOf c).length := (Nat.mod_le i _).trans_lt hlt
    have htake : t ∈ (g.rulesOf c).take (2 ^ 32) ↔ i < 2 ^ 32 := by
      rw [List.mem_take_iff_getElem]
      constructor
      · rintro ⟨j, hj, heq⟩
        have hij : j = i :=
          (nodup_rulesOf g c).getElem_inj_iff.1 (heq.trans hget.symm)
        omega
      · exact fun hi32 => ⟨i, by omega, hget⟩
    rw [h.lookup_rule hi (List.getElem?_eq_getElem hmod), htake, Outcome.ok.injEq, beq_iff_eq,
      ← hget, (nodup_rulesOf g c).getElem_inj_iff]
    omega
  · obtain ⟨rule, hrule, hlookup⟩ := h.lookup_eq (rollingHash t) t
    refine iff_of_false (fun htrue => ht ?_) fun htake => ht (List.mem_of_mem_take htake)
    rw [hlookup, Outcome.ok.injEq, beq_iff_eq] at htrue
    rw [htrue]
    exact hrule

/-- A string is found if and only if it is a rule, and a string is matched if and only if one of
    its parts is a rule. -/
structure IsRight (b : MphMatcherGroup) (adds : List (Bytes × MatcherType)) : Prop where
  lookup : ∀ t, ∃ found, b.lookup (rollingHash t) t = .ok found ∧ (found = true ↔ IsRule adds t)
  matchIds : ∀ s, ∃ ids, b.matchIds s = .ok ids ∧ (ids ≠ [] ↔ ∃ u, IsPart u s ∧ IsRule adds u)

theorem IsBuilt.matchIds_spec (h : IsBuilt g c b) (s : Bytes) : ∃ ids, b.matchIds s = .ok ids ∧
    (ids ≠ [] ↔ ∃ u, IsPart u s ∧ b.lookup (rollingHash u) u = .ok true) := by
  refine MphMatcherGroup.matchIds_spec (fun hash s => ?_) h.ac h.otherMatchers s
  obtain ⟨rule, -, hlookup⟩ := h.lookup_eq hash s
  exact ⟨_, hlookup⟩

/-- The first index that does not fit stands for the first rule in the tables. -/
theorem IsBuilt.exists_missed (h : IsBuilt g c b) (hlt : 2 ^ 32 < (g.rulesOf c).length) :
    ∃ rule ∈ g.rulesOf c, b.lookup (rollingHash rule) rule = .ok false := by
  have hlast := List.getElem?_eq_getElem hlt
  have hfirst := List.getElem?_eq_getElem (Nat.lt_trans (Nat.two_pow_pos 32) hlt)
  have hlookup := h.lookup_rule hlast (by rw [Nat.mod_self]; exact hfirst)
  refine ⟨_, List.getElem_mem hlt, hlookup.trans (congrArg Outcome.ok ?_)⟩
  rw [beq_eq_false_iff_ne, Ne, (nodup_rulesOf g c).getElem_inj_iff]
  decide

/-- Exactly the rules are found if and only if their indices have 32 bits. -/
theorem IsBuilt.isRight_iff (hg : g.IsGroupOf adds) (h : IsBuilt g c b) :
    IsRight b adds ↔ (g.rulesOf c).length ≤ 2 ^ 32 := by
  constructor
  · intro hright
    by_contra hlt
    rw [Nat.not_le] at hlt
    obtain ⟨rule, hrule, hmissed⟩ := h.exists_missed hlt
    obtain ⟨found, hlookup, hiff⟩ := hright.lookup rule
    rw [hmissed, Outcome.ok.injEq] at hlookup
    have hfound := hiff.2 ((mem_rulesOf hg).1 hrule)
    rw [← hlookup] at hfound
    cases hfound
  · intro hle
    have hlookup : ∀ t, ∃ found, b.lookup (rollingHash t) t = .ok found ∧
        (found = true ↔ IsRule adds t) := by
      intro t
      by_cases ht : t ∈ g.rulesOf c
      · obtain ⟨i, hi⟩ := List.mem_iff_getElem?.1 ht
        have hlt := (List.getElem?_eq_some_iff.1 hi).1
        have hmod : i % 2 ^ 32 = i := Nat.mod_eq_of_lt (hlt.trans_le hle)
        refine ⟨_, h.lookup_rule hi (by rw [hmod]; exact hi), ?_⟩
        exact iff_of_true (beq_self_eq_true t) ((mem_rulesOf hg).1 ht)
      · obtain ⟨rule, hrule, hlookup⟩ := h.lookup_eq (rollingHash t) t
        refine ⟨_, hlookup, iff_of_false (fun heq => ht ?_) fun h => ht ((mem_rulesOf hg).2 h)⟩
        rw [beq_iff_eq.1 heq]
        exact hrule
    refine ⟨hlookup, fun s => ?_⟩
    obtain ⟨ids, hids, hiff⟩ := h.matchIds_spec s
    refine ⟨ids, hids, hiff.trans (exists_congr fun u => and_congr_right fun _ => ?_)⟩
    obtain ⟨found, hfound, hrule⟩ := hlookup u
    rw [hfound, Outcome.ok.injEq, hrule]

theorem entries_ne_nil (hg : g.IsGroupOf adds) (hne : ∃ u, IsRule adds u) :
    g.ruleMap.entries ≠ [] := by
  obtain ⟨u, hu⟩ := hne
  intro hnil
  have hmem := (hg.mem_iff u).2 hu
  rw [AList.mem_keys, AList.keys, hnil] at hmem
  exact List.not_mem_nil hmem

/-- After a group of full strings and domains is built, a string is matched if one of its parts is
    found by the hash of the part. What is found are exactly the rules if and only if there are
    not more of them than indices of 32 bits. -/
theorem matchIds_right_iff (hne : ∃ u, IsRule adds u)
    (hbuild : (addAll {} adds).build c fuel = some b) :
    (∀ s, ∃ ids, b.matchIds s = .ok ids ∧
      (ids ≠ [] ↔ ∃ u, IsPart u s ∧ b.lookup (rollingHash u) u = .ok true)) ∧
    (IsRight b adds ↔ (addAll {} adds).ruleMap.keys.length ≤ 2 ^ 32) := by
  have hg := isGroupOf_addAll adds
  have h := isBuilt hg (entries_ne_nil hg hne) hbuild
  rw [← length_rulesOf _ c]
  exact ⟨h.matchIds_spec, h.isRight_iff hg⟩

/-- The entries of the map in their order, and buckets in the order of a merge sort. -/
def someChoices : Choices where
  iterate m := m.entries
  iterate_perm m := .refl m.entries
  sort l := l.mergeSort fun b b' => b'.vals.length ≤ b.vals.length
  sort_perm l := List.mergeSort_perm l _
  sort_sorted l := by
    refine (List.pairwise_mergeSort (fun a b c hab hbc => ?_) (fun a b => ?_) l).imp
      fun h => of_decide_eq_true h
    · exact decide_eq_true ((of_decide_eq_true hbc).trans (of_decide_eq_true hab))
    · rw [Bool.or_eq_true, decide_eq_true_eq, decide_eq_true_eq]
      exact Nat.le_total _ _

theorem isRule_domain : ∃ u, IsRule [([97], .domain)] u :=
  ⟨[97], _, List.mem_singleton_self _, .inl ⟨.inr rfl, rfl⟩⟩

theorem build_domain : ∃ b, (addAll {} [([97], .domain)]).build someChoices 1 = some b := by
  have hg := isGroupOf_addAll [([97], .domain)]
  refine build_returns hg (entries_ne_nil hg isRule_domain) someChoices 0 fun u v hu hv heq => ?_
  obtain ⟨a, ha, hu⟩ := hu
  obtain ⟨a', ha', hv⟩ := hv
  obtain rfl := List.mem_singleton.1 ha
  obtain rfl := List.mem_singleton.1 ha'
  revert heq
  rcases hu with ⟨-, rfl⟩ | ⟨-, rfl⟩ <;> rcases hv with ⟨-, rfl⟩ | ⟨-, rfl⟩ <;> decide +kernel

theorem build_emptyRule : ∃ b, (addAll {} [(emptyRule, .full)]).build someChoices 1 = some b := by
  have hg := isGroupOf_addAll [(emptyRule, .full)]
  have hne : ∃ u, IsRule [(emptyRule, .full)] u :=
    ⟨emptyRule, _, List.mem_singleton_self _, .inl ⟨.inl rfl, rfl⟩⟩
  refine build_returns hg (entries_ne_nil hg hne) someChoices 0 fun u v hu hv _ => ?_
  obtain ⟨a, ha, hu⟩ := hu
  obtain ⟨a', ha', hv⟩ := hv
  obtain rfl := List.mem_singleton.1 ha
  obtain rfl := List.mem_singleton.1 ha'
  obtain rfl := (hu.resolve_right (nomatch ·.1)).2
  exact (hv.resolve_right (nomatch ·.1)).2.symm

/-- The group of the domain `"a"`. -/
theorem matchIds_right_example : ∃ b, (addAll {} [([97], .domain)]).build someChoices 1 = some b ∧
    IsRight b [([97], .domain)] := by
  obtain ⟨b, hb⟩ := build_domain
  exact ⟨b, hb, (matchIds_right_iff isRule_domain hb).2.2 (by decide)⟩

/-! ## More rules than indices -/

/-- `2 ^ 32 + 1` strings of eight bytes, of which each has a hash of its own. -/
def farAdds : List (Bytes × MatcherType) :=
  (List.range (2 ^ 32 + 1)).map fun k => (unhash (.ofNat k), .full)

theorem isRule_farAdds {u : Bytes} :
    IsRule farAdds u ↔ ∃ k < 2 ^ 32 + 1, unhash (.ofNat k) = u := by
  constructor
  · rintro ⟨a, ha, h⟩
    obtain ⟨k, hk, rfl⟩ := List.mem_map.1 ha
    rcases h with ⟨-, rfl⟩ | ⟨h, -⟩
    · exact ⟨k, List.mem_range.1 hk, rfl⟩
    · cases h
  · rintro ⟨k, hk, rfl⟩
    exact ⟨_, List.mem_map.2 ⟨k, List.mem_range.2 hk, rfl⟩, .inl ⟨.inl rfl, rfl⟩⟩

theorem strhashFallback_farAdds {k : ℕ} (hk : k < 2 ^ 32 + 1) :
    (strhashFallback (unhash (.ofNat k)) 0).toNat = k := by
  rw [strhashFallback, memhashFallback_unhash]
  exact UInt64.toNat_ofNat_of_lt' (hk.trans (by decide))

theorem length_farAdds : (addAll {} farAdds).ruleMap.entries.length = 2 ^ 32 + 1 := by
  have hinj : ∀ k ∈ List.range (2 ^ 32 + 1), ∀ k' ∈ List.range (2 ^ 32 + 1),
      unhash (.ofNat k) = unhash (.ofNat k') → k = k' := by
    intro k hk k' hk' heq
    rw [← strhashFallback_farAdds (List.mem_range.1 hk), heq,
      strhashFallback_farAdds (List.mem_range.1 hk')]
  have hnodup : ((List.range (2 ^ 32 + 1)).map fun k => unhash (.ofNat k)).Nodup :=
    List.nodup_range.map_on hinj
  have hperm := (List.perm_ext_iff_of_nodup (addAll {} farAdds).ruleMap.keys_nodup hnodup).2
    fun u => by
      rw [← AList.mem_keys, (isGroupOf_addAll farAdds).mem_iff, isRule_farAdds]
      simp only [List.mem_map, List.mem_range]
  have hlength := hperm.length_eq
  rwa [AList.keys, List.keys, List.length_map, List.length_map, List.length_range] at hlength

/-- The group is built, and does not find one of its rules. -/
theorem rule_missed : ∃ b u, (addAll {} farAdds).build someChoices 1 = some b ∧
    IsRule farAdds u ∧ b.lookup (rollingHash u) u = .ok false := by
  have hg := isGroupOf_addAll farAdds
  have hne : ∃ u, IsRule farAdds u := ⟨_, isRule_farAdds.2 ⟨0, Nat.succ_pos _, rfl⟩⟩
  have hsize : nextPow2 (2 ^ 32 + 1) = 2 ^ 33 := by decide +kernel
  obtain ⟨b, hb⟩ := build_returns hg (entries_ne_nil hg hne) someChoices 0 fun u v hu hv heq => by
    obtain ⟨k, hk, rfl⟩ := isRule_farAdds.1 hu
    obtain ⟨k', hk', rfl⟩ := isRule_farAdds.1 hv
    -- The hashes are the numbers of the strings, for which the table is large enough.
    rw [length_farAdds, hsize, strhashFallback_farAdds hk, strhashFallback_farAdds hk',
      Nat.and_two_pow_sub_one_eq_mod, Nat.and_two_pow_sub_one_eq_mod,
      Nat.mod_eq_of_lt (by omega), Nat.mod_eq_of_lt (by omega)] at heq
    rw [heq]
  have hlt : 2 ^ 32 < ((addAll {} farAdds).rulesOf someChoices).length := by
    rw [length_rulesOf, AList.keys, List.keys, List.length_map, length_farAdds]
    exact Nat.lt_succ_self _
  obtain ⟨u, hu, hmissed⟩ := (isBuilt hg (entries_ne_nil hg hne) hb).exists_missed hlt
  exact ⟨b, u, hb, (mem_rulesOf hg).1 hu, hmissed⟩

end Gzv2ray.Strmatcher.MphMatcherGroup
