import Gzv2ray.Strmatcher.ACAutomaton

/-!
# Building automata

`build` goes through the nodes of a trie by their depths. Then each edge leads to the node of
the longest suffix of the word that was read (`ACAutomaton.IsAutomaton`).

* `ACAutomaton.RowBuilt`: what the inner loop does to the edges of a node;
* `ACAutomaton.Frontier`: the nodes that are done, and those of the queue;
* `ACAutomaton.IsTrie.build`: all nodes get done.
-/

namespace Gzv2ray.Strmatcher.ACAutomaton

/-! ## The edges of a node -/

/-- What the first turns of the inner loop do to an automaton and a queue. -/
structure RowBuilt (ac : ACAutomaton) (queue : List ℕ) (node k : ℕ) (s : ACAutomaton × List ℕ) :
    Prop where
  trie_eq : ∀ n i, s.1.trie n i = if n = node ∧ i < k ∧ (ac.trie node i).nextNode = 0
    then ⟨failEdge, (ac.trie (ac.fail node) i).nextNode⟩ else ac.trie n i
  fail_next : ∀ i < k, (ac.trie node i).nextNode ≠ 0 →
    s.1.fail (ac.trie node i).nextNode = (ac.trie (ac.fail node) i).nextNode
  fail_eq : ∀ m, (∀ i, (ac.trie node i).nextNode ≠ 0 → (ac.trie node i).nextNode ≠ m) →
    s.1.fail m = ac.fail m
  queue_eq : s.2 = queue ++ ac.nextNodes node k
  matchTypes_eq : s.1.matchTypes = ac.matchTypes

theorem nextNodes_succ (ac : ACAutomaton) (node k : ℕ) : ac.nextNodes node (k + 1) =
    ac.nextNodes node k ++
      if (ac.trie node k).nextNode ≠ 0 then [(ac.trie node k).nextNode] else [] := by
  rw [nextNodes, nextNodes, List.range_succ, List.filter_append, List.map_append]
  split_ifs with h
  · rw [List.filter_singleton, decide_eq_true h]
    rfl
  · rw [List.filter_singleton, decide_eq_false h]
    rfl

/-- The edges of the node lead to other nodes, each to its own. -/
theorem rowBuilt {ac : ACAutomaton} {node : ℕ} (queue : List ℕ) (hfail : ac.fail node ≠ node)
    (hself : ∀ i, (ac.trie node i).nextNode ≠ 0 → (ac.trie node i).nextNode ≠ node)
    (hinj : ∀ i j, (ac.trie node i).nextNode ≠ 0 →
      (ac.trie node i).nextNode = (ac.trie node j).nextNode → i = j) (k : ℕ) :
    RowBuilt ac queue node k ((List.range k).foldl (buildEdge node) (ac, queue)) := by
  induction k with
  | zero =>
    refine ⟨fun n i => (if_neg fun h => Nat.not_lt_zero i h.2.1).symm,
      fun i hi => absurd hi (Nat.not_lt_zero i), fun _ _ => rfl, (List.append_nil _).symm, rfl⟩
  | succ k ih =>
    rw [List.range_succ, List.foldl_append, List.foldl_cons, List.foldl_nil]
    generalize (List.range k).foldl (buildEdge node) (ac, queue) = s at ih
    obtain ⟨b, q⟩ := s
    -- What this turn reads was not written before.
    have hnode : b.trie node k = ac.trie node k :=
      (ih.trie_eq node k).trans (if_neg fun h => Nat.lt_irrefl k h.2.1)
    have hfailnode : b.fail node = ac.fail node := ih.fail_eq node hself
    have hrow : b.trie (ac.fail node) k = ac.trie (ac.fail node) k :=
      (ih.trie_eq _ k).trans (if_neg fun h => hfail h.1)
    simp only [buildEdge, hnode, hfailnode, hrow]
    split_ifs with hk
    · refine ⟨fun n i => ?_, fun i hi hne => ?_, fun m hm => ?_, ?_, ih.matchTypes_eq⟩
      · rw [ih.trie_eq n i]
        refine if_congr ?_ rfl rfl
        constructor
        · rintro ⟨hn, hi, h0⟩
          exact ⟨hn, Nat.lt_succ_of_lt hi, h0⟩
        · rintro ⟨hn, hi, h0⟩
          rcases Nat.lt_succ_iff_lt_or_eq.1 hi with hi | rfl
          · exact ⟨hn, hi, h0⟩
          · exact absurd h0 hk
      · rcases Nat.lt_succ_iff_lt_or_eq.1 hi with hlt | rfl
        · refine (Function.update_of_ne (fun heq => ?_) _ _).trans (ih.fail_next i hlt hne)
          exact Nat.ne_of_lt hlt (hinj i k hne heq)
        · exact Function.update_self ..
      · exact (Function.update_of_ne (hm k hk).symm _ _).trans (ih.fail_eq m hm)
      · rw [nextNodes_succ, if_pos hk, ← List.append_assoc, ← ih.queue_eq]
    · rw [not_not] at hk
      refine ⟨fun n i => ?_, fun i hi hne => ?_, ih.fail_eq, ?_, ih.matchTypes_eq⟩
      · rw [trie_setEdge, ih.trie_eq n i]
        by_cases hik : i = k
        · subst hik
          by_cases hn : n = node <;> simp [hn, hk]
        · have hlt : i < k + 1 ↔ i < k := by omega
          simp only [hik, and_false, if_false, hlt]
      · rcases Nat.lt_succ_iff_lt_or_eq.1 hi with hlt | rfl
        · exact ih.fail_next i hlt hne
        · exact absurd hk hne
      · rw [nextNodes_succ, if_neg (not_not.2 hk), List.append_nil, ← ih.queue_eq]

/-! ## The queue -/

section Build

variable {t : ACAutomaton} {path : ℕ → List ℕ}

/-- Each edge of a node leads to the node of the longest suffix of the word that is read. -/
def IsRow (t : ACAutomaton) (path : ℕ → List ℕ) (b : ACAutomaton) (n : ℕ) : Prop :=
  ∀ i < validCharCount, (b.trie n i).nextNode ≤ t.count ∧
    IsLongestSuffix (t.words path) (path n ++ [i]) (path (b.trie n i).nextNode)

/-- What is built from a trie. -/
structure IsAutomaton (t : ACAutomaton) (path : ℕ → List ℕ) (b : ACAutomaton) : Prop where
  row : ∀ n ≤ t.count, IsRow t path b n
  matchTypes_eq : b.matchTypes = t.matchTypes

/-- The nodes that are done, and a queue of others by their depths. -/
structure Frontier (t : ACAutomaton) (path : ℕ → List ℕ) (done : Finset ℕ) (ac : ACAutomaton)
    (queue : List ℕ) : Prop where
  matchTypes_eq : ac.matchTypes = t.matchTypes
  zero_mem : 0 ∈ done
  done_le : ∀ n ∈ done, n ≤ t.count
  row : ∀ n ∈ done, IsRow t path ac n
  untouched : ∀ n, n ∉ done → ac.trie n = t.trie n
  queue_le : ∀ m ∈ queue, m ≤ t.count
  disjoint : ∀ m ∈ queue, m ∉ done
  nodup : queue.Nodup
  fail : ∀ m ∈ queue, ac.fail m ≤ t.count ∧
    IsLongestSuffix (t.words path) (path m).tail (path (ac.fail m))
  closed : ∀ n ∈ done, ∀ i, (t.trie n i).nextNode ≠ 0 →
    (t.trie n i).nextNode ∈ done ∨ (t.trie n i).nextNode ∈ queue
  parent : ∀ m, m ∈ done ∨ m ∈ queue → m ≠ 0 → ∃ n ∈ done, ∃ i, (t.trie n i).nextNode = m
  sorted : queue.Pairwise fun m n => (path m).length ≤ (path n).length
  near : ∀ m ∈ queue, ∀ n ∈ queue, (path n).length ≤ (path m).length + 1

theorem mem_nextNodes {n m : ℕ} : m ∈ t.nextNodes n validCharCount ↔
    m ≠ 0 ∧ ∃ i < validCharCount, (t.trie n i).nextNode = m := by
  simp only [nextNodes, List.mem_map, List.mem_filter, List.mem_range, decide_eq_true_eq]
  constructor
  · rintro ⟨i, ⟨hi, hne⟩, rfl⟩
    exact ⟨hne, i, hi, rfl⟩
  · rintro ⟨hne, i, hi, rfl⟩
    exact ⟨i, ⟨hi, hne⟩, rfl⟩

namespace IsTrie

variable (h : IsTrie t path)
include h

theorem path_ne_nil {n : ℕ} (hn : n ≤ t.count) (hne : n ≠ 0) : path n ≠ [] := fun heq =>
  hne (h.inj n hn 0 (Nat.zero_le _) (heq.trans h.path_zero.symm))

/-- A node is next to one node only, by one edge. -/
theorem parent_unique {m n i j : ℕ} (hm : m ≤ t.count) (hn : n ≤ t.count)
    (hne : (t.trie m i).nextNode ≠ 0) (heq : (t.trie m i).nextNode = (t.trie n j).nextNode) :
    m = n ∧ i = j := by
  have hpath := (h.edge m hm i hne).2
  rw [heq, (h.edge n hn j (heq ▸ hne)).2] at hpath
  obtain ⟨hword, hcons⟩ := List.append_inj' hpath rfl
  exact ⟨(h.inj n hn m hm hword).symm, (List.head_eq_of_cons_eq hcons).symm⟩

theorem nextNodes_nodup {n : ℕ} (hn : n ≤ t.count) : (t.nextNodes n validCharCount).Nodup := by
  refine List.Nodup.map_on (fun i hi j _ heq => ?_) (List.nodup_range.filter _)
  exact (h.parent_unique hn hn (of_decide_eq_true (List.mem_filter.1 hi).2) heq).2

theorem path_of_mem_nextNodes {n m : ℕ} (hn : n ≤ t.count)
    (hm : m ∈ t.nextNodes n validCharCount) :
    m ≤ t.count ∧ (path m).length = (path n).length + 1 := by
  obtain ⟨hne, i, -, rfl⟩ := mem_nextNodes.1 hm
  obtain ⟨hle, hpath⟩ := h.edge n hn i hne
  exact ⟨hle, by rw [hpath, List.length_append, List.length_singleton]⟩

end IsTrie

namespace Frontier

variable {done : Finset ℕ} {ac : ACAutomaton} {queue : List ℕ}

/-- Nodes nearer to the root than the queue are done. -/
theorem mem_done (h : IsTrie t path) (hf : Frontier t path done ac queue) {m : ℕ}
    (hm : m ≤ t.count) (hq : ∀ n ∈ queue, (path m).length < (path n).length) : m ∈ done := by
  generalize hlength : (path m).length = k at hq
  induction k generalizing m with
  | zero =>
    have hpath : path m = path 0 := (List.length_eq_zero_iff.1 hlength).trans h.path_zero.symm
    exact h.inj m hm 0 (Nat.zero_le _) hpath ▸ hf.zero_mem
  | succ k ih =>
    by_cases hne : m = 0
    · exact hne ▸ hf.zero_mem
    · obtain ⟨n, hn, i, -, rfl⟩ := h.parent m hm hne
      have hk : (path n).length = k := by
        rw [(h.edge n hn i hne).2, List.length_append, List.length_singleton] at hlength
        exact Nat.succ.inj hlength
      have hdone := ih hn hk fun q hmem => (Nat.lt_succ_self k).trans (hq q hmem)
      refine (hf.closed n hdone i hne).resolve_right fun hmem => ?_
      exact absurd (hq _ hmem) (hlength ▸ Nat.lt_irrefl _)

/-- The root is done, as its edges lead to it where no word goes on. -/
theorem first (h : IsTrie t path) : Frontier t path {0} t (t.nextNodes 0 validCharCount) where
  matchTypes_eq := rfl
  zero_mem := Finset.mem_singleton_self 0
  done_le n hn := Finset.mem_singleton.1 hn ▸ Nat.zero_le _
  row := by
    intro n hn i hi
    obtain rfl := Finset.mem_singleton.1 hn
    rw [h.path_zero, List.nil_append]
    by_cases hne : (t.trie 0 i).nextNode = 0
    · rw [hne, h.path_zero]
      refine ⟨Nat.zero_le _, h.nil_mem_words, List.nil_suffix, fun v hv hsuffix => ?_⟩
      rcases List.suffix_cons_iff.1 hsuffix with rfl | hv'
      · obtain ⟨m, hm, hpath⟩ := hv
        have hedge := h.nextNode_eq (Nat.zero_le _) hm (i := i) (by rw [hpath, h.path_zero]; rfl)
        exact absurd (hedge.1.symm.trans hne) hedge.2.1
      · exact (List.suffix_nil.1 hv') ▸ le_rfl
    · obtain ⟨hle, hpath⟩ := h.edge 0 (Nat.zero_le _) i hne
      rw [h.path_zero, List.nil_append] at hpath
      exact ⟨hle, hpath ▸ .self ⟨_, hle, rfl⟩⟩
  untouched _ _ := rfl
  queue_le m hm := (h.path_of_mem_nextNodes (Nat.zero_le _) hm).1
  disjoint m hm h0 := (mem_nextNodes.1 hm).1 (Finset.mem_singleton.1 h0)
  nodup := h.nextNodes_nodup (Nat.zero_le _)
  fail := by
    intro m hm
    obtain ⟨hne, i, -, rfl⟩ := mem_nextNodes.1 hm
    rw [h.fail, (h.edge 0 (Nat.zero_le _) i hne).2, h.path_zero]
    exact ⟨Nat.zero_le _, .nil h.nil_mem_words⟩
  closed := by
    intro n hn i hne
    obtain rfl := Finset.mem_singleton.1 hn
    obtain ⟨hle, hpath⟩ := h.edge 0 (Nat.zero_le _) i hne
    exact .inr (mem_nextNodes.2 ⟨hne, i, (h.nextNode_eq (Nat.zero_le _) hle hpath).2.2, rfl⟩)
  parent := by
    rintro m (hm | hm) hne
    · exact absurd (Finset.mem_singleton.1 hm) hne
    · obtain ⟨-, i, -, heq⟩ := mem_nextNodes.1 hm
      exact ⟨0, Finset.mem_singleton_self 0, i, heq⟩
  sorted := by
    refine List.pairwise_of_forall_mem_list fun m hm n hn => ?_
    rw [(h.path_of_mem_nextNodes (Nat.zero_le _) hm).2,
      (h.path_of_mem_nextNodes (Nat.zero_le _) hn).2]
  near m hm n hn := by
    rw [(h.path_of_mem_nextNodes (Nat.zero_le _) hm).2,
      (h.path_of_mem_nextNodes (Nat.zero_le _) hn).2]
    exact Nat.le_succ _

/-- The edge that a node gets where it has none is that of the longest suffix of what follows
    the first letter. -/
theorem row_next (h : IsTrie t path) {node : ℕ}
    (hf : Frontier t path done ac (node :: queue)) {b : ACAutomaton} {q : List ℕ}
    (hrow : RowBuilt ac queue node validCharCount (b, q)) (hfail : ac.fail node ∈ done) :
    IsRow t path b node := by
  have hnode := hf.disjoint node List.mem_cons_self
  have hle := hf.queue_le node List.mem_cons_self
  intro i hi
  rw [hrow.trie_eq node i, hf.untouched node hnode]
  by_cases hne : (t.trie node i).nextNode = 0
  · rw [if_pos ⟨rfl, hi, hne⟩]
    obtain ⟨hle', hlongest⟩ := hf.row _ hfail i hi
    refine ⟨hle', .fail h.prefixClosed (h.path_ne_nil hle fun h0 => hnode (h0 ▸ hf.zero_mem))
      (hf.fail node List.mem_cons_self).2 ?_ hlongest⟩
    rintro ⟨m, hm, hpath⟩
    have hedge := h.nextNode_eq hle hm hpath
    exact hedge.2.1 (hedge.1.symm.trans hne)
  · rw [if_neg fun heq => hne heq.2.2]
    obtain ⟨hle', hpath⟩ := h.edge node hle i hne
    exact ⟨hle', hpath ▸ .self ⟨_, hle', rfl⟩⟩

/-- The first node of the queue gets done. -/
theorem step (h : IsTrie t path) {node : ℕ} (hf : Frontier t path done ac (node :: queue)) :
    Frontier t path (insert node done)
      ((List.range validCharCount).foldl (buildEdge node) (ac, queue)).1
      ((List.range validCharCount).foldl (buildEdge node) (ac, queue)).2 := by
  have hnode := hf.disjoint node List.mem_cons_self
  have hle := hf.queue_le node List.mem_cons_self
  have hne0 : node ≠ 0 := fun h0 => hnode (h0 ▸ hf.zero_mem)
  obtain ⟨hfail_le, hfail⟩ := hf.fail node List.mem_cons_self
  obtain ⟨hsorted, hpairwise⟩ := List.pairwise_cons.1 hf.sorted
  obtain ⟨hnotmem, hnodup⟩ := List.nodup_cons.1 hf.nodup
  have hmem : ∀ {m}, m ∈ queue → m ∈ node :: queue := List.mem_cons_of_mem node
  -- The longest suffix of what follows the first letter is nearer to the root.
  have hfail_mem : ac.fail node ∈ done := by
    refine hf.mem_done h hfail_le ?_
    have hlt : (path (ac.fail node)).length < (path node).length := by
      have hlength := hfail.suffix.length_le
      have hpos := List.length_pos_of_ne_nil (h.path_ne_nil hle hne0)
      rw [List.length_tail] at hlength
      omega
    intro n hn
    rcases List.mem_cons.1 hn with rfl | hn
    · exact hlt
    · exact hlt.trans_le (hsorted n hn)
  -- The nodes next to this one were not in the queue before.
  have hnew : ∀ i, (t.trie node i).nextNode ≠ 0 →
      ¬((t.trie node i).nextNode ∈ done ∨ (t.trie node i).nextNode ∈ node :: queue) := by
    intro i hne hold
    obtain ⟨n, hn, j, heq⟩ := hf.parent _ hold hne
    exact hnode ((h.parent_unique hle (hf.done_le n hn) hne heq.symm).1 ▸ hn)
  have hqueue_ne : ∀ m ∈ queue, ∀ i, (t.trie node i).nextNode ≠ 0 → (t.trie node i).nextNode ≠ m :=
    fun m hm i hne heq => hnew i hne (heq ▸ .inr (hmem hm))
  have hrow : RowBuilt ac queue node validCharCount
      ((List.range validCharCount).foldl (buildEdge node) (ac, queue)) := by
    have huntouched := hf.untouched node hnode
    refine rowBuilt queue ?_ ?_ ?_ _
    · intro heq
      rw [heq] at hfail_mem
      exact hnode hfail_mem
    · rw [huntouched]
      intro i hne heq
      refine hnew i hne ?_
      rw [heq]
      exact .inr List.mem_cons_self
    · rw [huntouched]
      exact fun i j hne heq => (h.parent_unique hle hle hne heq).2
  generalize (List.range validCharCount).foldl (buildEdge node) (ac, queue) = s at hrow
  obtain ⟨b, q⟩ := s
  have hnext : ac.nextNodes node validCharCount = t.nextNodes node validCharCount := by
    rw [nextNodes, nextNodes, hf.untouched node hnode]
  have hq : q = queue ++ t.nextNodes node validCharCount := hrow.queue_eq.trans (by rw [hnext])
  have hdepth : ∀ m ∈ q, (path node).length ≤ (path m).length ∧
      (path m).length ≤ (path node).length + 1 := by
    intro m hm
    rcases List.mem_append.1 (hq ▸ hm) with hm | hm
    · exact ⟨hsorted m hm, hf.near node List.mem_cons_self m (hmem hm)⟩
    · rw [(h.path_of_mem_nextNodes hle hm).2]
      exact ⟨Nat.le_succ _, le_rfl⟩
  constructor
  case matchTypes_eq => exact hrow.matchTypes_eq.trans hf.matchTypes_eq
  case zero_mem => exact Finset.mem_insert_of_mem hf.zero_mem
  case done_le =>
    intro n hn
    rcases Finset.mem_insert.1 hn with rfl | hn
    · exact hle
    · exact hf.done_le n hn
  case row =>
    intro n hn
    rcases Finset.mem_insert.1 hn with rfl | hn
    · exact hf.row_next h hrow hfail_mem
    · intro i hi
      have hne : n ≠ node := fun heq => hnode (heq ▸ hn)
      rw [hrow.trie_eq n i, if_neg fun heq => hne heq.1]
      exact hf.row n hn i hi
  case untouched =>
    intro n hn
    rw [Finset.mem_insert, not_or] at hn
    funext i
    rw [hrow.trie_eq n i, if_neg fun heq => hn.1 heq.1, hf.untouched n hn.2]
  case queue_le =>
    intro m hm
    rcases List.mem_append.1 (hq ▸ hm) with hm | hm
    · exact hf.queue_le m (hmem hm)
    · exact (h.path_of_mem_nextNodes hle hm).1
  case disjoint =>
    intro m hm hdone
    rcases List.mem_append.1 (hq ▸ hm) with hm | hm
    · rcases Finset.mem_insert.1 hdone with rfl | hdone
      · exact hnotmem hm
      · exact hf.disjoint m (hmem hm) hdone
    · obtain ⟨hne, i, -, rfl⟩ := mem_nextNodes.1 hm
      rcases Finset.mem_insert.1 hdone with heq | hdone
      · refine hnew i hne ?_
        rw [heq]
        exact .inr List.mem_cons_self
      · exact hnew i hne (.inl hdone)
  case nodup =>
    rw [hq]
    refine hnodup.append (h.nextNodes_nodup hle) fun m hm hm' => ?_
    obtain ⟨hne, i, -, rfl⟩ := mem_nextNodes.1 hm'
    exact hqueue_ne _ hm i hne rfl
  case fail =>
    intro m hm
    rcases List.mem_append.1 (hq ▸ hm) with hm | hm
    · rw [hrow.fail_eq m (hf.untouched node hnode ▸ hqueue_ne m hm)]
      exact hf.fail m (hmem hm)
    · obtain ⟨hne, i, hi, rfl⟩ := mem_nextNodes.1 hm
      have heq := hrow.fail_next i hi
      rw [hf.untouched node hnode] at heq
      obtain ⟨hle', hlongest⟩ := hf.row _ hfail_mem i hi
      rw [heq hne, (h.edge node hle i hne).2,
        List.tail_append_of_ne_nil (h.path_ne_nil hle hne0)]
      exact ⟨hle', hfail.concat h.prefixClosed hlongest⟩
  case closed =>
    intro n hn i hne
    rw [hq, List.mem_append, Finset.mem_insert]
    rcases Finset.mem_insert.1 hn with rfl | hn
    · obtain ⟨hle', hpath⟩ := h.edge n hle i hne
      exact .inr (.inr (mem_nextNodes.2 ⟨hne, i, (h.nextNode_eq hle hle' hpath).2.2, rfl⟩))
    · rcases hf.closed n hn i hne with hdone | hqueue
      · exact .inl (.inr hdone)
      · rcases List.mem_cons.1 hqueue with heq | hqueue
        · exact .inl (.inl heq)
        · exact .inr (.inl hqueue)
  case parent =>
    intro m hm hne
    have hold : m ∈ done ∨ m ∈ node :: queue ∨ m ∈ t.nextNodes node validCharCount := by
      rw [hq, List.mem_append, Finset.mem_insert] at hm
      rw [List.mem_cons]
      tauto
    rw [← or_assoc] at hold
    rcases hold with hold | hm
    · obtain ⟨n, hn, i, heq⟩ := hf.parent m hold hne
      exact ⟨n, Finset.mem_insert_of_mem hn, i, heq⟩
    · obtain ⟨-, i, -, heq⟩ := mem_nextNodes.1 hm
      exact ⟨node, Finset.mem_insert_self node done, i, heq⟩
  case sorted =>
    rw [hq, List.pairwise_append]
    refine ⟨hpairwise, List.pairwise_of_forall_mem_list fun m hm n hn => ?_, fun m hm n hn => ?_⟩
    · rw [(h.path_of_mem_nextNodes hle hm).2, (h.path_of_mem_nextNodes hle hn).2]
    · rw [(h.path_of_mem_nextNodes hle hn).2]
      exact (hdepth m (hq ▸ List.mem_append_left _ hm)).2
  case near =>
    exact fun m hm n hn => (hdepth n hn).2.trans (Nat.succ_le_succ (hdepth m hm).1)

end Frontier

/-- With fuel for the nodes that are not done, all nodes get done. -/
theorem buildLoop_spec (h : IsTrie t path) {fuel : ℕ} : ∀ {done : Finset ℕ} {ac : ACAutomaton}
    {queue : List ℕ}, Frontier t path done ac queue → t.count + 1 ≤ fuel + done.card →
      ∃ b, buildLoop fuel (ac, queue) = some b ∧ IsAutomaton t path b := by
  induction fuel with
  | zero =>
    intro done ac queue hf hfuel
    cases queue with
    | nil => exact ⟨ac, rfl, fun n hn => hf.row n (hf.mem_done h hn (by simp)), hf.matchTypes_eq⟩
    | cons node queue =>
      -- All nodes are done, and so is the node.
      have hsubset : insert node done ⊆ Finset.range (t.count + 1) := by
        intro n hn
        rw [Finset.mem_range, Nat.lt_succ_iff]
        rcases Finset.mem_insert.1 hn with rfl | hn
        · exact hf.queue_le n List.mem_cons_self
        · exact hf.done_le n hn
      have hcard := Finset.card_le_card hsubset
      rw [Finset.card_insert_of_notMem (hf.disjoint node List.mem_cons_self),
        Finset.card_range] at hcard
      omega
  | succ fuel ih =>
    intro done ac queue hf hfuel
    cases queue with
    | nil => exact ⟨ac, rfl, fun n hn => hf.row n (hf.mem_done h hn (by simp)), hf.matchTypes_eq⟩
    | cons node queue =>
      have hcard := Finset.card_insert_of_notMem (hf.disjoint node List.mem_cons_self)
      have hloop := ih (hf.step h) (by omega)
      rw [Prod.mk.eta] at hloop
      rw [buildLoop]
      exact hloop

/-- An automaton is built from each trie. -/
theorem IsTrie.build (h : IsTrie t path) : ∃ b, t.build = some b ∧ IsAutomaton t path b :=
  buildLoop_spec h (Frontier.first h) le_rfl

end Build

end Gzv2ray.Strmatcher.ACAutomaton
