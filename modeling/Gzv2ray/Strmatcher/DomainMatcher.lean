import Gzv2ray.Buf.Buffer
import Gzv2ray.Lib.Trie

/-!
# Matching domains

A group of domains is a trie of their labels, the last label first. A domain is matched with
all stored domains of which it is a subdomain, in a walk over its labels from right to left.

* `DomainMatcherGroup.matchDomain`: the walk, over the indices of the dots;
* `matchFrom_eq`: it follows the labels of the domain;
* `DomainMatcherGroup.matchDomain_addAll`: what it finds, in which order.
-/

namespace Gzv2ray.Strmatcher

/-- `'.'` -/
def dot : UInt8 := 46

def breakDomain (domain : Bytes) : List Bytes := domain.splitOn dot

structure DomainMatcherGroup where
  root : Option (Trie Bytes UInt32) := none

namespace DomainMatcherGroup

def add (g : DomainMatcherGroup) (domain : Bytes) (value : UInt32) : DomainMatcherGroup :=
  { root := some ((g.root.getD .empty).add (breakDomain domain).reverse value) }

/-- The last dot before an index. -/
def nextPart (domain : Bytes) : ℕ → Option ℕ
  | 0 => none
  | i + 1 => if domain[i]? = some dot then some i else nextPart domain i

theorem nextPart_lt {domain : Bytes} {idx nidx : ℕ} (h : nextPart domain idx = some nidx) :
    nidx < idx := by
  induction idx with
  | zero => cases h
  | succ i ih =>
    rw [nextPart] at h
    split at h
    · exact Option.some.inj h ▸ Nat.lt_succ_self i
    · exact Nat.lt_succ_of_lt (ih h)

/-- The values of a node, if it has any. -/
def matched (n : Trie Bytes UInt32) : List (List UInt32) := if n.values = [] then [] else [n.values]

/-- The loop of `matchDomain`, from an index to the left. -/
def matchFrom (domain : Bytes) (current : Trie Bytes UInt32) (idx : ℕ) : List (List UInt32) :=
  match _h : nextPart domain idx with
  | none =>
    match current.sub (domain.take idx) with
    | none => []
    | some next => matched next
  | some nidx =>
    match current.sub ((domain.take idx).drop (nidx + 1)) with
    | none => []
    | some next => matched next ++ matchFrom domain next nidx
termination_by idx
decreasing_by exact nextPart_lt _h

/-- `DomainMatcherGroup.Match` -/
def matchDomain (g : DomainMatcherGroup) (domain : Bytes) : List UInt32 :=
  if domain = [] then []
  else
    match g.root with
    | none => []
    | some root =>
      match matchFrom domain root domain.length with
      | [] => []
      | [values] => values
      | values => values.reverse.flatten

/-! ## The walk -/

/-- What is found is a dot, and there is none between it and the index. -/
theorem nextPart_spec {domain : Bytes} {idx nidx : ℕ} (h : nextPart domain idx = some nidx) :
    domain[nidx]? = some dot ∧ ∀ i, nidx < i → i < idx → domain[i]? ≠ some dot := by
  induction idx with
  | zero => cases h
  | succ j ih =>
    rw [nextPart] at h
    split at h
    next hdot =>
      obtain rfl := Option.some.inj h
      exact ⟨hdot, fun i hlt hi => absurd hi (by omega)⟩
    next hne =>
      obtain ⟨hdot, hbetween⟩ := ih h
      refine ⟨hdot, fun i hlt hi => ?_⟩
      rcases Nat.lt_or_eq_of_le (Nat.le_of_lt_succ hi) with hij | rfl
      · exact hbetween i hlt hij
      · exact hne

theorem nextPart_eq_none {domain : Bytes} {idx : ℕ} (h : nextPart domain idx = none) :
    ∀ i < idx, domain[i]? ≠ some dot := by
  induction idx with
  | zero => exact fun i hi => absurd hi (Nat.not_lt_zero i)
  | succ j ih =>
    rw [nextPart] at h
    split at h
    · cases h
    next hne =>
      intro i hi
      rcases Nat.lt_or_eq_of_le (Nat.le_of_lt_succ hi) with hij | rfl
      · exact ih h i hij
      · exact hne

/-- The labels before an index, if there is a dot before it. -/
theorem breakDomain_of_nextPart {domain : Bytes} {idx nidx : ℕ}
    (h : nextPart domain idx = some nidx) (hidx : idx ≤ domain.length) :
    breakDomain (domain.take idx) =
      breakDomain (domain.take nidx) ++ [(domain.take idx).drop (nidx + 1)] := by
  have hlt := nextPart_lt h
  obtain ⟨hdot, hbetween⟩ := nextPart_spec h
  have hnidx : nidx < (domain.take idx).length := by
    rw [List.length_take_of_le hidx]
    exact hlt
  have hsplit : domain.take idx = domain.take nidx ++ dot :: (domain.take idx).drop (nidx + 1) := by
    have hget : (domain.take idx)[nidx] = dot := by
      rw [List.getElem_take]
      exact (List.getElem?_eq_some_iff.1 hdot).2
    have htake : (domain.take idx).take nidx = domain.take nidx := by
      rw [List.take_take, Nat.min_eq_left hlt.le]
    rw [← hget, ← List.drop_eq_getElem_cons hnidx, ← htake, List.take_append_drop]
  have hlast : dot ∉ (domain.take idx).drop (nidx + 1) := by
    intro hmem
    obtain ⟨i, hi⟩ := List.mem_iff_getElem?.1 hmem
    rw [List.getElem?_drop, List.getElem?_take, Option.ite_none_right_eq_some] at hi
    exact hbetween _ (by omega) hi.1 hi.2
  conv_lhs => rw [hsplit]
  rw [breakDomain, List.splitOn_append_cons_self, List.splitOn_eq_singleton hlast, ← breakDomain]

theorem breakDomain_of_nextPart_none {domain : Bytes} {idx : ℕ} (h : nextPart domain idx = none) :
    breakDomain (domain.take idx) = [domain.take idx] := by
  refine List.splitOn_eq_singleton fun hmem => ?_
  obtain ⟨i, hi⟩ := List.mem_iff_getElem?.1 hmem
  rw [List.getElem?_take, Option.ite_none_right_eq_some] at hi
  exact nextPart_eq_none h i hi.1 hi.2

/-- The loop walks along the labels before the index. -/
theorem matchFrom_eq (domain : Bytes) (current : Trie Bytes UInt32) {idx : ℕ}
    (hidx : idx ≤ domain.length) : matchFrom domain current idx =
      current.walk (breakDomain (domain.take idx)).reverse := by
  induction idx using Nat.strong_induction_on generalizing current with
  | _ idx ih =>
    rw [matchFrom]
    split
    next hnone =>
      rw [breakDomain_of_nextPart_none hnone, List.reverse_singleton, Trie.walk]
      cases current.sub (domain.take idx) with
      | none => rfl
      | some next => exact (List.append_nil _).symm
    next nidx hsome =>
      have hlt := nextPart_lt hsome
      rw [breakDomain_of_nextPart hsome hidx, List.reverse_append, List.reverse_singleton,
        List.singleton_append, Trie.walk]
      cases current.sub ((domain.take idx).drop (nidx + 1)) with
      | none => rfl
      | some next =>
        dsimp only
        rw [ih nidx hlt next (hlt.le.trans hidx)]
        rfl

/-- The result is what the walk finds, the last first. -/
theorem matchDomain_eq (root : Trie Bytes UInt32) {domain : Bytes} (h : domain ≠ []) :
    matchDomain ⟨some root⟩ domain =
      (breakDomain domain).tails.dropLast.flatMap fun labels => root.find labels.reverse := by
  have hflatten : matchDomain ⟨some root⟩ domain =
      (matchFrom domain root domain.length).reverse.flatten := by
    rw [matchDomain, if_neg h]
    dsimp only
    split
    next heq => rw [heq]; rfl
    next heq => rw [heq]; exact (List.append_nil _).symm
    · rfl
  rw [hflatten, matchFrom_eq domain root le_rfl, List.take_length, Trie.flatten_walk,
    List.inits_reverse, List.tail_reverse, List.reverse_reverse, ← List.map_dropLast,
    List.flatMap_map]

end DomainMatcherGroup

/-! ## The domains that match -/

/-- A string is a domain, or a subdomain of it. -/
def IsDomainOf (d s : Bytes) : Prop := s = d ∨ dot :: d <:+ s

instance (d s : Bytes) : Decidable (IsDomainOf d s) := inferInstanceAs (Decidable (_ ∨ _))

/-- The parts of a string after its dots, from left to right. -/
def afterDots : Bytes → List Bytes
  | [] => []
  | c :: s => if c = dot then s :: afterDots s else afterDots s

theorem tails_breakDomain (s : Bytes) :
    (breakDomain s).tails.dropLast = (s :: afterDots s).map breakDomain := by
  induction s with
  | nil => rfl
  | cons c s ih =>
    have htails (l : List Bytes) : l.tails ≠ [] := by cases l <;> exact List.cons_ne_nil _ _
    rw [List.map_cons, afterDots]
    by_cases hc : c = dot
    · have hbreak : breakDomain (c :: s) = [] :: breakDomain s := by
        rw [breakDomain, List.splitOn_cons_eq_if_modifyHead, if_pos (beq_iff_eq.2 hc), breakDomain]
      rw [if_pos hc, hbreak, List.tails_cons, List.dropLast_cons_of_ne_nil (htails _), ih]
    · have hbreak : breakDomain (c :: s) = (breakDomain s).modifyHead (List.cons c) := by
        rw [breakDomain, List.splitOn_cons_eq_if_modifyHead,
          if_neg (by rwa [beq_iff_eq]), breakDomain]
      rw [if_neg hc, hbreak]
      obtain ⟨label, labels, heq⟩ := List.exists_cons_of_ne_nil (List.splitOn_ne_nil dot s)
      rw [← breakDomain] at heq
      rw [heq, List.tails_cons, List.dropLast_cons_of_ne_nil (htails _), List.map_cons,
        List.cons.injEq] at ih
      rw [heq, List.modifyHead_cons, List.tails_cons, List.dropLast_cons_of_ne_nil (htails _), ih.2]

/-- The parts after the dots, as suffixes. -/
theorem filter_tails_suffix (s : Bytes) :
    (s.tails.filter fun d => dot :: d <:+ s) = afterDots s ∧
      (s.tails.filter fun d => IsDomainOf d s) = s :: afterDots s := by
  induction s with
  | nil => exact ⟨by decide, by decide⟩
  | cons c s ih =>
    have hself : ¬ dot :: c :: s <:+ c :: s := fun h => absurd h.length_le (by simp)
    have hdots : (s.tails.filter fun d => dot :: d <:+ c :: s) = afterDots (c :: s) := by
      rw [afterDots]
      by_cases hc : c = dot
      · rw [if_pos hc, ← ih.2]
        refine List.filter_congr fun d _ => decide_eq_decide.2 ?_
        rw [List.suffix_cons_iff, hc, List.cons.injEq, IsDomainOf, eq_comm (a := s)]
        exact or_congr_left (and_iff_right rfl)
      · rw [if_neg hc, ← ih.1]
        refine List.filter_congr fun d _ => decide_eq_decide.2 ?_
        rw [List.suffix_cons_iff, List.cons.injEq]
        exact or_iff_right fun h => hc h.1.symm
    refine ⟨?_, ?_⟩
    · rw [List.tails_cons, List.filter_cons_of_neg (by rwa [decide_eq_true_iff]), hdots]
    · have hwhole : IsDomainOf (c :: s) (c :: s) := Or.inl rfl
      rw [List.tails_cons, List.filter_cons_of_pos (by rwa [decide_eq_true_iff]),
        ← hdots]
      refine congrArg _ (List.filter_congr fun d hd => decide_eq_decide.2 (or_iff_right ?_))
      rintro rfl
      exact absurd ((List.mem_tails _ _).1 hd).length_le (by simp)

theorem breakDomain_injective : Function.Injective breakDomain := by
  intro d d' h
  have hd : [dot].intercalate (breakDomain d) = d := List.intercalate_splitOn dot
  have hd' : [dot].intercalate (breakDomain d') = d' := List.intercalate_splitOn dot
  rw [← hd, h, hd']

namespace DomainMatcherGroup

/-- A group of domains with their values. -/
def ofList (l : List (Bytes × UInt32)) : DomainMatcherGroup := l.foldl (fun g a => g.add a.1 a.2) {}

/-- A value is found under its own domain only. -/
theorem find_add (g : DomainMatcherGroup) (d k : Bytes) (v : UInt32) :
    ((g.add d v).root.getD .empty).find (breakDomain k).reverse =
      (g.root.getD .empty).find (breakDomain k).reverse ++ if d = k then [v] else [] := by
  rw [add, Option.getD_some, Trie.find_add]
  refine congrArg _ (if_congr ?_ rfl rfl)
  rw [List.reverse_inj, breakDomain_injective.eq_iff]

/-- The values of a stored domain are in its node, in the order in which they were added. -/
theorem find_ofList (l : List (Bytes × UInt32)) (d : Bytes) :
    ((ofList l).root.getD .empty).find (breakDomain d).reverse =
      (l.filter fun a => a.1 = d).map Prod.snd := by
  induction l using List.reverseRecOn with
  | nil => exact Trie.find_empty _
  | append_singleton l a ih =>
    rw [ofList, List.foldl_concat, ← ofList, find_add, ih, List.filter_append, List.map_append]
    by_cases ha : a.1 = d
    · rw [if_pos ha, List.filter_cons_of_pos (by rwa [decide_eq_true_iff])]
      rfl
    · rw [if_neg ha, List.filter_cons_of_neg (by rwa [decide_eq_true_iff])]
      rfl

/-- What is found for a string: the values of each domain that it is a domain of. -/
theorem matchDomain_eq_flatMap (g : DomainMatcherGroup) {s : Bytes} (h : s ≠ []) :
    g.matchDomain s = (s.tails.filter fun d => IsDomainOf d s).flatMap fun d =>
      (g.root.getD .empty).find (breakDomain d).reverse := by
  have hroot : g.matchDomain s = matchDomain ⟨some (g.root.getD .empty)⟩ s := by
    obtain ⟨_ | root⟩ := g
    · rw [Option.getD_none, matchDomain_eq .empty h, matchDomain, if_neg h]
      exact (List.flatMap_eq_nil_iff.2 fun _ _ => Trie.find_empty _).symm
    · rfl
  rw [hroot, matchDomain_eq _ h, tails_breakDomain, (filter_tails_suffix s).2, List.flatMap_map]

/-- A string is matched with the stored domains that it is a domain of, the longer ones
    first, and for each domain the values are in the order in which they were added. -/
theorem matchDomain_ofList (l : List (Bytes × UInt32)) {s : Bytes} (h : s ≠ []) :
    (ofList l).matchDomain s = (s.tails.filter fun d => IsDomainOf d s).flatMap fun d =>
      (l.filter fun a => a.1 = d).map Prod.snd :=
  (matchDomain_eq_flatMap _ h).trans
    (congrArg (fun f => List.flatMap f _) (funext fun d => find_ofList l d))

theorem nodup_tails (s : Bytes) : s.tails.Nodup := by
  induction s with
  | nil => exact List.nodup_singleton _
  | cons c s ih =>
    rw [List.tails_cons, List.nodup_cons]
    exact ⟨fun h => absurd ((List.mem_tails _ _).1 h).length_le (by simp), ih⟩

/-- A value that is added under one of the keys of a list is found once more. -/
theorem flatMap_append_perm {l : List Bytes} (hl : l.Nodup) (f : Bytes → List UInt32) (d : Bytes)
    (v : UInt32) : (l.flatMap fun k => f k ++ if d = k then [v] else []).Perm
      (l.flatMap f ++ if d ∈ l then [v] else []) := by
  induction l with
  | nil => rfl
  | cons k l ih =>
    rw [List.nodup_cons] at hl
    have hrest := ih hl.2
    rw [List.flatMap_cons, List.flatMap_cons]
    by_cases hk : d = k
    · have hd : d ∉ l := hk ▸ hl.1
      rw [if_neg hd, List.append_nil] at hrest
      rw [if_pos hk, if_pos (hk ▸ List.mem_cons_self), List.append_assoc, List.append_assoc]
      exact (List.perm_append_comm.trans (hrest.append_right [v])).append_left (f k)
    · have hmem : d ∈ k :: l ↔ d ∈ l := by rw [List.mem_cons, or_iff_right hk]
      rw [if_neg hk, List.append_nil, List.append_assoc, if_congr hmem rfl rfl]
      exact hrest.append_left (f k)

/-- A new domain adds its value where the string is a domain of it. -/
theorem matchDomain_add (g : DomainMatcherGroup) (d : Bytes) (v : UInt32) {s : Bytes} (h : s ≠ []) :
    ((g.add d v).matchDomain s).Perm
      (g.matchDomain s ++ if IsDomainOf d s then [v] else []) := by
  have hmem : d ∈ s.tails.filter (fun d => IsDomainOf d s) ↔ IsDomainOf d s := by
    rw [List.mem_filter, decide_eq_true_iff, List.mem_tails]
    refine and_iff_right_of_imp fun hd => ?_
    rcases hd with rfl | hsuffix
    · exact List.suffix_refl s
    · exact (List.suffix_cons dot d).trans hsuffix
  rw [matchDomain_eq_flatMap _ h, matchDomain_eq_flatMap _ h, ← if_congr hmem rfl rfl]
  simp only [find_add]
  exact flatMap_append_perm ((nodup_tails s).filter _) _ d v

end DomainMatcherGroup

end Gzv2ray.Strmatcher
