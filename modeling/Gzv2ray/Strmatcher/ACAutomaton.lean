import Gzv2ray.Buf.Reader
import Gzv2ray.Lib.LongestSuffix

/-!
# Automata of patterns

An automaton (`ACAutomaton`) is a trie of patterns, read from right to left. `build` gives the
edges that it lacks, from the nodes next to the root on, in the order of a queue: where no
pattern goes on, an edge leads to the node of the longest suffix.

* `ACAutomaton.add`, `ACAutomaton.build`, `ACAutomaton.matches`: the calls of an automaton;
* `ACAutomaton.IsTrie`: each node stands for the word on the way to it;
* `ACAutomaton.IsTrie.addWord`: a pattern that is added.
-/

namespace Gzv2ray.Strmatcher

/-- `Type` -/
inductive MatcherType
  | full
  | substr
  | domain
  | regex
  deriving DecidableEq

structure MatchType where
  matchType : MatcherType := .full
  exist : Bool := false

def trieEdge : Bool := true

def failEdge : Bool := false

structure Edge where
  edgeType : Bool := failEdge
  nextNode : ℕ := 0

/-! ## The alphabet -/

def validCharCount : ℕ := 53

/-- `! $ & ' ( ) * + , ; = : % - . _ ~` and the digits, which come after the letters. -/
def otherChars : Bytes :=
  [33, 36, 38, 39, 40, 41, 42, 43, 44, 59, 61, 58, 37, 45, 46, 95, 126,
    48, 49, 50, 51, 52, 53, 54, 55, 56, 57]

/-- `char2Index`, of which `~` is the last. What it does not list has the index of `A`. -/
def char2Index (c : UInt8) : Option ℕ :=
  if 126 < c then none
  else if 65 ≤ c ∧ c ≤ 90 then some (c - 65).toNat
  else if 97 ≤ c ∧ c ≤ 122 then some (c - 97).toNat
  else if c ∈ otherChars then some (26 + otherChars.idxOf c)
  else some 0

/-- The bytes that `char2Index` lists. -/
def InAlphabet (c : UInt8) : Prop := (65 ≤ c ∧ c ≤ 90) ∨ (97 ≤ c ∧ c ≤ 122) ∨ c ∈ otherChars

instance (c : UInt8) : Decidable (InAlphabet c) := inferInstanceAs (Decidable (_ ∨ _ ∨ _))

/-- The index of a byte of the alphabet. -/
def symbol (c : UInt8) : ℕ := (char2Index c).getD 0

/-- All bytes of the alphabet are looked at. -/
theorem inAlphabet_cases {p : UInt8 → Prop}
    (h : ∀ n : Fin 256, InAlphabet (.ofFin n) → p (.ofFin n)) {c : UInt8} (hc : InAlphabet c) :
    p c := h c.toFin hc

theorem InAlphabet.le {c : UInt8} (h : InAlphabet c) : c ≤ 126 := by
  refine inAlphabet_cases (p := fun c => c ≤ 126) ?_ h
  decide +kernel

/-- The table has an index for each byte that is not behind its last one. -/
theorem char2Index_eq {c : UInt8} (h : c ≤ 126) : char2Index c = some (symbol c) := by
  have hall : ∀ n : Fin 256, UInt8.ofFin n ≤ 126 →
      char2Index (.ofFin n) = some (symbol (.ofFin n)) := by decide +kernel
  exact hall c.toFin h

theorem symbol_lt {c : UInt8} (h : c ≤ 126) : symbol c < validCharCount := by
  have hall : ∀ n : Fin 256, UInt8.ofFin n ≤ 126 → symbol (.ofFin n) < validCharCount := by
    decide +kernel
  exact hall c.toFin h

/-! ## Automata -/

/-- An automaton. Nodes after `count` are as `newNode` makes them. -/
structure ACAutomaton where
  trie : ℕ → ℕ → Edge := fun _ _ => {}
  fail : ℕ → ℕ := fun _ => 0
  /-- `exists` -/
  matchTypes : ℕ → MatchType := fun _ => {}
  count : ℕ := 0

namespace ACAutomaton

def setEdge (ac : ACAutomaton) (node idx : ℕ) (e : Edge) : ACAutomaton :=
  { ac with trie := Function.update ac.trie node (Function.update (ac.trie node) idx e) }

theorem trie_setEdge (ac : ACAutomaton) (node idx n i : ℕ) (e : Edge) :
    (ac.setEdge node idx e).trie n i = if n = node ∧ i = idx then e else ac.trie n i := by
  by_cases hn : n = node
  · obtain rfl := hn
    simp [setEdge, Function.update_apply]
  · simp [setEdge, hn]

def setMatchType (ac : ACAutomaton) (node : ℕ) (t : MatchType) : ACAutomaton :=
  { ac with matchTypes := Function.update ac.matchTypes node t }

/-- The node that an index leads to, which is made if there is none. -/
def next (ac : ACAutomaton) (node idx : ℕ) : ℕ × ACAutomaton :=
  if (ac.trie node idx).nextNode = 0 then
    (ac.count + 1, { ac with count := ac.count + 1 }.setEdge node idx ⟨trieEdge, ac.count + 1⟩)
  else ((ac.trie node idx).nextNode, ac)

/-- The loop of `Add`, over the bytes of the domain from right to left. -/
def addFrom (ac : ACAutomaton) (node : ℕ) : Bytes → Outcome (ℕ × ACAutomaton)
  | [] => .ok (node, ac)
  | c :: rest =>
    match char2Index c with
    | none => .panic
    | some idx => (ac.next node idx).2.addFrom (ac.next node idx).1 rest

/-- `addFrom` over indices. -/
def addWord (ac : ACAutomaton) (node : ℕ) : List ℕ → ℕ × ACAutomaton
  | [] => (node, ac)
  | idx :: rest => (ac.next node idx).2.addWord (ac.next node idx).1 rest

def add (ac : ACAutomaton) (domain : Bytes) (t : MatcherType) : Outcome ACAutomaton :=
  (ac.addFrom 0 domain.reverse).bind fun (node, ac) =>
    let ac := ac.setMatchType node ⟨t, true⟩
    match t with
    | .domain =>
      let ac := ac.setMatchType node ⟨.full, true⟩
      let (node, ac) := ac.next node 40 -- `.`
      .ok (ac.setMatchType node ⟨t, true⟩)
    | _ => .ok ac

/-- A turn of the inner loop of `Build`. The queue has the nodes that its edges lead to. -/
def buildEdge (node : ℕ) (s : ACAutomaton × List ℕ) (i : ℕ) : ACAutomaton × List ℕ :=
  let (ac, queue) := s
  if (ac.trie node i).nextNode ≠ 0 then
    ({ ac with fail := Function.update ac.fail (ac.trie node i).nextNode
                         (ac.trie (ac.fail node) i).nextNode },
      queue ++ [(ac.trie node i).nextNode])
  else (ac.setEdge node i ⟨failEdge, (ac.trie (ac.fail node) i).nextNode⟩, queue)

/-- The outer loop of `Build`, as long as the fuel lasts. -/
def buildLoop : ℕ → ACAutomaton × List ℕ → Option ACAutomaton
  | _, (ac, []) => some ac
  | 0, (_, _ :: _) => none
  | fuel + 1, (ac, node :: queue) =>
    buildLoop fuel ((List.range validCharCount).foldl (buildEdge node) (ac, queue))

/-- Where the first edges of a node lead, if they lead on. -/
def nextNodes (ac : ACAutomaton) (node k : ℕ) : List ℕ :=
  ((List.range k).filter fun i => (ac.trie node i).nextNode ≠ 0).map fun i => (ac.trie node i).nextNode

/-- `Build`, with fuel for each node once. -/
def build (ac : ACAutomaton) : Option ACAutomaton :=
  buildLoop ac.count (ac, ac.nextNodes 0 validCharCount)

/-- The loop of `Match`, over the bytes of the string from right to left. -/
def matchFrom (ac : ACAutomaton) (node : ℕ) (fullMatch : Bool) : Bytes → Outcome Bool
  | [] => .ok (fullMatch && (ac.matchTypes node).exist)
  | c :: rest =>
    match char2Index c with
    | none => .panic
    | some idx =>
      let fullMatch := fullMatch && (ac.trie node idx).edgeType
      let node := (ac.trie node idx).nextNode
      match (ac.matchTypes node).matchType with
      | .substr => .ok true
      | .domain => if fullMatch then .ok true else ac.matchFrom node fullMatch rest
      | _ => ac.matchFrom node fullMatch rest

/-- `Match` -/
def «matches» (ac : ACAutomaton) (s : Bytes) : Outcome Bool := ac.matchFrom 0 true s.reverse

/-! ## The trie -/

/-- Before `build`, each node stands for the word on the way to it from the root. -/
structure IsTrie (ac : ACAutomaton) (path : ℕ → List ℕ) : Prop where
  path_zero : path 0 = []
  inj : ∀ m ≤ ac.count, ∀ n ≤ ac.count, path m = path n → m = n
  edge : ∀ n ≤ ac.count, ∀ i, (ac.trie n i).nextNode ≠ 0 →
    (ac.trie n i).nextNode ≤ ac.count ∧ path (ac.trie n i).nextNode = path n ++ [i]
  edgeType : ∀ n i, (ac.trie n i).edgeType = decide ((ac.trie n i).nextNode ≠ 0)
  parent : ∀ m ≤ ac.count, m ≠ 0 → ∃ n ≤ ac.count, ∃ i < validCharCount,
    (ac.trie n i).nextNode = m
  fresh : ∀ n, ac.count < n → ∀ i, (ac.trie n i).nextNode = 0
  fresh_matchType : ∀ n, ac.count < n → ac.matchTypes n = {}
  fail : ∀ n, ac.fail n = 0

/-- The words that nodes stand for. -/
def words (ac : ACAutomaton) (path : ℕ → List ℕ) : Set (List ℕ) := {w | ∃ n ≤ ac.count, path n = w}

namespace IsTrie

variable {ac : ACAutomaton} {path : ℕ → List ℕ}

theorem empty : IsTrie {} fun _ => [] where
  path_zero := rfl
  inj _ hm _ hn _ := (Nat.le_zero.1 hm).trans (Nat.le_zero.1 hn).symm
  edge _ _ _ h := absurd rfl h
  edgeType _ _ := rfl
  parent _ hm hne := absurd (Nat.le_zero.1 hm) hne
  fresh _ _ _ := rfl
  fresh_matchType _ _ := rfl
  fail _ := rfl

theorem nil_mem_words (h : IsTrie ac path) : [] ∈ ac.words path := ⟨0, Nat.zero_le _, h.path_zero⟩

/-- Where a word goes on to a word, there is an edge. -/
theorem nextNode_eq (h : IsTrie ac path) {n m i : ℕ} (hn : n ≤ ac.count) (hm : m ≤ ac.count)
    (hpath : path m = path n ++ [i]) : (ac.trie n i).nextNode = m ∧ m ≠ 0 ∧ i < validCharCount := by
  have hne : m ≠ 0 := by
    rintro rfl
    rw [h.path_zero] at hpath
    exact List.append_ne_nil_of_right_ne_nil _ (List.cons_ne_nil i []) hpath.symm
  obtain ⟨n', hn', i', hi', rfl⟩ := h.parent m hm hne
  have hedge := (h.edge n' hn' i' hne).2
  obtain ⟨heq, hcons⟩ := List.append_inj' (hedge.symm.trans hpath) rfl
  obtain rfl := h.inj n' hn' n hn heq
  obtain rfl := List.head_eq_of_cons_eq hcons
  exact ⟨rfl, hne, hi'⟩

theorem prefixClosed (h : IsTrie ac path) : PrefixClosed (ac.words path) := by
  rintro w ⟨n, hn, rfl⟩ v hv
  -- Along the way from the node to the root.
  generalize hlength : (path n).length = k
  induction k generalizing n with
  | zero =>
    rw [List.length_eq_zero_iff.1 hlength, List.prefix_nil] at hv
    exact hv ▸ h.nil_mem_words
  | succ k ih =>
    have hne : n ≠ 0 := fun h0 => by
      rw [h0, h.path_zero] at hlength
      exact Nat.succ_ne_zero k hlength.symm
    obtain ⟨m, hm, i, -, rfl⟩ := h.parent n hn hne
    have hedge := (h.edge m hm i hne).2
    rw [hedge, List.prefix_concat_iff] at hv
    rcases hv with rfl | hv
    · exact ⟨_, hn, hedge⟩
    · refine ih m hm hv ?_
      rw [hedge, List.length_append, List.length_singleton] at hlength
      exact Nat.succ.inj hlength

end IsTrie

/-- What is left of an automaton that gets new words. -/
structure Extends (ac : ACAutomaton) (path : ℕ → List ℕ) (ac' : ACAutomaton) (path' : ℕ → List ℕ)
    (new : Set (List ℕ)) : Prop where
  count_le : ac.count ≤ ac'.count
  path_eq : ∀ n ≤ ac.count, path' n = path n
  matchTypes_eq : ac'.matchTypes = ac.matchTypes
  new : ∀ m ≤ ac'.count, m ≤ ac.count ∨ path' m ∈ new

theorem Extends.trans {ac₁ ac₂ ac₃ : ACAutomaton} {path₁ path₂ path₃ : ℕ → List ℕ}
    {new new' : Set (List ℕ)} (h : Extends ac₁ path₁ ac₂ path₂ new)
    (h' : Extends ac₂ path₂ ac₃ path₃ new') : Extends ac₁ path₁ ac₃ path₃ (new ∪ new') where
  count_le := h.count_le.trans h'.count_le
  path_eq n hn := (h'.path_eq n (hn.trans h.count_le)).trans (h.path_eq n hn)
  matchTypes_eq := h'.matchTypes_eq.trans h.matchTypes_eq
  new m hm := by
    rcases h'.new m hm with hm | hm
    · rcases h.new m hm with hle | hnew
      · exact .inl hle
      · exact .inr (.inl (h'.path_eq m hm ▸ hnew))
    · exact .inr (.inr hm)

namespace IsTrie

variable {ac : ACAutomaton} {path : ℕ → List ℕ}

/-- A new node. -/
theorem concat (h : IsTrie ac path) {node idx : ℕ} (hnode : node ≤ ac.count)
    (hidx : idx < validCharCount) (hnext : (ac.trie node idx).nextNode = 0) :
    IsTrie ({ ac with count := ac.count + 1 }.setEdge node idx ⟨trieEdge, ac.count + 1⟩)
      (Function.update path (ac.count + 1) (path node ++ [idx])) := by
  have hpath : ∀ n ≤ ac.count,
      Function.update path (ac.count + 1) (path node ++ [idx]) n = path n := fun n hn =>
    Function.update_of_ne (Nat.ne_of_lt (Nat.lt_succ_of_le hn)) _ _
  -- No node stood for the word.
  have hnot : ∀ n ≤ ac.count, path n ≠ path node ++ [idx] := fun n hn heq =>
    (h.nextNode_eq hnode hn heq).2.1 ((h.nextNode_eq hnode hn heq).1.symm.trans hnext)
  refine ⟨(hpath 0 (Nat.zero_le _)).trans h.path_zero, ?_, ?_, ?_, ?_, ?_, ?_, h.fail⟩
  · intro m hm n hn heq
    rcases Nat.le_succ_iff.1 hm with hm | rfl <;> rcases Nat.le_succ_iff.1 hn with hn | rfl
    · rw [hpath m hm, hpath n hn] at heq
      exact h.inj m hm n hn heq
    · rw [hpath m hm, Function.update_self] at heq
      exact absurd heq (hnot m hm)
    · rw [hpath n hn, Function.update_self] at heq
      exact absurd heq.symm (hnot n hn)
    · rfl
  · intro n hn i hi
    rw [trie_setEdge] at hi ⊢
    split_ifs at hi ⊢ with heq
    · obtain ⟨rfl, rfl⟩ := heq
      refine ⟨le_rfl, ?_⟩
      rw [hpath n hnode]
      exact Function.update_self ..
    · rcases Nat.le_succ_iff.1 hn with hn | rfl
      · obtain ⟨hle, hedge⟩ := h.edge n hn i hi
        exact ⟨hle.trans (Nat.le_succ _), by rw [hpath _ hle, hpath n hn, hedge]⟩
      · exact absurd (h.fresh _ (Nat.lt_succ_self _) i) hi
  · intro n i
    rw [trie_setEdge]
    split_ifs
    · rfl
    · exact h.edgeType n i
  · intro m hm hne
    rcases Nat.le_succ_iff.1 hm with hm | rfl
    · obtain ⟨n, hn, i, hi, rfl⟩ := h.parent m hm hne
      refine ⟨n, hn.trans (Nat.le_succ _), i, hi, ?_⟩
      rw [trie_setEdge, if_neg]
      rintro ⟨rfl, rfl⟩
      exact hne hnext
    · exact ⟨node, hnode.trans (Nat.le_succ _), idx, hidx, by rw [trie_setEdge, if_pos ⟨rfl, rfl⟩]⟩
  · intro n hn i
    rw [trie_setEdge, if_neg fun heq => ?_]
    · exact h.fresh n ((Nat.lt_succ_self _).trans hn) i
    · exact absurd (heq.1 ▸ hnode) (Nat.not_le.2 ((Nat.lt_succ_self _).trans hn))
  · exact fun n hn => h.fresh_matchType n ((Nat.lt_succ_self _).trans hn)

/-- The node that an index leads to stands for the longer word. -/
theorem next (h : IsTrie ac path) {node idx : ℕ} (hnode : node ≤ ac.count)
    (hidx : idx < validCharCount) : ∃ path', IsTrie (ac.next node idx).2 path' ∧
      (ac.next node idx).1 ≤ (ac.next node idx).2.count ∧
      path' (ac.next node idx).1 = path node ++ [idx] ∧
      Extends ac path (ac.next node idx).2 path' {path node ++ [idx]} := by
  rw [ACAutomaton.next]
  split_ifs with hnext
  · refine ⟨_, h.concat hnode hidx hnext, le_rfl, Function.update_self .., Nat.le_succ _,
      fun n hn => Function.update_of_ne (Nat.ne_of_lt (Nat.lt_succ_of_le hn)) _ _, rfl, ?_⟩
    intro m hm
    rcases Nat.le_succ_iff.1 hm with hm | rfl
    · exact .inl hm
    · exact .inr (Function.update_self ..)
  · obtain ⟨hle, hedge⟩ := h.edge node hnode idx hnext
    exact ⟨path, h, hle, hedge, le_rfl, fun _ _ => rfl, rfl, fun _ hm => .inl hm⟩

/-- A word is added, with its prefixes. -/
theorem addWord (h : IsTrie ac path) {node : ℕ} (hnode : node ≤ ac.count) {w : List ℕ}
    (hw : ∀ i ∈ w, i < validCharCount) : ∃ path', IsTrie (ac.addWord node w).2 path' ∧
      (ac.addWord node w).1 ≤ (ac.addWord node w).2.count ∧
      path' (ac.addWord node w).1 = path node ++ w ∧
      Extends ac path (ac.addWord node w).2 path' {v | v <+: path node ++ w} := by
  induction w generalizing ac path node with
  | nil =>
    refine ⟨path, h, hnode, (List.append_nil _).symm, le_rfl, fun _ _ => rfl, rfl, ?_⟩
    exact fun m hm => .inl hm
  | cons i w ih =>
    obtain ⟨path₁, h₁, hle₁, hpath₁, hext₁⟩ := h.next hnode (hw i List.mem_cons_self)
    obtain ⟨path₂, h₂, hle₂, hpath₂, hext₂⟩ :=
      ih h₁ hle₁ fun j hj => hw j (List.mem_cons_of_mem i hj)
    rw [hpath₁, List.append_assoc, List.singleton_append] at hpath₂ hext₂
    refine ⟨path₂, h₂, hle₂, hpath₂, { hext₁.trans hext₂ with new := fun m hm => ?_ }⟩
    rcases (hext₁.trans hext₂).new m hm with hm | hm | hm
    · exact .inl hm
    · refine .inr ⟨w, ?_⟩
      rw [Set.mem_singleton_iff.1 hm, List.append_assoc, List.singleton_append]
    · exact .inr hm

end IsTrie

theorem addFrom_eq (ac : ACAutomaton) (node : ℕ) {s : Bytes} (h : ∀ c ∈ s, c ≤ 126) :
    ac.addFrom node s = .ok (ac.addWord node (s.map symbol)) := by
  induction s generalizing ac node with
  | nil => rfl
  | cons c s ih =>
    rw [addFrom, char2Index_eq (h c List.mem_cons_self)]
    exact ih _ _ fun d hd => h d (List.mem_cons_of_mem c hd)

theorem le_of_char2Index {c : UInt8} {idx : ℕ} (h : char2Index c = some idx) : c ≤ 126 := by
  rw [char2Index] at h
  split_ifs at h with hlt
  all_goals exact UInt8.not_lt.1 hlt

/-- A string is added only if the table has an index for each of its bytes. -/
theorem le_of_addFrom {ac : ACAutomaton} {node : ℕ} {s : Bytes} {r : ℕ × ACAutomaton}
    (h : ac.addFrom node s = .ok r) : ∀ c ∈ s, c ≤ 126 := by
  induction s generalizing ac node with
  | nil => exact fun _ hc => absurd hc List.not_mem_nil
  | cons c s ih =>
    rw [addFrom] at h
    cases hindex : char2Index c with
    | none =>
      rw [hindex] at h
      cases h
    | some idx =>
      rw [hindex] at h
      exact List.forall_mem_cons.2 ⟨le_of_char2Index hindex, ih h⟩

/-! ## Parts of strings -/

/-- The automaton is the trie of these words, each to be found as a part of a string. -/
structure IsTrieOf (ac : ACAutomaton) (path : ℕ → List ℕ) (R : Set (List ℕ)) : Prop
    extends IsTrie ac path where
  words_eq : ac.words path = prefixesOf R
  mem_iff : ∀ n ≤ ac.count, path n ∈ R → ac.matchTypes n = ⟨.substr, true⟩
  matchTypes_eq : ∀ n ≤ ac.count, path n ∉ R → ac.matchTypes n = {}

theorem IsTrieOf.empty : IsTrieOf {} (fun _ => []) ∅ where
  toIsTrie := .empty
  words_eq := by
    ext w
    constructor
    · rintro ⟨n, -, rfl⟩
      exact nil_mem_prefixesOf
    · rintro (rfl | ⟨r, hr, -⟩)
      · exact ⟨0, le_rfl, rfl⟩
      · exact hr.elim
  mem_iff _ _ h := h.elim
  matchTypes_eq _ _ _ := rfl

/-- A pattern is added. -/
theorem IsTrieOf.add {ac : ACAutomaton} {path : ℕ → List ℕ} {R : Set (List ℕ)}
    (h : IsTrieOf ac path R) {p : Bytes} (hp : ∀ c ∈ p, c ≤ 126) : ∃ ac' path',
      ac.add p .substr = .ok ac' ∧ IsTrieOf ac' path' (insert (p.reverse.map symbol) R) := by
  have hp' : ∀ c ∈ p.reverse, c ≤ 126 := fun c hc => hp c (List.mem_reverse.1 hc)
  have hw : ∀ i ∈ p.reverse.map symbol, i < validCharCount := by
    intro i hi
    obtain ⟨c, hc, rfl⟩ := List.mem_map.1 hi
    exact symbol_lt (hp' c hc)
  obtain ⟨path', htrie, hle, hpath, hext⟩ := h.toIsTrie.addWord (Nat.zero_le _) hw
  rw [h.path_zero, List.nil_append] at hpath hext
  refine ⟨_, path', by rw [ACAutomaton.add, addFrom_eq ac 0 hp']; rfl, ?_⟩
  generalize p.reverse.map symbol = w at *
  generalize ac.addWord 0 w = r at *
  obtain ⟨node, ac'⟩ := r
  -- The node of a word is one, so the new word is marked there and nowhere else.
  have hnode : ∀ m ≤ ac'.count, path' m = w → m = node := fun m hm heq =>
    htrie.inj m hm node hle (heq.trans hpath.symm)
  have hold : ∀ n ≤ ac'.count, path' n ∈ R → n ≤ ac.count ∧ path n ∈ R := by
    intro n hn hr
    have hword : path' n ∈ ac.words path := h.words_eq ▸ mem_prefixesOf hr
    obtain ⟨m, hm, heq⟩ := hword
    obtain rfl := htrie.inj m (hm.trans hext.count_le) n hn ((hext.path_eq m hm).trans heq)
    exact ⟨hm, heq ▸ hr⟩
  refine ⟨⟨htrie.path_zero, htrie.inj, htrie.edge, htrie.edgeType, htrie.parent, htrie.fresh, ?_,
    htrie.fail⟩, ?_, ?_, ?_⟩
  · intro n hn
    exact (Function.update_of_ne (ne_of_gt (hle.trans_lt hn)) _ _).trans (htrie.fresh_matchType n hn)
  · ext v
    constructor
    · rintro ⟨m, hm, rfl⟩
      rcases hext.new m hm with hm | hm
      · have hv : path' m ∈ prefixesOf R := h.words_eq ▸ ⟨m, hm, (hext.path_eq m hm).symm⟩
        rcases hv with hv | ⟨r, hr, hv⟩
        · exact .inl hv
        · exact .inr ⟨r, .inr hr, hv⟩
      · exact .inr ⟨w, .inl rfl, hm⟩
    · rintro (rfl | ⟨r, rfl | hr, hv⟩)
      · exact htrie.nil_mem_words
      · exact htrie.prefixClosed r ⟨node, hle, hpath⟩ v hv
      · have hv : v ∈ ac.words path := h.words_eq ▸ .inr ⟨r, hr, hv⟩
        obtain ⟨m, hm, rfl⟩ := hv
        exact ⟨m, hm.trans hext.count_le, hext.path_eq m hm⟩
  · intro n hn hr
    by_cases hne : n = node
    · exact hne ▸ Function.update_self ..
    · obtain ⟨hn', hr'⟩ := hold n hn (hr.resolve_left fun heq => hne (hnode n hn heq))
      refine (Function.update_of_ne hne _ _).trans ?_
      rw [hext.matchTypes_eq]
      exact h.mem_iff n hn' hr'
  · intro n hn hr
    refine (Function.update_of_ne ?_ _ _).trans ?_
    · exact fun heq => hr (.inl (heq ▸ hpath))
    · rw [hext.matchTypes_eq]
      rcases Nat.lt_or_ge ac.count n with hlt | hle'
      · exact h.fresh_matchType n hlt
      · exact h.matchTypes_eq n hle' fun hr' => hr (.inr (hext.path_eq n hle' ▸ hr'))

/-- Adds patterns one after another. -/
def addAll (ac : ACAutomaton) : List Bytes → Outcome ACAutomaton
  | [] => .ok ac
  | p :: rest => (ac.add p .substr).bind fun ac => ac.addAll rest

theorem IsTrieOf.addAll {ac : ACAutomaton} {path : ℕ → List ℕ} {R : Set (List ℕ)}
    (h : IsTrieOf ac path R) {P : List Bytes} (hP : ∀ p ∈ P, ∀ c ∈ p, c ≤ 126) :
    ∃ ac' path', ac.addAll P = .ok ac' ∧
      IsTrieOf ac' path' (R ∪ {w | ∃ p ∈ P, p.reverse.map symbol = w}) := by
  induction P generalizing ac path R with
  | nil =>
    refine ⟨ac, path, rfl, ?_⟩
    simpa using h
  | cons p P ih =>
    obtain ⟨ac₁, path₁, hadd, h₁⟩ := h.add (hP p List.mem_cons_self)
    obtain ⟨ac₂, path₂, hall, h₂⟩ := ih h₁ fun q hq => hP q (List.mem_cons_of_mem p hq)
    refine ⟨ac₂, path₂, by rw [ACAutomaton.addAll, hadd]; exact hall, ?_⟩
    convert h₂ using 1
    ext w
    simp only [Set.mem_union, Set.mem_ofPred_eq, Set.mem_insert_iff, List.mem_cons]
    constructor
    · rintro (h | ⟨q, rfl | hq, rfl⟩)
      · exact .inl (.inr h)
      · exact .inl (.inl rfl)
      · exact .inr ⟨q, hq, rfl⟩
    · rintro ((rfl | h) | ⟨q, hq, rfl⟩)
      · exact .inr ⟨p, .inl rfl, rfl⟩
      · exact .inl h
      · exact .inr ⟨q, .inr hq, rfl⟩

end ACAutomaton

end Gzv2ray.Strmatcher
