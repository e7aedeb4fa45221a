import Gzv2ray.Buf.Reader
import Gzv2ray.Strmatcher.DomainMatcher

/-!
# Groups of matchers

A group keeps its matchers by their types: full strings in a map, domains in a trie, and the
others in a list. What matches a string is told by the ids that were given to the matchers.

* `MatcherGroup.add`, `MatcherGroup.matchIds`: the calls of a group;
* `matchIds_addAll`: the ids of all matchers that tell of a string, each as often as it was given;
* `matchIds_exact_iff`: no id is told twice if no two of these matchers were given the same.
-/

namespace Gzv2ray.Strmatcher

/-- `strings.Contains` -/
def contains (s sub : Bytes) : Bool := s.tails.any fun t => sub.isPrefixOf t

/-- A matcher. A regular expression is what it matches. -/
inductive Matcher
  | full (pattern : Bytes)
  | substr (pattern : Bytes)
  | domain (pattern : Bytes)
  | regex (matchString : Bytes → Bool)

/-- `Matcher.Match` -/
def Matcher.matches : Matcher → Bytes → Bool
  | .full pattern, s => pattern == s
  | .substr pattern, s => contains s pattern
  | .domain pattern, s =>
    if !pattern.isSuffixOf s then false
    else s.length == pattern.length || s[s.length - pattern.length - 1]? == some dot
  | .regex matchString, s => matchString s

structure FullMatcherGroup where
  matchers : Bytes → List UInt32 := fun _ => []

def FullMatcherGroup.add (g : FullMatcherGroup) (domain : Bytes) (value : UInt32) :
    FullMatcherGroup :=
  { matchers := Function.update g.matchers domain (g.matchers domain ++ [value]) }

structure MatcherGroup where
  count : UInt32 := 0
  fullMatcher : FullMatcherGroup := {}
  domainMatcher : DomainMatcherGroup := {}
  otherMatchers : List (Matcher × UInt32) := []

namespace MatcherGroup

/-- Adds a matcher, and returns its id. -/
def add (g : MatcherGroup) (m : Matcher) : UInt32 × MatcherGroup :=
  let c := g.count + 1
  let g := { g with count := c }
  match m with
  | .full pattern => (c, { g with fullMatcher := g.fullMatcher.add pattern c })
  | .domain pattern => (c, { g with domainMatcher := g.domainMatcher.add pattern c })
  | m => (c, { g with otherMatchers := g.otherMatchers ++ [(m, c)] })

/-- `MatcherGroup.Match` -/
def matchIds (g : MatcherGroup) (pattern : Bytes) : List UInt32 :=
  g.fullMatcher.matchers pattern ++ g.domainMatcher.matchDomain pattern ++
    (g.otherMatchers.filter fun e => e.1.matches pattern).map Prod.snd

def size (g : MatcherGroup) : UInt32 := g.count

/-- Adds some matchers, and returns their ids. -/
def addAll : List Matcher → MatcherGroup → List UInt32 × MatcherGroup
  | [], g => ([], g)
  | m :: ms, g =>
    let (id, g) := g.add m
    let (ids, g) := addAll ms g
    (id :: ids, g)

end MatcherGroup

/-- The ids of a group are told exactly, and each once. -/
structure MatchesExactly (ms : List Matcher) (s : Bytes) : Prop where
  mem_iff : ∀ id, id ∈ (MatcherGroup.addAll ms {}).2.matchIds s ↔
    ∃ (i : ℕ) (m : Matcher), ms[i]? = some m ∧
      (MatcherGroup.addAll ms {}).1[i]? = some id ∧ m.matches s = true
  nodup : ((MatcherGroup.addAll ms {}).2.matchIds s).Nodup

/-! ## The matchers -/

/-- A string that ends with a pattern, and is longer. -/
theorem suffix_concat_iff (t pattern : Bytes) (c : UInt8) :
    dot :: pattern <:+ t ++ [c] ++ pattern ↔ c = dot := by
  rw [List.append_assoc, List.singleton_append]
  constructor
  · intro h
    have heq := List.IsSuffix.eq_of_length
      (List.suffix_of_suffix_length_le h (List.suffix_append t (c :: pattern)) le_rfl) rfl
    exact (List.cons.inj heq).1.symm
  · rintro rfl
    exact List.suffix_append t _

theorem domain_matches (pattern : Bytes) {s : Bytes} :
    (Matcher.domain pattern).matches s = true ↔ IsDomainOf pattern s := by
  rw [Matcher.matches, IsDomainOf]
  by_cases hsuffix : pattern <:+ s
  · rw [List.isSuffixOf_iff_suffix.2 hsuffix, Bool.not_true, if_neg Bool.false_ne_true]
    obtain ⟨t, rfl⟩ := hsuffix
    rcases List.eq_nil_or_concat t with rfl | ⟨t, c, rfl⟩
    · simp
    · have hlength : (t.concat c ++ pattern).length ≠ pattern.length := by
        rw [List.length_append, List.length_concat]
        omega
      have hlast : (t.concat c ++ pattern)[(t.concat c ++ pattern).length - pattern.length - 1]? =
          some c := by
        rw [List.length_append, List.length_concat, Nat.add_sub_cancel, Nat.add_sub_cancel,
          List.concat_eq_append, List.append_assoc, List.getElem?_append_right le_rfl, Nat.sub_self]
        rfl
      rw [hlast, beq_false_of_ne hlength, Bool.false_or, beq_iff_eq, Option.some.injEq,
        or_iff_right fun heq => hlength (congrArg List.length heq), List.concat_eq_append,
        suffix_concat_iff]
  · have hnot : pattern.isSuffixOf s = false := by
      rwa [Bool.eq_false_iff, ne_eq, List.isSuffixOf_iff_suffix]
    rw [hnot, Bool.not_false, if_pos rfl]
    refine iff_of_false Bool.false_ne_true ?_
    rintro (rfl | hdot)
    · exact hsuffix (List.suffix_refl _)
    · exact hsuffix ((List.suffix_cons dot pattern).trans hdot)

namespace MatcherGroup

theorem add_fst (g : MatcherGroup) (m : Matcher) : (g.add m).1 = g.count + 1 := by
  cases m <;> rfl

theorem add_count (g : MatcherGroup) (m : Matcher) : (g.add m).2.count = g.count + 1 := by
  cases m <;> rfl

/-- A matcher that is put into the list. -/
theorem matchIds_other (g : MatcherGroup) (m : Matcher) (c : UInt32) (s : Bytes) :
    matchIds { g with count := c, otherMatchers := g.otherMatchers ++ [(m, c)] } s =
      g.matchIds s ++ if m.matches s then [c] else [] := by
  rw [matchIds, matchIds, List.filter_append, List.map_append, ← List.append_assoc]
  refine congrArg _ ?_
  rw [List.filter_cons, List.filter_nil]
  split <;> rfl

/-- A matcher tells of a string that it matches. No domain is told of the empty string. -/
def tells : Matcher → Bytes → Bool
  | .domain pattern, s => s ≠ [] && (Matcher.domain pattern).matches s
  | m, s => m.matches s

theorem tells_eq (m : Matcher) {s : Bytes} (h : s ≠ []) : tells m s = m.matches s := by
  cases m with
  | domain pattern => rw [tells, decide_eq_true h, Bool.true_and]
  | full pattern => rfl
  | substr pattern => rfl
  | regex matchString => rfl

/-- A new matcher adds its id where it tells of the string. -/
theorem matchIds_add (g : MatcherGroup) (m : Matcher) (s : Bytes) :
    ((g.add m).2.matchIds s).Perm (g.matchIds s ++ if tells m s then [(g.add m).1] else []) := by
  cases m with
  | full pattern =>
    have htells : tells (.full pattern) s = (pattern == s) := rfl
    rw [add, matchIds, matchIds, htells, FullMatcherGroup.add]
    dsimp only
    by_cases hs : pattern = s
    · rw [hs, Function.update_self, if_pos (beq_self_eq_true s), List.append_assoc,
        List.append_assoc, List.append_assoc (g.fullMatcher.matchers s), List.append_assoc]
      exact List.perm_append_comm.append_left _
    · rw [Function.update_of_ne (Ne.symm hs), if_neg (by rwa [beq_iff_eq]), List.append_nil]
  | domain pattern =>
    by_cases h : s = []
    · subst h
      rw [add, matchIds, matchIds, DomainMatcherGroup.matchDomain, DomainMatcherGroup.matchDomain]
      exact .of_eq (List.append_nil _).symm
    · have hdomain := g.domainMatcher.matchDomain_add pattern (g.count + 1) h
      rw [tells_eq _ h, add, matchIds, matchIds, if_congr (domain_matches pattern) rfl rfl]
      refine ((hdomain.append_left _).append_right _).trans ?_
      rw [← List.append_assoc, List.append_assoc _ _ (List.map _ _),
        List.append_assoc _ (List.map _ _)]
      exact List.perm_append_comm.append_left _
  | substr pattern => exact .of_eq (matchIds_other g (.substr pattern) (g.count + 1) s)
  | regex matchString => exact .of_eq (matchIds_other g (.regex matchString) (g.count + 1) s)

/-- The ids that are given: the count goes on. -/
theorem getElem?_addAll (ms : List Matcher) (g : MatcherGroup) (i : ℕ) :
    (addAll ms g).1[i]? = ms[i]?.map fun _ => g.count + UInt32.ofNat (i + 1) := by
  induction ms generalizing g i with
  | nil => rfl
  | cons m ms ih =>
    cases i with
    | zero => exact congrArg some (add_fst g m)
    | succ i =>
      rw [addAll, List.getElem?_cons_succ, List.getElem?_cons_succ, ih, add_count,
        UInt32.add_assoc, UInt32.ofNat_add (i + 1) 1, UInt32.add_comm 1]
      rfl

theorem length_addAll (ms : List Matcher) (g : MatcherGroup) :
    (addAll ms g).1.length = ms.length := by
  induction ms generalizing g with
  | nil => rfl
  | cons m ms ih =>
    rw [addAll, List.length_cons, List.length_cons, ih]

theorem addAll_append (ms ms' : List Matcher) (g : MatcherGroup) :
    (addAll (ms ++ ms') g).2 = (addAll ms' (addAll ms g).2).2 := by
  induction ms generalizing g with
  | nil => rfl
  | cons m ms ih => exact ih (g.add m).2

theorem count_addAll (ms : List Matcher) (g : MatcherGroup) :
    (addAll ms g).2.count = g.count + UInt32.ofNat ms.length := by
  induction ms generalizing g with
  | nil => exact (UInt32.add_zero _).symm
  | cons m ms ih =>
    rw [addAll, ih, add_count, UInt32.add_assoc, List.length_cons, UInt32.ofNat_add,
      UInt32.add_comm 1]
    rfl

/-- The ids of all matchers that tell of the string, each as often as it was given. -/
theorem matchIds_addAll (ms : List Matcher) (g : MatcherGroup) (s : Bytes) :
    ((addAll ms g).2.matchIds s).Perm (g.matchIds s ++
      ((ms.zip (addAll ms g).1).filter fun e => tells e.1 s).map Prod.snd) := by
  induction ms generalizing g with
  | nil => exact .of_eq (List.append_nil _).symm
  | cons m ms ih =>
    rw [addAll]
    refine (ih (g.add m).2).trans (((matchIds_add g m s).append_right _).trans (.of_eq ?_))
    rw [List.zip_cons_cons, List.filter_cons, List.append_assoc]
    split <;> rfl

end MatcherGroup

/-- Of the matchers that match, no two were added a multiple of 2^32 calls apart. -/
def DistinctIds (ms : List Matcher) (s : Bytes) : Prop :=
  ∀ (i j : ℕ) (m m' : Matcher), i < j → ms[i]? = some m → ms[j]? = some m' →
    m.matches s = true → m'.matches s = true → ¬ 2 ^ 32 ∣ j - i

theorem ofNat_succ_eq_iff {i j : ℕ} (hlt : i < j) :
    (0 : UInt32) + UInt32.ofNat (i + 1) = 0 + UInt32.ofNat (j + 1) ↔ 2 ^ 32 ∣ j - i := by
  rw [UInt32.zero_add, UInt32.zero_add, ← UInt32.toNat_inj, UInt32.toNat_ofNat',
    UInt32.toNat_ofNat', Nat.dvd_iff_mod_eq_zero]
  omega

/-- What is told is exact, and each id is told once if and only if no two of the matchers
    that match have the same id. -/
theorem matchesExactly_iff (ms : List Matcher) {s : Bytes} (h : s ≠ []) :
    MatchesExactly ms s ↔ DistinctIds ms s := by
  have hperm := MatcherGroup.matchIds_addAll ms {} s
  simp only [MatcherGroup.tells_eq _ h] at hperm
  have hlength := MatcherGroup.length_addAll ms {}
  have hempty : MatcherGroup.matchIds {} s = [] := by
    rw [MatcherGroup.matchIds, DomainMatcherGroup.matchDomain, if_neg h]
    rfl
  rw [hempty, List.nil_append] at hperm
  have hmem (id : UInt32) : id ∈ (MatcherGroup.addAll ms {}).2.matchIds s ↔
      ∃ (i : ℕ) (m : Matcher), ms[i]? = some m ∧
        (MatcherGroup.addAll ms {}).1[i]? = some id ∧ m.matches s = true := by
    rw [hperm.mem_iff, List.mem_map]
    constructor
    · rintro ⟨⟨m, id'⟩, he, rfl⟩
      rw [List.mem_filter] at he
      obtain ⟨i, hi⟩ := List.getElem?_of_mem he.1
      rw [List.getElem?_zip_eq_some] at hi
      exact ⟨i, m, hi.1, hi.2, he.2⟩
    · rintro ⟨i, m, hi, hid, hmatches⟩
      refine ⟨(m, id), List.mem_filter.2 ⟨?_, hmatches⟩, rfl⟩
      exact List.mem_of_getElem? (List.getElem?_zip_eq_some.2 ⟨hi, hid⟩)
  have hnodup : ((MatcherGroup.addAll ms {}).2.matchIds s).Nodup ↔ DistinctIds ms s := by
    have hentry (i : ℕ) (e : Matcher × UInt32) :
        (ms.zip (MatcherGroup.addAll ms {}).1)[i]? = some e ↔
          ms[i]? = some e.1 ∧ e.2 = 0 + UInt32.ofNat (i + 1) := by
      rw [List.getElem?_zip_eq_some, MatcherGroup.getElem?_addAll]
      refine and_congr_right fun hi => ?_
      rw [hi, Option.map_some, Option.some.injEq, eq_comm]
    rw [hperm.nodup_iff, List.Nodup, List.pairwise_map, List.pairwise_filter,
      List.pairwise_iff_getElem]
    constructor
    · intro hpairwise i j m m' hij hi hj hm hm' hdvd
      obtain ⟨hilt, hie⟩ := List.getElem?_eq_some_iff.1 ((hentry i (m, _)).2 ⟨hi, rfl⟩)
      obtain ⟨hjlt, hje⟩ := List.getElem?_eq_some_iff.1 ((hentry j (m', _)).2 ⟨hj, rfl⟩)
      have hne := hpairwise i j hilt hjlt hij
      rw [hie, hje] at hne
      exact hne hm hm' ((ofNat_succ_eq_iff hij).2 hdvd)
    · intro hdistinct i j hi hj hij hm hm' heq
      obtain ⟨hmi, hidi⟩ := (hentry i _).1 (List.getElem?_eq_getElem hi)
      obtain ⟨hmj, hidj⟩ := (hentry j _).1 (List.getElem?_eq_getElem hj)
      rw [hidi, hidj] at heq
      exact hdistinct i j _ _ hij hmi hmj hm hm' ((ofNat_succ_eq_iff hij).1 heq)
  exact ⟨fun hexact => hnodup.1 hexact.nodup, fun hdistinct => ⟨hmem, hnodup.2 hdistinct⟩⟩

/-- What a group of domains tells: the values of the stored domains that the string is or
    ends with after a dot, the longer domains first, those of a domain in their order. -/
def DomainsExact (l : List (Bytes × UInt32)) (s : Bytes) : Prop :=
  (DomainMatcherGroup.ofList l).matchDomain s =
    (s.tails.filter fun d => s = d ∨ dot :: d <:+ s).flatMap fun d =>
      (l.filter fun a => a.1 = d).map Prod.snd

/-- A group tells exactly the ids of the matchers that match, each once, if and only if no
    two of these were added a multiple of 2^32 calls apart. A group of domains tells the
    values of the domains that match, in order. -/
theorem matchIds_exact_iff (ms : List Matcher) (l : List (Bytes × UInt32)) {s : Bytes}
    (h : s ≠ []) : MatchesExactly ms s ∧ DomainsExact l s ↔ DistinctIds ms s :=
  (and_iff_left (DomainMatcherGroup.matchDomain_ofList l h)).trans (matchesExactly_iff ms h)

/-- A domain and one of its subdomains. -/
theorem matchIds_exact_example :
    MatchesExactly [.domain (ascii "b"), .domain (ascii "a.b")] (ascii "a.b") ∧
        DomainsExact [(ascii "b", 1), (ascii "a.b", 2)] (ascii "a.b") ↔
      DistinctIds [.domain (ascii "b"), .domain (ascii "a.b")] (ascii "a.b") :=
  matchIds_exact_iff _ _ (by decide)

/-! ## Ids that are given again -/

/-- The id of a matcher is given again after 2^32 calls. -/
theorem not_matchesExactly_replicate {m : Matcher} {s : Bytes} (h : s ≠ [])
    (hm : m.matches s = true) {n : ℕ} (hn : 2 ^ 32 < n) :
    ¬ MatchesExactly (List.replicate n m) s := by
  intro hexact
  have hget (i : ℕ) (hi : i < n) : (List.replicate n m)[i]? = some m := by
    rw [List.getElem?_replicate, if_pos hi]
  exact (matchesExactly_iff _ h).1 hexact 0 (2 ^ 32) m m (by decide) (hget _ (by omega))
    (hget _ hn) hm hm (dvd_refl _)

/-- A string is added as a full matcher 2^32 + 1 times. -/
theorem id_given_again :
    ¬ MatchesExactly (List.replicate (2 ^ 32 + 1) (.full (ascii "a"))) (ascii "a") :=
  not_matchesExactly_replicate (by decide) (by decide) (Nat.lt_succ_self _)

end Gzv2ray.Strmatcher
