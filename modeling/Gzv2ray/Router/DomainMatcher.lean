import Gzv2ray.Strmatcher.ACAutomatonMatch
import Gzv2ray.Strmatcher.MphLookup

/-!
# Conditions on domains

A condition on the domain of a target is a list of rules. They are matched in one of two ways: by
a linear matcher, or by a hybrid one that has a hash table for full strings and domains and an
automaton for keywords.

* `newMphMatcherGroup`, `newDomainMatcher`, `applyDomain`: the code;
* `entries`: the strings that are found in the hash table;
* `AreExact`, `agree_iff`: both ways agree on all domains if and only if there is no keyword and
  the rules tell of the strings of the hash table alone.

The functions `strings.ToLower` and `regexp.Compile` of the standard library are parameters.
-/

namespace Gzv2ray.Router

open Strmatcher

/-- `Domain_Type` -/
inductive DomainType
  | plain
  | regex
  | domain
  | full
  | other (n : ℤ)
  deriving DecidableEq

/-- The name of a type, or its number. -/
def DomainType.text : DomainType → Bytes
  | .plain => ascii "Plain"
  | .regex => ascii "Regex"
  | .domain => ascii "Domain"
  | .full => ascii "Full"
  | .other n => ascii (toString n)

structure Domain where
  type : DomainType
  value : Bytes

def matcherTypeMap : DomainType → Option MatcherType
  | .plain => some .substr
  | .regex => some .regex
  | .domain => some .domain
  | .full => some .full
  | .other _ => none

/-- `IndexMatcher` -/
inductive IndexMatcher
  | mph (g : MphMatcherGroup)
  | group (g : MatcherGroup)

def IndexMatcher.matchIds : IndexMatcher → Bytes → Outcome (List UInt32)
  | .mph g, s => g.matchIds s
  | .group g, s => .ok (g.matchIds s)

section

variable (toLower : Bytes → Bytes) (compile : Bytes → Except Error (Bytes → Bool))

/-- `Type.New` -/
def newMatcher (t : MatcherType) (pattern : Bytes) : Except Error Matcher :=
  match t with
  | .full => .ok (.full pattern)
  | .substr => .ok (.substr pattern)
  | .domain => .ok (.domain pattern)
  | .regex =>
    match compile pattern with
    | .error e => .error e
    | .ok r => .ok (.regex r)

def unsupported (t : DomainType) : Error :=
  .new (ascii "app/router: unsupported domain type" ++ t.text)

def domainToMatcher (domain : Domain) : Except Error Matcher :=
  match matcherTypeMap domain.type with
  | none => .error (unsupported domain.type)
  | some matcherType =>
    match newMatcher compile matcherType domain.value with
    | .error e => .error ((newError "app/router" "failed to create domain matcher").base e)
    | .ok m => .ok m

/-- The loop of `newDomainMatcher`. -/
def addMatchers (g : MatcherGroup) : List Domain → Except Error MatcherGroup
  | [] => .ok g
  | d :: domains =>
    match domainToMatcher compile d with
    | .error e => .error e
    | .ok m => addMatchers (g.add m).2 domains

def newDomainMatcher (domains : List Domain) : Except Error IndexMatcher :=
  (addMatchers compile {} domains).map .group

/-- The loop of `newMphMatcherGroup`. -/
def addPatterns (g : MphMatcherGroup) : List Domain → Outcome MphMatcherGroup
  | [] => .ok g
  | d :: domains =>
    match matcherTypeMap d.type with
    | none => .error (unsupported d.type)
    | some matcherType =>
      (g.addPattern toLower compile d.value matcherType).bind fun g => addPatterns g.2 domains

/-- The hybrid matcher, with fuel for the seeds of the hash table. -/
def newMphMatcherGroup (c : Choices) (fuel : ℕ) (domains : List Domain) :
    Option (Outcome IndexMatcher) :=
  match addPatterns toLower compile {} domains with
  | .ok g => (g.build c fuel).map fun g => .ok (.mph g)
  | .error e => some (.error e)
  | .panic => some .panic

def applyDomain (m : IndexMatcher) (domain : Bytes) : Outcome Bool :=
  (m.matchIds (toLower domain)).map fun ids => decide (0 < ids.length)

/-- Two matchers do not panic, and tell the same of every domain. -/
def Agree (m m' : IndexMatcher) : Prop :=
  ∀ domain, ∃ found, applyDomain toLower m domain = .ok found ∧
    applyDomain toLower m' domain = .ok found

/-- Letters are made small one by one, and no dot is made of any. -/
structure LowersLetters : Prop where
  nil : toLower [] = []
  idem (s) : toLower (toLower s) = toLower s
  append (s c t) : c < 128 → toLower (s ++ c :: t) = toLower s ++ lower c :: toLower t
  dot_notMem (s) : dot ∉ s → dot ∉ toLower s

/-! ## The linear matcher -/

/-- The rule is told of a string. -/
def Tells (d : Domain) (s : Bytes) : Prop :=
  ∃ m, domainToMatcher compile d = .ok m ∧ MatcherGroup.tells m s = true

variable {compile}

theorem tells_full (value s : Bytes) : Tells compile ⟨.full, value⟩ s ↔ value = s := by
  constructor
  · rintro ⟨m, hm, htells⟩
    obtain rfl := Except.ok.inj hm
    exact beq_iff_eq.1 htells
  · rintro rfl
    exact ⟨_, rfl, beq_self_eq_true value⟩

theorem tells_domain (value s : Bytes) :
    Tells compile ⟨.domain, value⟩ s ↔ s ≠ [] ∧ IsDomainOf value s := by
  have htells : MatcherGroup.tells (.domain value) s = true ↔ s ≠ [] ∧ IsDomainOf value s := by
    rw [MatcherGroup.tells, Bool.and_eq_true, decide_eq_true_iff, domain_matches]
  rw [← htells]
  constructor
  · rintro ⟨m, hm, h⟩
    obtain rfl := Except.ok.inj hm
    exact h
  · exact fun h => ⟨_, rfl, h⟩

/-- A matcher more is told of what it matches. -/
theorem matchIds_add_ne_nil (g : MatcherGroup) (m : Matcher) (s : Bytes) :
    (g.add m).2.matchIds s ≠ [] ↔ g.matchIds s ≠ [] ∨ MatcherGroup.tells m s = true := by
  have hperm := MatcherGroup.matchIds_add g m s
  rw [ne_eq, ← List.length_eq_zero_iff, hperm.length_eq, List.length_append, ne_eq,
    ← List.length_eq_zero_iff]
  split
  · rename_i htells
    exact iff_of_true (Nat.succ_ne_zero _) (.inr htells)
  · rename_i htells
    rw [or_iff_left htells]
    rfl

theorem matchIds_of_addMatchers {g g' : MatcherGroup} {domains : List Domain}
    (h : addMatchers compile g domains = .ok g') (s : Bytes) :
    g'.matchIds s ≠ [] ↔ g.matchIds s ≠ [] ∨ ∃ d ∈ domains, Tells compile d s := by
  induction domains generalizing g with
  | nil =>
    obtain rfl := Except.ok.inj h
    rw [or_iff_left]
    rintro ⟨d, hd, -⟩
    exact List.not_mem_nil hd
  | cons d domains ih =>
    rw [addMatchers] at h
    rcases hm : domainToMatcher compile d with e | m
    · rw [hm] at h
      cases h
    · rw [hm] at h
      have htells : Tells compile d s ↔ MatcherGroup.tells m s = true := by
        constructor
        · rintro ⟨m', hm', htells⟩
          obtain rfl := Except.ok.inj (hm.symm.trans hm')
          exact htells
        · exact fun htells => ⟨m, hm, htells⟩
      rw [ih h, matchIds_add_ne_nil, or_assoc, ← htells, List.exists_mem_cons_iff]

/-- The linear matcher tells of the strings that a rule is told of. -/
theorem applyDomain_linear {domains : List Domain} {m : IndexMatcher}
    (h : newDomainMatcher compile domains = .ok m) (domain : Bytes) :
    ∃ found, applyDomain toLower m domain = .ok found ∧
      (found = true ↔ ∃ d ∈ domains, Tells compile d (toLower domain)) := by
  rcases hadd : addMatchers compile {} domains with e | g
  · rw [newDomainMatcher, hadd] at h
    cases h
  · rw [newDomainMatcher, hadd] at h
    obtain rfl := Except.ok.inj h
    refine ⟨_, rfl, ?_⟩
    have hempty : MatcherGroup.matchIds {} (toLower domain) = [] := by
      rw [MatcherGroup.matchIds, DomainMatcherGroup.matchDomain]
      split <;> rfl
    have hiff := matchIds_of_addMatchers hadd (toLower domain)
    rw [hempty, or_iff_right (fun hne => hne rfl)] at hiff
    rw [decide_eq_true_iff, List.length_pos_iff]
    exact hiff

/-! ## The hybrid matcher -/

/-- The patterns of the hash table, in lower case. -/
def tableRules (toLower : Bytes → Bytes) (domains : List Domain) : List (Bytes × MatcherType) :=
  domains.filterMap fun d =>
    match d.type with
    | .full => some (toLower d.value, .full)
    | .domain => some (toLower d.value, .domain)
    | _ => none

/-- The group of the hash table. One without patterns has one. -/
def tableGroup (toLower : Bytes → Bytes) (domains : List Domain) : MphMatcherGroup :=
  if tableRules toLower domains = [] then .addAll {} [(MphMatcherGroup.emptyRule, .full)]
  else .addAll {} (tableRules toLower domains)

/-- The strings that are found in the hash table: the indices of others have more than 32 bits. -/
def entries (toLower : Bytes → Bytes) (c : Choices) (domains : List Domain) : List Bytes :=
  ((tableGroup toLower domains).rulesOf c).take (2 ^ 32)

/-- A full string, a domain or a keyword, and no other type of a rule. -/
def Domain.IsRule (d : Domain) : Prop := d.type = .full ∨ d.type = .domain ∨ d.type = .plain

variable {toLower : Bytes → Bytes}

/-- Patterns are added to the hash table beside any automaton. -/
theorem addAll_ac (g : MphMatcherGroup) (ac ac' : Option ACAutomaton)
    (adds : List (Bytes × MatcherType)) :
    { MphMatcherGroup.addAll { g with ac := ac' } adds with ac } =
      { MphMatcherGroup.addAll g adds with ac } := by
  induction adds generalizing g with
  | nil => rfl
  | cons a adds ih =>
    obtain ⟨pattern, t⟩ := a
    rcases t with - | - | - | -
    · exact ih (g.addFullOrDomainPattern pattern .full)
    · exact ih g
    · exact ih (g.addFullOrDomainPattern pattern .domain)
    · exact ih g

/-- Patterns are put into the hash table, and keywords into the automaton. -/
theorem addPatterns_eq_ok {g g' : MphMatcherGroup} {domains : List Domain}
    (hrules : ∀ d ∈ domains, d.IsRule) (h : addPatterns toLower compile g domains = .ok g') :
    ∃ ac, g' = { MphMatcherGroup.addAll g (tableRules toLower domains) with ac } ∧
      (ac.isSome ↔ g.ac.isSome ∨ ∃ d ∈ domains, d.type = .plain) := by
  induction domains generalizing g with
  | nil =>
    obtain rfl := Outcome.ok.inj h
    refine ⟨g.ac, rfl, (or_iff_left ?_).symm⟩
    rintro ⟨d, hd, -⟩
    exact List.not_mem_nil hd
  | cons d domains ih =>
    obtain ⟨hd, hdomains⟩ := List.forall_mem_cons.1 hrules
    obtain ⟨type, value⟩ := d
    rw [List.exists_mem_cons_iff, ← or_assoc]
    rcases hd with rfl | rfl | rfl
    · obtain ⟨ac, rfl, hac⟩ := ih hdomains h
      exact ⟨ac, rfl, hac.trans (by simp [MphMatcherGroup.addFullOrDomainPattern])⟩
    · obtain ⟨ac, rfl, hac⟩ := ih hdomains h
      exact ⟨ac, rfl, hac.trans (by simp [MphMatcherGroup.addFullOrDomainPattern])⟩
    · rw [addPatterns] at h
      dsimp only [matcherTypeMap, MphMatcherGroup.addPattern] at h
      rcases hadd : (g.ac.getD {}).add value .substr with ac₁ | e | -
      · rw [hadd] at h
        obtain ⟨ac, rfl, hac⟩ := ih hdomains h
        exact ⟨ac, addAll_ac g ac (some ac₁) _, hac.trans (by simp)⟩
      · rw [hadd] at h
        cases h
      · rw [hadd] at h
        cases h

/-- What a hybrid matcher tells: the parts of a string are looked up, and then the automaton is
    asked, if there are keywords. -/
structure IsHybrid (toLower : Bytes → Bytes) (c : Choices) (domains : List Domain)
    (g : MphMatcherGroup) : Prop where
  ac : g.ac.isSome ↔ ∃ d ∈ domains, d.type = .plain
  found : ∀ s, (∃ u ∈ entries toLower c domains, MphMatcherGroup.IsPart u s) → g.matchIds s = .ok [1]
  missed : ∀ s, (¬ ∃ u ∈ entries toLower c domains, MphMatcherGroup.IsPart u s) →
    g.matchIds s = (MphMatcherGroup.matchAc g.ac s).bind fun found => .ok (if found then [1] else [])

theorem mem_tableRules {domains : List Domain} {a : Bytes × MatcherType} :
    a ∈ tableRules toLower domains ↔ ∃ d ∈ domains, a.1 = toLower d.value ∧
      (d.type = .full ∧ a.2 = .full ∨ d.type = .domain ∧ a.2 = .domain) := by
  rw [tableRules, List.mem_filterMap]
  refine exists_congr fun d => and_congr_right fun _ => ?_
  obtain ⟨type, value⟩ := d
  obtain ⟨pattern, t⟩ := a
  rcases type with - | - | - | - | n <;> simp [eq_comm]

/-- The group of the hash table is one of patterns, of which there are some. -/
theorem exists_adds (toLower : Bytes → Bytes) (domains : List Domain) :
    ∃ adds, tableGroup toLower domains = .addAll {} adds ∧ (∃ u, MphMatcherGroup.IsRule adds u) ∧
      (tableRules toLower domains ≠ [] → adds = tableRules toLower domains) ∧
      (tableRules toLower domains = [] → adds = [(MphMatcherGroup.emptyRule, .full)]) := by
  rw [tableGroup]
  by_cases hnil : tableRules toLower domains = []
  · rw [if_pos hnil]
    exact ⟨_, rfl, ⟨_, _, List.mem_singleton_self _, .inl ⟨.inl rfl, rfl⟩⟩,
      fun hne => absurd hnil hne, fun _ => rfl⟩
  · rw [if_neg hnil]
    refine ⟨_, rfl, ?_, fun _ => rfl, fun hnil' => absurd hnil' hnil⟩
    obtain ⟨a, rest, heq⟩ := List.exists_cons_of_ne_nil hnil
    have ha : a ∈ tableRules toLower domains := heq ▸ List.mem_cons_self
    obtain ⟨d, -, -, htype⟩ := mem_tableRules.1 ha
    exact ⟨a.1, a, ha, .inl ⟨htype.imp And.right And.right, rfl⟩⟩

theorem build_tableGroup (toLower : Bytes → Bytes) (domains : List Domain) (c : Choices)
    (fuel : ℕ) : (MphMatcherGroup.addAll {} (tableRules toLower domains)).build c fuel =
      (tableGroup toLower domains).build c fuel := by
  rw [tableGroup]
  split
  · rename_i hnil
    rw [hnil]
    exact MphMatcherGroup.build_empty rfl c fuel
  · rfl

theorem eq_of_ac_none {g : MphMatcherGroup} (h : g.ac = none) : { g with ac := none } = g := by
  rw [← h]

theorem isSome_buildAc {ac ac' : Option ACAutomaton}
    (h : MphMatcherGroup.buildAc ac = some ac') : ac'.isSome ↔ ac.isSome := by
  rcases ac with - | ac
  · obtain rfl := Option.some.inj h
    rfl
  · obtain ⟨b, -, rfl⟩ := Option.map_eq_some_iff.1 h
    rfl

theorem isHybrid_of_newMphMatcherGroup {c : Choices} {fuel : ℕ} {domains : List Domain}
    {m : IndexMatcher} (hrules : ∀ d ∈ domains, d.IsRule)
    (h : newMphMatcherGroup toLower compile c fuel domains = some (.ok m)) :
    ∃ g, m = .mph g ∧ IsHybrid toLower c domains g := by
  rw [newMphMatcherGroup] at h
  rcases hadd : addPatterns toLower compile {} domains with g | e | -
  · rw [hadd] at h
    obtain ⟨b, hbuild, hm⟩ := Option.map_eq_some_iff.1 h
    obtain ⟨ac, rfl, hac⟩ := addPatterns_eq_ok hrules hadd
    replace hac := hac.trans (or_iff_right Bool.false_ne_true)
    obtain ⟨adds, hadds, hne, -, -⟩ := exists_adds toLower domains
    have hgroup := MphMatcherGroup.isGroupOf_addAll adds
    -- the hash table is built beside the automaton
    rw [MphMatcherGroup.build_ac] at hbuild
    obtain ⟨ac', hac', hb⟩ := Option.bind_eq_some_iff.1 hbuild
    obtain ⟨b₀, hb₀, rfl⟩ := Option.map_eq_some_iff.1 hb
    have hnone : { MphMatcherGroup.addAll {} (tableRules toLower domains) with ac := none } =
        MphMatcherGroup.addAll {} (tableRules toLower domains) :=
      eq_of_ac_none (MphMatcherGroup.isGroupOf_addAll (tableRules toLower domains)).ac
    have hb₀' : (MphMatcherGroup.addAll {} adds).build c fuel = some b₀ := by
      rw [← hadds, ← build_tableGroup, ← hnone]
      exact hb₀
    have hbuilt := MphMatcherGroup.isBuilt hgroup (MphMatcherGroup.entries_ne_nil hgroup hne) hb₀'
    have hlookup (hash : UInt32) (s : Bytes) :
        ∃ found, MphMatcherGroup.lookup { b₀ with ac := ac' } hash s = .ok found := by
      obtain ⟨rule, -, hfound⟩ := hbuilt.lookup_eq hash s
      exact ⟨_, hfound⟩
    have hfinds (s : Bytes) : MphMatcherGroup.FindsPart { b₀ with ac := ac' } s ↔
        ∃ u ∈ entries toLower c domains, MphMatcherGroup.IsPart u s := by
      rw [entries, hadds]
      refine exists_congr fun u => ?_
      rw [and_comm, ← hbuilt.lookup_iff]
      rfl
    refine ⟨_, (Outcome.ok.inj hm).symm, (isSome_buildAc hac').trans hac, fun s hs => ?_,
      fun s hs => ?_⟩
    · exact MphMatcherGroup.matchIds_of_findsPart hlookup ((hfinds s).2 hs)
    · exact MphMatcherGroup.matchIds_of_not_findsPart hlookup hbuilt.otherMatchers
        (mt (hfinds s).1 hs)
  · rw [hadd] at h
    cases h
  · rw [hadd] at h
    cases h

/-! ## Small letters -/

namespace LowersLetters

variable (h : LowersLetters toLower)
include h

theorem cons {c : UInt8} (hc : c < 128) (s : Bytes) :
    toLower (c :: s) = lower c :: toLower s := by
  have happend := h.append [] c s hc
  rwa [h.nil, List.nil_append, List.nil_append] at happend

theorem replicate_append {c : UInt8} (hc : c < 128) (hlower : lower c = c) (n : ℕ) (s : Bytes) :
    toLower (List.replicate n c ++ s) = List.replicate n c ++ toLower s := by
  induction n with
  | zero => rfl
  | succ n ih => rw [List.replicate_succ, List.cons_append, h.cons hc, ih, hlower, List.cons_append]

theorem eq_map {s : Bytes} (hs : ∀ c ∈ s, c < 128) : toLower s = s.map lower := by
  induction s with
  | nil => exact h.nil
  | cons c s ih =>
    obtain ⟨hc, hs⟩ := List.forall_mem_cons.1 hs
    rw [h.cons hc, ih hs, List.map_cons]

/-- What comes behind a dot is in lower case if all is. -/
theorem of_append {t s : Bytes} (hfixed : toLower (t ++ dot :: s) = t ++ dot :: s) :
    toLower s = s := by
  have hlower : lower dot = dot := rfl
  have hdot {t s : Bytes} (ht : dot ∉ t) (hfixed : toLower (t ++ dot :: s) = t ++ dot :: s) :
      toLower s = s := by
    rw [h.append t dot s (by decide), hlower] at hfixed
    have hidx := congrArg (List.idxOf dot) hfixed
    rw [List.idxOf_append_of_notMem (h.dot_notMem t ht), List.idxOf_append_of_notMem ht,
      List.idxOf_cons_self, List.idxOf_cons_self] at hidx
    exact (List.cons.inj (List.append_inj hfixed (Nat.add_right_cancel hidx)).2).2
  -- label by label, from the left
  induction hn : t.length using Nat.strong_induction_on generalizing t with
  | _ n ih =>
    by_cases ht : dot ∈ t
    · obtain ⟨t₁, t₂, rfl, ht₁⟩ := List.eq_append_cons_of_mem ht
      rw [List.append_assoc, List.cons_append] at hfixed
      refine ih t₂.length ?_ (hdot ht₁ hfixed) rfl
      rw [← hn, List.length_append, List.length_cons]
      omega
    · exact hdot ht hfixed

end LowersLetters

/-! ## Both matchers -/

/-- A rule tells of its value, and a domain of what ends with it behind a dot. -/
def Domain.Covers (d : Domain) (s : Bytes) : Prop :=
  d.type = .full ∧ s = d.value ∨ d.type = .domain ∧ s ≠ [] ∧ IsDomainOf d.value s

/-- There is no keyword, and the strings of the hash table are those that the rules tell of. -/
structure AreExact (toLower : Bytes → Bytes) (c : Choices) (domains : List Domain) : Prop where
  keyword : ∀ d ∈ domains, d.type ≠ .plain
  sound : ∀ u ∈ entries toLower c domains, u.head? ≠ some dot → ∃ d ∈ domains, d.Covers u
  sound_dot : ∀ u ∈ entries toLower c domains, u.head? = some dot →
    ∃ d ∈ domains, d.type = .domain ∧ dot :: d.value <:+ u
  complete : ∀ d ∈ domains, toLower d.value = d.value → d.Covers d.value →
    ∃ u ∈ entries toLower c domains, MphMatcherGroup.IsPart u d.value
  complete_dot : ∀ d ∈ domains, toLower d.value = d.value → d.type = .domain →
    ∃ u ∈ entries toLower c domains, u.head? = some dot ∧ u <:+ dot :: d.value

theorem tells_iff {d : Domain} (htype : d.type = .full ∨ d.type = .domain) (s : Bytes) :
    Tells compile d s ↔ d.Covers s := by
  obtain ⟨type, value⟩ := d
  rcases htype with rfl | rfl
  · rw [tells_full, Domain.Covers]
    simp [eq_comm]
  · rw [tells_domain, Domain.Covers]
    simp

/-- The strings of the hash table are in lower case. -/
theorem toLower_of_mem_entries (h : LowersLetters toLower) {c : Choices} {domains : List Domain}
    {u : Bytes} (hu : u ∈ entries toLower c domains) : toLower u = u := by
  obtain ⟨adds, hadds, -, hne, hnil⟩ := exists_adds toLower domains
  rw [entries, hadds] at hu
  obtain ⟨a, ha, hrule⟩ :=
    (MphMatcherGroup.mem_rulesOf (MphMatcherGroup.isGroupOf_addAll adds)).1 (List.mem_of_mem_take hu)
  have hfixed : toLower a.1 = a.1 := by
    by_cases htable : tableRules toLower domains = []
    · rw [hnil htable] at ha
      obtain rfl := List.mem_singleton.1 ha
      exact (h.eq_map (by decide +kernel)).trans (by decide +kernel)
    · rw [hne htable] at ha
      obtain ⟨d, -, ha, -⟩ := mem_tableRules.1 ha
      rw [ha, h.idem]
  rcases hrule with ⟨-, rfl⟩ | ⟨-, rfl⟩
  · exact hfixed
  · rw [h.cons (by decide), hfixed]
    rfl

/-- No string of a list is as long as this. -/
theorem exists_longer (l : List Bytes) : ∃ n, ∀ u ∈ l, u.length < n :=
  ⟨(l.map List.length).sum + 1, fun _ hu =>
    Nat.lt_succ_of_le (List.le_sum_of_mem (List.mem_map_of_mem hu))⟩

/-- What begins with a dot does not begin within letters. -/
theorem suffix_of_replicate {n : ℕ} {v u : Bytes}
    (h : dot :: v <:+ List.replicate n 120 ++ u) : dot :: v <:+ u := by
  induction n with
  | zero => exact h
  | succ n ih =>
    rw [List.replicate_succ, List.cons_append, List.suffix_cons_iff] at h
    rcases h with heq | h
    · exact absurd (List.cons.inj heq).1 (by decide)
    · exact ih h

/-- The rules tell of the strings in lower case that have a part in the hash table. -/
def TellAlike (toLower : Bytes → Bytes) (c : Choices) (domains : List Domain) : Prop :=
  ∀ s, toLower s = s → ((∃ u ∈ entries toLower c domains, MphMatcherGroup.IsPart u s) ↔
    ∃ d ∈ domains, d.Covers s)

namespace AreExact

variable {c : Choices} {domains : List Domain}

theorem tellAlike (h : LowersLetters toLower) (hexact : AreExact toLower c domains) :
    TellAlike toLower c domains := by
  intro s hs
  constructor
  · rintro ⟨u, hu, hpart⟩
    by_cases hhead : u.head? = some dot
    · obtain ⟨d, hd, htype, hsuffix⟩ := hexact.sound_dot u hu hhead
      have hus : u <:+ s := hpart.elim (fun heq => heq ▸ List.suffix_rfl) And.left
      have hds := hsuffix.trans hus
      refine ⟨d, hd, .inr ⟨htype, ?_, .inr hds⟩⟩
      rintro rfl
      exact absurd (List.suffix_nil.1 hds) (List.cons_ne_nil _ _)
    · obtain rfl := hpart.resolve_right fun h => hhead h.2
      exact hexact.sound u hu hhead
  · rintro ⟨d, hd, hcovers⟩
    rcases hcovers with ⟨htype, rfl⟩ | ⟨htype, hne, rfl | hsuffix⟩
    · exact hexact.complete d hd hs (.inl ⟨htype, rfl⟩)
    · exact hexact.complete d hd hs (.inr ⟨htype, hne, .inl rfl⟩)
    · obtain ⟨t, rfl⟩ := hsuffix
      obtain ⟨u, hu, hhead, hsuffix⟩ := hexact.complete_dot d hd (h.of_append hs) htype
      exact ⟨u, hu, .inr ⟨hsuffix.trans (List.suffix_append _ _), hhead⟩⟩

/-- Letters put before a dot make a string longer than those of the hash table and of the rules,
    of which only what begins with the dot is left. -/
theorem of_tellAlike (h : LowersLetters toLower) (hkeyword : ∀ d ∈ domains, d.type ≠ .plain)
    (halike : TellAlike toLower c domains) : AreExact toLower c domains where
  keyword := hkeyword
  sound u hu _ := (halike u (toLower_of_mem_entries h hu)).1 ⟨u, hu, .inl rfl⟩
  sound_dot u hu hhead := by
    obtain ⟨n, hn⟩ := exists_longer (domains.map Domain.value)
    have hfixed : toLower (List.replicate n 120 ++ u) = List.replicate n 120 ++ u := by
      rw [h.replicate_append (by decide) (by decide), toLower_of_mem_entries h hu]
    obtain ⟨d, hd, hcovers⟩ :=
      (halike _ hfixed).1 ⟨u, hu, .inr ⟨List.suffix_append _ _, hhead⟩⟩
    have hlong : List.replicate n 120 ++ u ≠ d.value := by
      intro heq
      have hlength := hn _ (List.mem_map_of_mem hd)
      rw [← heq, List.length_append, List.length_replicate] at hlength
      omega
    rcases hcovers with ⟨-, heq⟩ | ⟨htype, -, heq | hsuffix⟩
    · exact absurd heq hlong
    · exact absurd heq hlong
    · exact ⟨d, hd, htype, suffix_of_replicate hsuffix⟩
  complete d hd hfixed hcovers := (halike _ hfixed).2 ⟨d, hd, hcovers⟩
  complete_dot d hd hfixed htype := by
    obtain ⟨n, hn⟩ := exists_longer (entries toLower c domains)
    have hfixed' : toLower (List.replicate n 120 ++ dot :: d.value) =
        List.replicate n 120 ++ dot :: d.value := by
      rw [h.replicate_append (by decide) (by decide), h.cons (by decide), hfixed]
      rfl
    obtain ⟨u, hu, hpart⟩ := (halike _ hfixed').2
      ⟨d, hd, .inr ⟨htype, by simp, .inr (List.suffix_append _ _)⟩⟩
    have hlong : u ≠ List.replicate n 120 ++ dot :: d.value := by
      rintro rfl
      have hlength := hn _ hu
      rw [List.length_append, List.length_replicate] at hlength
      omega
    obtain ⟨hsuffix, hhead⟩ := hpart.resolve_left hlong
    obtain ⟨v, rfl⟩ := List.head?_eq_some_iff.1 hhead
    exact ⟨_, hu, hhead, suffix_of_replicate hsuffix⟩

end AreExact

namespace IsHybrid

variable {c : Choices} {domains : List Domain} {g : MphMatcherGroup}

/-- Without keywords it tells of the strings of which a part is in the hash table. -/
theorem applyDomain_eq (hg : IsHybrid toLower c domains g)
    (hkeyword : ∀ d ∈ domains, d.type ≠ .plain) (domain : Bytes) :
    ∃ found, applyDomain toLower (.mph g) domain = .ok found ∧ (found = true ↔
      ∃ u ∈ entries toLower c domains, MphMatcherGroup.IsPart u (toLower domain)) := by
  have hac : g.ac = none := by
    rw [← Option.not_isSome_iff_eq_none, hg.ac]
    rintro ⟨d, hd, htype⟩
    exact hkeyword d hd htype
  rw [applyDomain, IndexMatcher.matchIds]
  by_cases hpart : ∃ u ∈ entries toLower c domains, MphMatcherGroup.IsPart u (toLower domain)
  · rw [hg.found _ hpart]
    exact ⟨_, rfl, iff_of_true rfl hpart⟩
  · rw [hg.missed _ hpart, hac]
    exact ⟨_, rfl, iff_of_false Bool.false_ne_true hpart⟩

/-- With a keyword it panics on bytes behind `~`, of which there are more than the strings of the
    hash table have. -/
theorem applyDomain_panic (h : LowersLetters toLower) (hg : IsHybrid toLower c domains g)
    (hac : g.ac.isSome) : ∃ domain, applyDomain toLower (.mph g) domain = .panic := by
  obtain ⟨n, hn⟩ := exists_longer (entries toLower c domains)
  obtain ⟨ac, hac⟩ := Option.isSome_iff_exists.1 hac
  refine ⟨List.replicate (n + 1) 127, ?_⟩
  have hfixed : toLower (List.replicate (n + 1) 127) = List.replicate (n + 1) 127 := by
    have happend := h.replicate_append (c := 127) (by decide) (by decide) (n + 1) []
    rwa [h.nil, List.append_nil] at happend
  have hmissed : ¬ ∃ u ∈ entries toLower c domains,
      MphMatcherGroup.IsPart u (List.replicate (n + 1) 127) := by
    rintro ⟨u, hu, rfl | ⟨hsuffix, hhead⟩⟩
    · have hlength := hn _ hu
      rw [List.length_replicate] at hlength
      omega
    · have hmem := hsuffix.subset (List.mem_of_mem_head? hhead)
      exact absurd (List.eq_of_mem_replicate hmem) (by decide)
  rw [applyDomain, IndexMatcher.matchIds, hfixed, hg.missed _ hmissed, hac,
    MphMatcherGroup.matchAc, ACAutomaton.matches, List.reverse_replicate, List.replicate_succ]
  rfl

end IsHybrid

/-- Both matchers of a list of rules agree if and only if there is no keyword, and the rules tell
    of the strings of the hash table alone. -/
theorem agree_iff (h : LowersLetters toLower) {c : Choices} {fuel : ℕ} {domains : List Domain}
    (hrules : ∀ d ∈ domains, d.IsRule) {m m' : IndexMatcher}
    (hm : newMphMatcherGroup toLower compile c fuel domains = some (.ok m))
    (hm' : newDomainMatcher compile domains = .ok m') :
    Agree toLower m m' ↔ AreExact toLower c domains := by
  obtain ⟨g, rfl, hg⟩ := isHybrid_of_newMphMatcherGroup hrules hm
  have htells (hkeyword : ∀ d ∈ domains, d.type ≠ .plain) (s : Bytes) :
      (∃ d ∈ domains, Tells compile d s) ↔ ∃ d ∈ domains, d.Covers s := by
    refine exists_congr fun d => and_congr_right fun hd => tells_iff ?_ s
    exact (hrules d hd).imp_right fun htype => htype.resolve_right (hkeyword d hd)
  constructor
  · intro hagree
    have hkeyword : ∀ d ∈ domains, d.type ≠ .plain := by
      intro d hd htype
      obtain ⟨domain, hpanic⟩ := hg.applyDomain_panic h (hg.ac.2 ⟨d, hd, htype⟩)
      obtain ⟨found, hfound, -⟩ := hagree domain
      cases hpanic.symm.trans hfound
    refine .of_tellAlike h hkeyword fun s hs => ?_
    obtain ⟨found, hmph, hlinear⟩ := hagree s
    obtain ⟨found₁, hfound₁, hiff₁⟩ := hg.applyDomain_eq hkeyword s
    obtain ⟨found₂, hfound₂, hiff₂⟩ := applyDomain_linear toLower hm' s
    obtain rfl := Outcome.ok.inj (hmph.symm.trans hfound₁)
    obtain rfl := Outcome.ok.inj (hlinear.symm.trans hfound₂)
    rw [hs] at hiff₁ hiff₂
    rw [← hiff₁, hiff₂, htells hkeyword]
  · intro hexact domain
    obtain ⟨found₁, hfound₁, hiff₁⟩ := hg.applyDomain_eq hexact.keyword domain
    obtain ⟨found₂, hfound₂, hiff₂⟩ := applyDomain_linear toLower hm' domain
    have hfound : found₁ = found₂ := by
      rw [Bool.eq_iff_iff, hiff₁, hiff₂, htells hexact.keyword]
      exact hexact.tellAlike h _ (h.idem domain)
    exact ⟨found₁, hfound₁, hfound ▸ hfound₂⟩

theorem newMphMatcherGroup_eq_some {c : Choices} {fuel : ℕ} {domains : List Domain}
    {ac ac' : Option ACAutomaton} {b : MphMatcherGroup}
    (hadd : addPatterns toLower compile {} domains =
      .ok { MphMatcherGroup.addAll {} (tableRules toLower domains) with ac })
    (hac : MphMatcherGroup.buildAc ac = some ac')
    (hb : (tableGroup toLower domains).build c fuel = some b) :
    newMphMatcherGroup toLower compile c fuel domains = some (.ok (.mph { b with ac := ac' })) := by
  have hnone : { MphMatcherGroup.addAll {} (tableRules toLower domains) with ac := none } =
      MphMatcherGroup.addAll {} (tableRules toLower domains) :=
    eq_of_ac_none (MphMatcherGroup.isGroupOf_addAll (tableRules toLower domains)).ac
  rw [newMphMatcherGroup, hadd]
  dsimp only
  rw [MphMatcherGroup.build_ac, hac, Option.bind_some, hnone, build_tableGroup, hb]
  rfl

end

/-- The letters `A` to `Z` are made small. -/
theorem lowersLetters_lower : LowersLetters (List.map lower) where
  nil := rfl
  idem s := by
    rw [List.map_map]
    refine List.map_congr_left fun c _ => ?_
    rw [Function.comp_apply, lower, lower]
    split_ifs <;> grind
  append s c t _ := by rw [List.map_append, List.map_cons]
  dot_notMem s hs := by
    intro hmem
    obtain ⟨c, hc, hdot⟩ := List.mem_map.1 hmem
    rw [lower] at hdot
    split_ifs at hdot
    · grind [dot]
    · exact hs (hdot ▸ hc)

/-- No expression is compiled. -/
def noRegex : Bytes → Except Error (Bytes → Bool) := fun _ => .ok fun _ => false

/-- Both matchers of the domain `"a"` agree. -/
theorem agree_domain : ∃ m m', newMphMatcherGroup (List.map lower) noRegex
      MphMatcherGroup.someChoices 1 [⟨.domain, [97]⟩] = some (.ok m) ∧
    newDomainMatcher noRegex [⟨.domain, [97]⟩] = .ok m' ∧ Agree (List.map lower) m m' := by
  obtain ⟨b, hb⟩ := MphMatcherGroup.build_domain
  have hm : newMphMatcherGroup (List.map lower) noRegex MphMatcherGroup.someChoices 1
      [⟨.domain, [97]⟩] = some (.ok (.mph { b with ac := none })) :=
    newMphMatcherGroup_eq_some rfl rfl hb
  have hentries : entries (List.map lower) MphMatcherGroup.someChoices [⟨.domain, [97]⟩] =
      [[97], [46, 97]] := by decide +kernel
  have hmem {d : Domain} (hd : d ∈ [(⟨.domain, [97]⟩ : Domain)]) : d = ⟨.domain, [97]⟩ :=
    List.mem_singleton.1 hd
  refine ⟨_, _, hm, rfl, (agree_iff lowersLetters_lower ?_ hm rfl).2 ⟨?_, ?_, ?_, ?_, ?_⟩⟩
  · rintro d hd
    obtain rfl := hmem hd
    exact .inr (.inl rfl)
  · rintro d hd
    obtain rfl := hmem hd
    exact nofun
  · rw [hentries]
    intro u hu hhead
    obtain rfl | hu := List.mem_cons.1 hu
    · exact ⟨_, List.mem_singleton_self _, .inr ⟨rfl, nofun, .inl rfl⟩⟩
    · obtain rfl := List.mem_singleton.1 hu
      exact absurd rfl hhead
  · rw [hentries]
    intro u hu hhead
    obtain rfl | hu := List.mem_cons.1 hu
    · cases hhead
    · obtain rfl := List.mem_singleton.1 hu
      exact ⟨_, List.mem_singleton_self _, rfl, List.suffix_rfl⟩
  · rw [hentries]
    intro d hd _ _
    obtain rfl := hmem hd
    exact ⟨[97], List.mem_cons_self, .inl rfl⟩
  · rw [hentries]
    intro d hd _ _
    obtain rfl := hmem hd
    exact ⟨[46, 97], List.mem_cons_of_mem _ List.mem_cons_self, rfl, List.suffix_rfl⟩

/-- With the keyword `"a"` the hybrid matcher panics on `"é"`, which the linear one does not
    match. -/
theorem not_agree : ∃ m m', newMphMatcherGroup (List.map lower) noRegex
      MphMatcherGroup.someChoices 1 [⟨.plain, [97]⟩] = some (.ok m) ∧
    newDomainMatcher noRegex [⟨.plain, [97]⟩] = .ok m' ∧
    applyDomain (List.map lower) m [0xC3, 0xA9] = .panic ∧
    applyDomain (List.map lower) m' [0xC3, 0xA9] = .ok false ∧ ¬ Agree (List.map lower) m m' := by
  obtain ⟨b, hb⟩ := MphMatcherGroup.build_emptyRule
  obtain ⟨m, hm⟩ : ∃ m, newMphMatcherGroup (List.map lower) noRegex MphMatcherGroup.someChoices 1
      [⟨.plain, [97]⟩] = some (.ok m) := ⟨_, newMphMatcherGroup_eq_some rfl rfl hb⟩
  have hrules : ∀ d ∈ [(⟨.plain, [97]⟩ : Domain)], d.IsRule := by
    intro d hd
    obtain rfl := List.mem_singleton.1 hd
    exact .inr (.inr rfl)
  obtain ⟨g, rfl, hg⟩ := isHybrid_of_newMphMatcherGroup hrules hm
  obtain ⟨ac, hac⟩ :=
    Option.isSome_iff_exists.1 (hg.ac.2 ⟨_, List.mem_singleton_self _, rfl⟩)
  have hentries : entries (List.map lower) MphMatcherGroup.someChoices [⟨.plain, [97]⟩] =
      [MphMatcherGroup.emptyRule] := by decide +kernel
  have hmissed : ¬ ∃ u ∈ entries (List.map lower) MphMatcherGroup.someChoices [⟨.plain, [97]⟩],
      MphMatcherGroup.IsPart u [0xC3, 0xA9] := by
    rw [hentries]
    rintro ⟨u, hu, hpart⟩
    obtain rfl := List.mem_singleton.1 hu
    rcases hpart with heq | ⟨-, hhead⟩
    · exact absurd heq (by decide)
    · exact absurd hhead (by decide)
  have hpanic : applyDomain (List.map lower) (.mph g) [0xC3, 0xA9] = .panic := by
    have hlower : [0xC3, 0xA9].map lower = [0xC3, 0xA9] := by decide
    rw [applyDomain, IndexMatcher.matchIds, hlower, hg.missed _ hmissed, hac]
    rfl
  refine ⟨_, _, hm, rfl, hpanic, by decide +kernel, fun hagree => ?_⟩
  obtain ⟨found, hfound, -⟩ := hagree [0xC3, 0xA9]
  cases hpanic.symm.trans hfound

end Gzv2ray.Router
