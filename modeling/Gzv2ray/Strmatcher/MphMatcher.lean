import Gzv2ray.Strmatcher.ACAutomaton
import Gzv2ray.Strmatcher.MatcherGroup
import Gzv2ray.Strmatcher.MemHash
import Mathlib.Data.List.AList

/-!
# Groups with a perfect hash

A group (`MphMatcherGroup`) keeps its full strings and domains as the rules of two tables. The
hash of a rule gives its bucket in the first table, and the seed that is found there its place
in the second one, which has the index of the rule. `build` looks for seeds with which the
rules of a bucket get places that are free.

* `MphMatcherGroup.addPattern`, `MphMatcherGroup.build`, `MphMatcherGroup.lookup`,
  `MphMatcherGroup.matchIds`: the calls of a group;
* `MphMatcherGroup.scan_spec`: the hash that is kept over a string is that of each of its ends;
* `MphMatcherGroup.isGroupOf_addAll`: the rules of a group.
-/

namespace Gzv2ray.Strmatcher

def primeRK : UInt32 := 16777619

/-- The hash of a string, from its last byte on. -/
def rollingHash : Bytes → UInt32
  | [] => 0
  | c :: s => rollingHash s * primeRK + c.toUInt32

structure IndexBucket where
  n : ℕ
  vals : List ℕ

/-- A map of the rules to their hashes. -/
abbrev RuleMap := AList fun _ : Bytes => UInt32

structure MphMatcherGroup where
  ac : Option ACAutomaton := none
  otherMatchers : List (Matcher × UInt32) := []
  rules : List Bytes := []
  level0 : ℕ → UInt32 := fun _ => 0
  level0Mask : ℕ := 0
  level1 : ℕ → UInt32 := fun _ => 0
  level1Mask : ℕ := 0
  count : UInt32 := 1
  ruleMap : RuleMap := ∅

/-- What is left open: in which order a map is gone through, and where equal buckets are put when
    they are sorted by size. -/
structure Choices where
  iterate : RuleMap → List (Sigma fun _ : Bytes => UInt32)
  iterate_perm : ∀ m, (iterate m).Perm m.entries
  sort : List IndexBucket → List IndexBucket
  sort_perm : ∀ l, (sort l).Perm l
  sort_sorted : ∀ l, (sort l).Pairwise fun b b' => b'.vals.length ≤ b.vals.length

/-! ## Tables -/

/-- The tables that are built, and the places that are taken. -/
structure Tables where
  level0 : ℕ → UInt32 := fun _ => 0
  level1 : ℕ → UInt32 := fun _ => 0
  occ : ℕ → Bool := fun _ => false

/-- Tries to give places to the rules of a bucket. -/
def place (slot : ℕ → ℕ) : List ℕ → List ℕ → Tables → Bool × Tables
  | [], _, t => (true, t)
  | i :: vals, tmpOcc, t =>
    if t.occ (slot i) then
      (false, { t with occ := tmpOcc.foldl (fun occ n => Function.update occ n false) t.occ })
    else
      place slot vals (tmpOcc ++ [slot i])
        { t with
          occ := Function.update t.occ (slot i) true
          level1 := Function.update t.level1 (slot i) (.ofNat i) }

/-- Looks for the seed of a bucket, as long as the fuel lasts. -/
def findSeed (slot : UInt32 → ℕ → ℕ) (vals : List ℕ) : ℕ → UInt32 → Tables → Option (UInt32 × Tables)
  | 0, _, _ => none
  | fuel + 1, seed, t =>
    match place (slot seed) vals [] t with
    | (true, t) => some (seed, t)
    | (false, t) => findSeed slot vals fuel (seed + 1) t

def placeAll (slot : UInt32 → ℕ → ℕ) (fuel : ℕ) : List IndexBucket → Tables → Option Tables
  | [], t => some t
  | bucket :: buckets, t =>
    (findSeed slot bucket.vals fuel 0 t).bind fun (seed, t) =>
      placeAll slot fuel buckets { t with level0 := Function.update t.level0 bucket.n seed }

/-- The indices of the rules, by their buckets. -/
def sparseBuckets (mask : ℕ) : List UInt32 → ℕ → (ℕ → List ℕ) → ℕ → List ℕ
  | [], _, sparse => sparse
  | hash :: rest, ruleIdx, sparse =>
    let n := hash.toNat &&& mask
    sparseBuckets mask rest (ruleIdx + 1) (Function.update sparse n (sparse n ++ [ruleIdx]))

/-- The buckets that have rules. -/
def denseBuckets (len : ℕ) (sparse : ℕ → List ℕ) : List IndexBucket :=
  (List.range len).filterMap fun n =>
    if 0 < (sparse n).length then some ⟨n, sparse n⟩ else none

/-- `bits.LeadingZeros` -/
def leadingZeros (v : ℕ) : ℕ := 64 - v.size

def nextPow2 (v : ℕ) : ℕ := if v ≤ 1 then 1 else (2 ^ 64 - 1) >>> leadingZeros v + 1

/-! ## Groups -/

namespace MphMatcherGroup

def addFullOrDomainPattern (g : MphMatcherGroup) (pattern : Bytes) (t : MatcherType) :
    MphMatcherGroup :=
  let h := rollingHash pattern
  match t with
  | .domain =>
    { g with ruleMap :=
        (g.ruleMap.insert (dot :: pattern) (h * primeRK + dot.toUInt32)).insert pattern h }
  | .full => { g with ruleMap := g.ruleMap.insert pattern h }
  | _ => g

/-- `AddPattern`. The count remains as it is. -/
def addPattern (toLower : Bytes → Bytes) (compile : Bytes → Except Error (Bytes → Bool))
    (g : MphMatcherGroup) (pattern : Bytes) (t : MatcherType) :
    Outcome (UInt32 × MphMatcherGroup) :=
  match t with
  | .substr => ((g.ac.getD {}).add pattern t).map fun ac => (g.count, { g with ac := some ac })
  | .full => .ok (g.count, g.addFullOrDomainPattern (toLower pattern) .full)
  | .domain => .ok (g.count, g.addFullOrDomainPattern (toLower pattern) .domain)
  | .regex =>
    match compile pattern with
    | .error e => .error e
    | .ok r =>
      .ok (g.count, { g with otherMatchers := g.otherMatchers ++ [(.regex r, g.count)] })

/-- `"empty___"`, the rule of a group that has none. -/
def emptyRule : Bytes := [101, 109, 112, 116, 121, 95, 95, 95]

/-- The place of a rule with a seed. -/
def slot (rules : List Bytes) (mask : ℕ) (seed : UInt32) (i : ℕ) : ℕ :=
  (strhashFallback (rules.getD i []) seed.toUInt64).toNat &&& mask

/-- Builds the automaton, if there is one. -/
def buildAc : Option ACAutomaton → Option (Option ACAutomaton)
  | none => some none
  | some ac => ac.build.map some

/-- Matches with the automaton, if there is one. -/
def matchAc : Option ACAutomaton → Bytes → Outcome Bool
  | none, _ => .ok false
  | some ac, pattern => ac.matches pattern

/-- `Build`, with fuel for the seeds of each bucket. -/
def build (g : MphMatcherGroup) (c : Choices) (fuel : ℕ) : Option MphMatcherGroup :=
  (buildAc g.ac).bind fun ac =>
  let ruleMap :=
    if g.ruleMap.entries = [] then g.ruleMap.insert emptyRule (rollingHash emptyRule)
    else g.ruleMap
  let keyLen := ruleMap.entries.length
  let level0Mask := nextPow2 (keyLen / 4) - 1
  let level1Mask := nextPow2 keyLen - 1
  let order := c.iterate ruleMap
  let rules := g.rules ++ order.map Sigma.fst
  let sparse := sparseBuckets level0Mask (order.map Sigma.snd) 0 fun _ => []
  let buckets := denseBuckets (nextPow2 (keyLen / 4)) sparse
  (placeAll (slot rules level1Mask) fuel (c.sort buckets) {}).map fun t =>
    { g with
      ac, rules, level0Mask, level1Mask
      level0 := t.level0
      level1 := t.level1
      ruleMap := ∅ }

def lookup (g : MphMatcherGroup) (h : UInt32) (s : Bytes) : Outcome Bool :=
  let i0 := h.toNat &&& g.level0Mask
  let seed := g.level0 i0
  let i1 := (strhashFallback s seed.toUInt64).toNat &&& g.level1Mask
  let n := g.level1 i1
  match g.rules[n.toNat]? with
  | none => .panic
  | some rule => .ok (s == rule)

/-- The loop of `Match`, from the last byte on. It goes on with the hash if nothing is found. -/
def scan (g : MphMatcherGroup) : Bytes → Outcome (Option UInt32)
  | [] => .ok (some 0)
  | c :: rest =>
    (g.scan rest).bind fun
      | none => .ok none
      | some hash =>
        let hash := hash * primeRK + c.toUInt32
        if c = dot then
          (g.lookup hash (c :: rest)).bind fun found => .ok (if found then none else some hash)
        else .ok (some hash)

/-- `Match` -/
def matchIds (g : MphMatcherGroup) (pattern : Bytes) : Outcome (List UInt32) :=
  (g.scan pattern).bind fun
    | none => .ok [1]
    | some hash =>
      (g.lookup hash pattern).bind fun found =>
        if found then .ok [1]
        else
          (matchAc g.ac pattern).bind fun found =>
            if found then .ok [1]
            else
              match g.otherMatchers.find? fun e => e.1.matches pattern with
              | some e => .ok [e.2]
              | none => .ok []

/-! ## The rules of a group -/

/-- Adds patterns one after another. -/
def addAll (g : MphMatcherGroup) (adds : List (Bytes × MatcherType)) : MphMatcherGroup :=
  adds.foldl (fun g a => g.addFullOrDomainPattern a.1 a.2) g

/-- A string is a rule of these patterns. -/
def IsRule (adds : List (Bytes × MatcherType)) (u : Bytes) : Prop :=
  ∃ a ∈ adds, (a.2 = .full ∨ a.2 = .domain) ∧ u = a.1 ∨ a.2 = .domain ∧ u = dot :: a.1

/-- A group before it is built, with the rules of patterns. -/
structure IsGroupOf (g : MphMatcherGroup) (adds : List (Bytes × MatcherType)) : Prop where
  ac : g.ac = none
  otherMatchers : g.otherMatchers = []
  rules : g.rules = []
  mem_iff : ∀ u, u ∈ g.ruleMap ↔ IsRule adds u
  hash : ∀ e ∈ g.ruleMap.entries, e.2 = rollingHash e.1

theorem isRule_concat {adds : List (Bytes × MatcherType)} {a : Bytes × MatcherType} {u : Bytes} :
    IsRule (adds ++ [a]) u ↔ IsRule adds u ∨
      ((a.2 = .full ∨ a.2 = .domain) ∧ u = a.1 ∨ a.2 = .domain ∧ u = dot :: a.1) := by
  simp only [IsRule, List.mem_append, List.mem_singleton, or_and_right, exists_or, exists_eq_left]

theorem hash_insert {m : RuleMap} (h : ∀ e ∈ m.entries, e.2 = rollingHash e.1) {u : Bytes}
    {hash : UInt32} (hu : hash = rollingHash u) :
    ∀ e ∈ (m.insert u hash).entries, e.2 = rollingHash e.1 := by
  intro e he
  rw [AList.entries_insert, List.mem_cons] at he
  rcases he with rfl | he
  · exact hu
  · exact h e ((List.kerase_sublist u m.entries).subset he)

theorem IsGroupOf.add {g : MphMatcherGroup} {adds : List (Bytes × MatcherType)}
    (h : g.IsGroupOf adds) (a : Bytes × MatcherType) :
    (g.addFullOrDomainPattern a.1 a.2).IsGroupOf (adds ++ [a]) := by
  obtain ⟨pattern, t⟩ := a
  cases t with
  | full =>
    refine ⟨h.ac, h.otherMatchers, h.rules, fun u => ?_, hash_insert h.hash rfl⟩
    rw [isRule_concat, ← h.mem_iff]
    simp [addFullOrDomainPattern, or_comm]
  | domain =>
    refine ⟨h.ac, h.otherMatchers, h.rules, fun u => ?_,
      hash_insert (hash_insert h.hash rfl) rfl⟩
    rw [isRule_concat, ← h.mem_iff]
    simp [addFullOrDomainPattern]
    tauto
  | substr =>
    refine ⟨h.ac, h.otherMatchers, h.rules, fun u => ?_, h.hash⟩
    rw [isRule_concat, ← h.mem_iff]
    simp [addFullOrDomainPattern]
  | regex =>
    refine ⟨h.ac, h.otherMatchers, h.rules, fun u => ?_, h.hash⟩
    rw [isRule_concat, ← h.mem_iff]
    simp [addFullOrDomainPattern]

/-- A new group gets the rules of the patterns that are added, with their hashes. -/
theorem isGroupOf_addAll (adds : List (Bytes × MatcherType)) :
    (addAll {} adds).IsGroupOf adds := by
  induction adds using List.reverseRecOn with
  | nil =>
    refine ⟨rfl, rfl, rfl, fun u => iff_of_false (AList.notMem_empty u) ?_, fun e he => ?_⟩
    · rintro ⟨a, ha, -⟩
      exact List.not_mem_nil ha
    · exact absurd he List.not_mem_nil
  | append_singleton adds a ih =>
    rw [addAll, List.foldl_append]
    exact ih.add a

/-! ## The hash over a string -/

/-- The string itself, or an end of it that begins with a dot. -/
def IsPart (u s : Bytes) : Prop := u = s ∨ u <:+ s ∧ u.head? = some dot

variable {g : MphMatcherGroup}

/-- An end of the string that begins with a dot is looked up with its hash, if the ends after it
    are not found. -/
theorem scan_spec (h : ∀ hash s, ∃ found, g.lookup hash s = .ok found) (s : Bytes) :
    g.scan s = .ok none ∧
      (∃ u, (u <:+ s ∧ u.head? = some dot) ∧ g.lookup (rollingHash u) u = .ok true) ∨
    g.scan s = .ok (some (rollingHash s)) ∧
      ¬∃ u, (u <:+ s ∧ u.head? = some dot) ∧ g.lookup (rollingHash u) u = .ok true := by
  induction s with
  | nil =>
    refine .inr ⟨rfl, ?_⟩
    rintro ⟨u, ⟨hu, hdot⟩, -⟩
    rw [List.suffix_nil.1 hu] at hdot
    cases hdot
  | cons c s ih =>
    rw [scan]
    rcases ih with ⟨hscan, u, ⟨hu, hdot⟩, hfound⟩ | ⟨hscan, hnone⟩
    · rw [hscan]
      exact .inl ⟨rfl, u, ⟨hu.trans (List.suffix_cons c s), hdot⟩, hfound⟩
    · rw [hscan]
      by_cases hc : c = dot
      · obtain ⟨found, hlookup⟩ := h (rollingHash (c :: s)) (c :: s)
        have hhash : rollingHash s * primeRK + c.toUInt32 = rollingHash (c :: s) := rfl
        simp only [Outcome.bind, if_pos hc, hhash, hlookup]
        cases found with
        | true => exact .inl ⟨rfl, c :: s, ⟨List.suffix_refl _, congrArg some hc⟩, hlookup⟩
        | false =>
          refine .inr ⟨rfl, ?_⟩
          rintro ⟨u, ⟨hu, hdot⟩, hfound⟩
          rcases List.suffix_cons_iff.1 hu with rfl | hu
          · rw [hlookup] at hfound
            cases hfound
          · exact hnone ⟨u, ⟨hu, hdot⟩, hfound⟩
      · simp only [Outcome.bind, if_neg hc]
        refine .inr ⟨rfl, ?_⟩
        rintro ⟨u, ⟨hu, hdot⟩, hfound⟩
        rcases List.suffix_cons_iff.1 hu with rfl | hu
        · exact hc (Option.some.inj hdot)
        · exact hnone ⟨u, ⟨hu, hdot⟩, hfound⟩

/-- One of the parts of a string is found by its hash. -/
def FindsPart (g : MphMatcherGroup) (s : Bytes) : Prop :=
  ∃ u, IsPart u s ∧ g.lookup (rollingHash u) u = .ok true

theorem matchIds_of_findsPart (h : ∀ hash s, ∃ found, g.lookup hash s = .ok found) {s : Bytes}
    (hs : g.FindsPart s) : g.matchIds s = .ok [1] := by
  rw [matchIds]
  rcases scan_spec h s with ⟨hscan, -⟩ | ⟨hscan, hnone⟩
  · rw [hscan]
    rfl
  · obtain ⟨u, rfl | hu, hfound⟩ := hs
    · rw [hscan]
      simp only [Outcome.bind, hfound, if_true]
    · exact absurd ⟨u, hu, hfound⟩ hnone

/-- If no part of a string is found, the automaton is asked. -/
theorem matchIds_of_not_findsPart (h : ∀ hash s, ∃ found, g.lookup hash s = .ok found)
    (hother : g.otherMatchers = []) {s : Bytes} (hs : ¬g.FindsPart s) :
    g.matchIds s = (matchAc g.ac s).bind fun found => .ok (if found then [1] else []) := by
  rw [matchIds]
  rcases scan_spec h s with ⟨-, u, hu, hfound⟩ | ⟨hscan, -⟩
  · exact absurd ⟨u, .inr hu, hfound⟩ hs
  · rw [hscan]
    obtain ⟨found, hlookup⟩ := h (rollingHash s) s
    have hfalse : found = false := by
      rw [← Bool.not_eq_true]
      rintro rfl
      exact hs ⟨s, .inl rfl, hlookup⟩
    rw [hfalse] at hlookup
    simp only [Outcome.bind, hlookup, hother, List.find?_nil, Bool.false_eq_true, if_false]
    cases matchAc g.ac s with
    | ok found => cases found <;> rfl
    | error e => rfl
    | panic => rfl

/-- A string is matched if one of its parts is found by its hash. -/
theorem matchIds_spec (h : ∀ hash s, ∃ found, g.lookup hash s = .ok found) (hac : g.ac = none)
    (hother : g.otherMatchers = []) (s : Bytes) : ∃ ids, g.matchIds s = .ok ids ∧
      (ids ≠ [] ↔ ∃ u, IsPart u s ∧ g.lookup (rollingHash u) u = .ok true) := by
  by_cases hs : g.FindsPart s
  · exact ⟨[1], matchIds_of_findsPart h hs, iff_of_true (List.cons_ne_nil 1 []) hs⟩
  · refine ⟨[], ?_, iff_of_false (fun hne => hne rfl) hs⟩
    rw [matchIds_of_not_findsPart h hother hs, hac]
    rfl

/-! ## The automaton of a group -/

/-- The tables are built without the automaton. -/
theorem build_ac (g : MphMatcherGroup) (c : Choices) (fuel : ℕ) : g.build c fuel =
    (buildAc g.ac).bind fun ac =>
      (build { g with ac := none } c fuel).map fun b => { b with ac := ac } := by
  simp only [build, buildAc, Option.bind_some, Option.map_map]
  rfl

/-- A group without rules is built with one. -/
theorem build_empty {g : MphMatcherGroup} (h : g.ruleMap.entries = []) (c : Choices) (fuel : ℕ) :
    g.build c fuel = (g.addFullOrDomainPattern emptyRule .full).build c fuel := by
  have hne : (g.ruleMap.insert emptyRule (rollingHash emptyRule)).entries ≠ [] := by
    rw [AList.entries_insert]
    exact List.cons_ne_nil _ _
  simp only [build, addFullOrDomainPattern, h, hne, if_true, if_false]

end MphMatcherGroup

end Gzv2ray.Strmatcher
