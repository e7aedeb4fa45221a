import Gzv2ray.Strmatcher.ACAutomatonBuild
import Mathlib.Data.List.DropRight

/-!
# Finding patterns in strings

An automaton follows a string, from right to left, along the nodes of the longest suffixes of
what it read. It tells of the patterns that are such a suffix themselves, not of those that
are a suffix of it in turn.

* `ACAutomaton.IsAutomaton.matches_iff`: a string is matched where a longest suffix is a
  pattern;
* `ACAutomaton.matches_infix_iff`: these are the strings with a pattern in them if and only if
  each part of a pattern that begins with a pattern ends with one.
-/

namespace Gzv2ray.Strmatcher

/-! ## Letters of either case -/

def lower (c : UInt8) : UInt8 := if 65 ≤ c ∧ c ≤ 90 then c + 32 else c

/-- The byte, a small letter if it is a letter, that has an index. -/
def symbolChar (i : ℕ) : UInt8 :=
  if i < 26 then 97 + UInt8.ofNat i else otherChars.getD (i - 26) 0

theorem symbolChar_symbol {c : UInt8} (h : InAlphabet c) : symbolChar (symbol c) = lower c := by
  refine inAlphabet_cases (p := fun c => symbolChar (symbol c) = lower c) ?_ h
  decide +kernel

theorem symbol_lower {c : UInt8} (h : InAlphabet c) : symbol (lower c) = symbol c := by
  refine inAlphabet_cases (p := fun c => symbol (lower c) = symbol c) ?_ h
  decide +kernel

theorem map_symbolChar {s : Bytes} (h : ∀ c ∈ s, InAlphabet c) :
    (s.map symbol).map symbolChar = s.map lower := by
  rw [List.map_map]
  exact List.map_congr_left fun c hc => symbolChar_symbol (h c hc)

theorem map_symbol {s : Bytes} (h : ∀ c ∈ s, InAlphabet c) :
    (s.map lower).map symbol = s.map symbol := by
  rw [List.map_map]
  exact List.map_congr_left fun c hc => symbol_lower (h c hc)

namespace ACAutomaton

variable {t b : ACAutomaton} {path : ℕ → List ℕ} {R : Set (List ℕ)}

/-! ## The run of a string -/

/-- In a text of which some letters were read, one of the next ones completes a word. -/
def Completes (R : Set (List ℕ)) (y x : List ℕ) : Prop :=
  ∃ v, v <+: x ∧ v ≠ [] ∧ ∃ w ∈ R, IsLongestSuffix (prefixesOf R) (y ++ v) w

/-- What the loop of `Match` does from a node on, that of the longest suffix of what was read
    before: it stops at the first pattern, or goes on behind the string. -/
theorem IsAutomaton.matchFrom_append (ht : IsTrieOf t path R) (hb : IsAutomaton t path b)
    {s : Bytes} (hs : ∀ c ∈ s, c ≤ 126) (rest : Bytes) {n : ℕ} (hn : n ≤ t.count) {y : List ℕ}
    (hy : IsLongestSuffix (prefixesOf R) y (path n)) (fullMatch : Bool) :
    Completes R y (s.map symbol) ∧ b.matchFrom n fullMatch (s ++ rest) = .ok true ∨
      ¬Completes R y (s.map symbol) ∧ ∃ m ≤ t.count, ∃ full,
        b.matchFrom n fullMatch (s ++ rest) = b.matchFrom m full rest ∧
        (s = [] ∧ m = n ∧ full = fullMatch ∨ s ≠ [] ∧ path m ∉ R) := by
  induction s generalizing n y fullMatch with
  | nil =>
    refine .inr ⟨?_, n, hn, fullMatch, rfl, .inl ⟨rfl, rfl, rfl⟩⟩
    rintro ⟨v, hv, hne, -⟩
    exact hne (List.prefix_nil.1 hv)
  | cons c s ih =>
    obtain ⟨hle, hlongest⟩ := hb.row n hn _ (symbol_lt (hs c List.mem_cons_self))
    rw [ht.words_eq] at hlongest
    have hy' := hy.concat (prefixClosed_prefixesOf R) hlongest
    rw [List.cons_append, matchFrom, char2Index_eq (hs c List.mem_cons_self)]
    simp only [hb.matchTypes_eq]
    by_cases hr : path (b.trie n (symbol c)).nextNode ∈ R
    · rw [ht.mem_iff _ hle hr]
      exact .inl ⟨⟨[symbol c], ⟨s.map symbol, rfl⟩, List.cons_ne_nil _ _, _, hr, hy'⟩, rfl⟩
    · rw [ht.matchTypes_eq _ hle hr]
      -- The longest suffix is not a pattern here, so a word is completed by what comes after.
      have hiff : Completes R y ((c :: s).map symbol) ↔
          Completes R (y ++ [symbol c]) (s.map symbol) := by
        constructor
        · rintro ⟨v, hv, hne, w, hw, hlong⟩
          obtain ⟨d, v, rfl⟩ := List.exists_cons_of_ne_nil hne
          obtain ⟨rfl, hv'⟩ := List.cons_prefix_cons.1 hv
          by_cases hvnil : v = []
          · subst hvnil
            exact absurd (hlong.unique hy' ▸ hw) hr
          · exact ⟨v, hv', hvnil, w, hw, by rwa [List.append_assoc]⟩
        · rintro ⟨v, hv, -, w, hw, hlong⟩
          rw [List.append_assoc] at hlong
          exact ⟨symbol c :: v, List.cons_prefix_cons.2 ⟨rfl, hv⟩, List.cons_ne_nil _ _, w, hw, hlong⟩
      rw [hiff]
      refine (ih (fun d hd => hs d (List.mem_cons_of_mem c hd)) hle hy'
        (fullMatch && (b.trie n (symbol c)).edgeType)).imp_right ?_
      rintro ⟨hnot, m, hm, full, heq, hend⟩
      refine ⟨hnot, m, hm, full, heq, .inr ⟨List.cons_ne_nil c s, ?_⟩⟩
      rcases hend with ⟨-, rfl, -⟩ | ⟨-, hm⟩
      · exact hr
      · exact hm

/-- Where a pattern is hit in what the table has indices for, counted from the end. -/
theorem IsAutomaton.matches_append (ht : IsTrieOf t path R) (hb : IsAutomaton t path b)
    {s : Bytes} (hs : ∀ c ∈ s, c ≤ 126) (rest : Bytes) :
    Hits R (s.reverse.map symbol) ∧ b.matches (rest ++ s) = .ok true ∨
      ¬Hits R (s.reverse.map symbol) ∧ ∃ m ≤ t.count, ∃ full,
        b.matches (rest ++ s) = b.matchFrom m full rest.reverse ∧
        (s = [] ∧ m = 0 ∧ full = true ∨ s ≠ [] ∧ path m ∉ R) := by
  have hy : IsLongestSuffix (prefixesOf R) [] (path 0) := by
    rw [ht.path_zero]
    exact .nil nil_mem_prefixesOf
  have h := hb.matchFrom_append ht (fun c hc => hs c (List.mem_reverse.1 hc)) rest.reverse
    (Nat.zero_le _) hy true
  rw [List.reverse_eq_nil_iff, ne_eq, List.reverse_eq_nil_iff] at h
  rw [«matches», List.reverse_append]
  exact h

theorem IsAutomaton.matches_iff (ht : IsTrieOf t path R) (hb : IsAutomaton t path b)
    {s : Bytes} (hs : ∀ c ∈ s, c ≤ 126) : ∃ r, b.matches s = .ok r ∧
      (r = true ↔ Hits R (s.reverse.map symbol) ∨ ([] ∈ R ∧ s = [])) := by
  rcases hb.matches_append ht hs [] with ⟨hhits, h⟩ | ⟨hnot, m, hm, full, h, hend⟩
  · exact ⟨true, h, iff_of_true rfl (.inl hhits)⟩
  · refine ⟨_, h, ?_⟩
    rw [hb.matchTypes_eq, Bool.and_eq_true, or_iff_right hnot]
    rcases hend with ⟨rfl, rfl, rfl⟩ | ⟨hne, hr⟩
    · have hnil : [] ∈ R ↔ (t.matchTypes 0).exist = true := by
        rw [← ht.path_zero]
        by_cases hr : path 0 ∈ R
        · simp [ht.mem_iff 0 hm hr, hr]
        · simp [ht.matchTypes_eq 0 hm hr, hr]
      simp [hnil]
    · simp [ht.matchTypes_eq m hm hr, hne]

theorem IsAutomaton.matches_iff_hits (ht : IsTrieOf t path R) (hb : IsAutomaton t path b)
    {s : Bytes} (hs : ∀ c ∈ s, c ≤ 126) (hne : s ≠ []) :
    b.matches s = .ok true ↔ Hits R (s.reverse.map symbol) := by
  obtain ⟨r, hmatch, hiff⟩ := hb.matches_iff ht hs
  rw [hmatch, Outcome.ok.injEq, hiff]
  exact or_iff_left fun h => hne h.2

theorem IsAutomaton.matches_nil_iff (ht : IsTrieOf t path R) (hb : IsAutomaton t path b) :
    b.matches [] = .ok true ↔ [] ∈ R := by
  obtain ⟨r, hmatch, hiff⟩ := hb.matches_iff ht fun _ hc => absurd hc List.not_mem_nil
  rw [hmatch, Outcome.ok.injEq, hiff]
  constructor
  · rintro (⟨y, hy, hne, -⟩ | h)
    · exact absurd (List.prefix_nil.1 hy) hne
    · exact h.1
  · exact fun h => .inr ⟨h, rfl⟩

/-- What is read of a string, from right to left: the end behind the last byte without an index. -/
def readable (s : Bytes) : Bytes := s.rtakeWhile (· ≤ 126)

/-- A pattern is hit in what is read of the string, or there is nothing to read for it. -/
def Finds (R : Set (List ℕ)) (s : Bytes) : Prop :=
  Hits R ((readable s).reverse.map symbol) ∨ [] ∈ R ∧ s = []

theorem IsAutomaton.matches_readable (ht : IsTrieOf t path R) (hb : IsAutomaton t path b)
    (s : Bytes) : Hits R ((readable s).reverse.map symbol) ∧ b.matches s = .ok true ∨
      ¬Hits R ((readable s).reverse.map symbol) ∧ ∃ m full,
        b.matches s = b.matchFrom m full (s.rdropWhile (· ≤ 126)).reverse := by
  have hread : ∀ c ∈ readable s, c ≤ 126 := fun c hc => by
    simpa using List.mem_rtakeWhile_imp hc
  have happend := hb.matches_append ht hread (s.rdropWhile (· ≤ 126))
  rw [readable, List.rdropWhile_append_rtakeWhile] at happend
  exact happend.imp_right fun ⟨hnot, m, _, full, heq, _⟩ => ⟨hnot, m, full, heq⟩

theorem IsAutomaton.matches_of_finds (ht : IsTrieOf t path R) (hb : IsAutomaton t path b)
    {s : Bytes} (h : Finds R s) : b.matches s = .ok true := by
  rcases h with hhits | ⟨hnil, rfl⟩
  · exact ((hb.matches_readable ht s).resolve_right fun hnot => hnot.1 hhits).2
  · exact (hb.matches_nil_iff ht).2 hnil

/-- A byte without an index is looked up if nothing is found before. -/
theorem IsAutomaton.matches_of_not_finds (ht : IsTrieOf t path R) (hb : IsAutomaton t path b)
    {s : Bytes} (h : ¬Finds R s) :
    b.matches s = if s.all (· ≤ 126) then .ok false else .panic := by
  have hall : s.all (· ≤ 126) = true ↔ ∀ c ∈ s, c ≤ 126 := by simp
  split_ifs with hs <;> rw [hall] at hs
  · obtain ⟨r, hmatch, hiff⟩ := hb.matches_iff ht hs
    have hread : readable s = s := List.rtakeWhile_eq_self_iff.2 fun c hc => decide_eq_true (hs c hc)
    rw [Finds, hread, ← hiff, Bool.not_eq_true] at h
    rw [hmatch, h]
  · obtain ⟨m, full, heq⟩ :=
      ((hb.matches_readable ht s).resolve_left fun hhits => h (.inl hhits.1)).2
    have hne : s.rdropWhile (· ≤ 126) ≠ [] := fun hnil => hs fun c hc =>
      of_decide_eq_true (List.rdropWhile_eq_nil_iff.1 hnil c hc)
    obtain ⟨rest, c, hrest⟩ := (List.eq_nil_or_concat' _).resolve_left hne
    have hlast := List.rdropWhile_last_not (fun c : UInt8 => decide (c ≤ 126)) s hne
    have hlast' : ¬c ≤ 126 := by simpa only [hrest, List.getLast_append_singleton,
      decide_eq_true_eq] using hlast
    have hindex : char2Index c = none := by rw [char2Index, if_pos (UInt8.not_le.1 hlast')]
    rw [heq, hrest, List.reverse_append, List.reverse_singleton, List.singleton_append, matchFrom,
      hindex]

/-! ## Patterns in strings -/

/-- Each end of a pattern that begins with a pattern also ends with one. -/
def PatternsAtEnds (P : List Bytes) : Prop :=
  ∀ q ∈ P, ∀ u, u ≠ [] → u <:+ q → (∃ p ∈ P, p.map lower <+: u.map lower) →
    ∃ p ∈ P, p ≠ [] ∧ p.map lower <:+ u.map lower

/-- The words of the patterns, from right to left. -/
def wordsOf (P : List Bytes) : Set (List ℕ) := {w | ∃ p ∈ P, p.reverse.map symbol = w}

/-- What maps keep holds of indices if and only if it holds of letters of one case. -/
theorem map_symbol_iff {rel : {α : Type} → List α → List α → Prop}
    (hrel : ∀ {α β : Type} (f : α → β) {l m : List α}, rel l m → rel (l.map f) (m.map f))
    {p s : Bytes} (hp : ∀ c ∈ p, InAlphabet c) (hs : ∀ c ∈ s, InAlphabet c) :
    rel (p.map symbol) (s.map symbol) ↔ rel (p.map lower) (s.map lower) := by
  constructor
  · intro h
    rw [← map_symbolChar hp, ← map_symbolChar hs]
    exact hrel symbolChar h
  · intro h
    rw [← map_symbol hp, ← map_symbol hs]
    exact hrel symbol h

section Patterns

variable {p s : Bytes} (hp : ∀ c ∈ p, InAlphabet c) (hs : ∀ c ∈ s, InAlphabet c)
include hp hs

theorem reverse_prefix_iff :
    p.reverse.map symbol <+: s.reverse.map symbol ↔ p.map lower <:+ s.map lower := by
  rw [List.map_reverse, List.map_reverse, List.reverse_prefix]
  exact map_symbol_iff (fun f _ _ h => h.map f) hp hs

theorem reverse_suffix_iff :
    p.reverse.map symbol <:+ s.reverse.map symbol ↔ p.map lower <+: s.map lower := by
  rw [List.map_reverse, List.map_reverse, List.reverse_suffix]
  exact map_symbol_iff (fun f _ _ h => h.map f) hp hs

theorem reverse_infix_iff :
    p.reverse.map symbol <:+: s.reverse.map symbol ↔ p.map lower <:+: s.map lower := by
  rw [List.map_reverse, List.map_reverse, List.reverse_infix]
  exact map_symbol_iff (fun f _ _ h => h.map f) hp hs

end Patterns

section Group

variable {P : List Bytes} (hP : ∀ p ∈ P, ∀ c ∈ p, InAlphabet c)
include hP

theorem noneHidden_wordsOf : NoneHidden (wordsOf P) ↔ PatternsAtEnds P := by
  constructor
  · intro h q hq u hne hu ⟨p, hp, hprefix⟩
    have hu' : ∀ c ∈ u, InAlphabet c := fun c hc => hP q hq c (hu.subset hc)
    have hword : u.reverse.map symbol ∈ prefixesOf (wordsOf P) := by
      refine .inr ⟨_, ⟨q, hq, rfl⟩, ?_⟩
      exact (List.reverse_prefix.2 hu).map symbol
    have hnil : u.reverse.map symbol ≠ [] := by simpa using hne
    obtain ⟨_, ⟨p', hp', rfl⟩, hne', hr⟩ := h _ hword hnil
      ⟨_, ⟨p, hp, rfl⟩, (reverse_suffix_iff (hP p hp) hu').2 hprefix⟩
    exact ⟨p', hp', by simpa using hne', (reverse_prefix_iff (hP p' hp') hu').1 hr⟩
  · rintro h u (rfl | ⟨_, ⟨q, hq, rfl⟩, hu⟩) hne ⟨_, ⟨p, hp, rfl⟩, hr⟩
    · exact absurd rfl hne
    · obtain ⟨v, hv, rfl⟩ := List.prefix_map_iff.1 hu
      obtain ⟨u, rfl⟩ : ∃ u, v = u.reverse := ⟨v.reverse, (List.reverse_reverse v).symm⟩
      have hu := List.reverse_prefix.1 hv
      have hu' : ∀ c ∈ u, InAlphabet c := fun c hc => hP q hq c (hu.subset hc)
      obtain ⟨p', hp', hne', hsuffix⟩ := h q hq u (by simpa using hne) hu
        ⟨p, hp, (reverse_suffix_iff (hP p hp) hu').1 hr⟩
      exact ⟨_, ⟨p', hp', rfl⟩, by simpa using hne', (reverse_prefix_iff (hP p' hp') hu').2 hsuffix⟩

theorem exists_infix_iff {s : Bytes} (hs : ∀ c ∈ s, InAlphabet c) :
    (∃ r ∈ wordsOf P, r <:+: s.reverse.map symbol) ↔ ∃ p ∈ P, p.map lower <:+: s.map lower := by
  constructor
  · rintro ⟨_, ⟨p, hp, rfl⟩, h⟩
    exact ⟨p, hp, (reverse_infix_iff (hP p hp) hs).1 h⟩
  · rintro ⟨p, hp, h⟩
    exact ⟨_, ⟨p, hp, rfl⟩, (reverse_infix_iff (hP p hp) hs).2 h⟩

/-- The words of the patterns have their prefixes among the strings of the alphabet. -/
theorem prefixesOf_wordsOf_subset : prefixesOf (wordsOf P) ⊆
    {x | ∃ s : Bytes, (∀ c ∈ s, InAlphabet c) ∧ s.reverse.map symbol = x} := by
  rintro u (rfl | ⟨_, ⟨p, hp, rfl⟩, hu⟩)
  · exact ⟨[], fun _ hc => absurd hc List.not_mem_nil, rfl⟩
  · obtain ⟨v, hv, rfl⟩ := List.prefix_map_iff.1 hu
    refine ⟨v.reverse, fun c hc => ?_, by rw [List.reverse_reverse]⟩
    exact hP p hp c (List.mem_reverse.1 (hv.subset (List.mem_reverse.1 hc)))

/-- An automaton of patterns is built, and matches a string with a pattern in it, up to the case
    of letters, if and only if no pattern is hidden in another one. -/
theorem matches_infix_iff : ∃ ac b, addAll {} P = .ok ac ∧ ac.build = some b ∧
    ((∀ s, (∀ c ∈ s, InAlphabet c) →
      (b.matches s = .ok true ↔ ∃ p ∈ P, p.map lower <:+: s.map lower)) ↔ PatternsAtEnds P) := by
  obtain ⟨ac, path, hadd, htrie⟩ := IsTrieOf.empty.addAll fun p hp c hc => (hP p hp c hc).le
  rw [Set.empty_union] at htrie
  obtain ⟨b, hbuild, hauto⟩ := htrie.toIsTrie.build
  refine ⟨ac, b, hadd, hbuild, ?_⟩
  rw [← noneHidden_wordsOf hP, ← hits_iff_infix (prefixesOf_wordsOf_subset hP)]
  constructor
  · rintro h _ ⟨s, hs, rfl⟩ hne
    have hle : ∀ c ∈ s, c ≤ 126 := fun c hc => (hs c hc).le
    have hne' : s ≠ [] := fun hnil => hne (by rw [hnil]; rfl)
    rw [exists_infix_iff hP hs, ← h s hs, hauto.matches_iff_hits htrie hle hne']
    rfl
  · intro h s hs
    rw [← exists_infix_iff hP hs]
    by_cases hnil : s = []
    · subst hnil
      rw [hauto.matches_nil_iff htrie]
      simp [wordsOf]
    · rw [hauto.matches_iff_hits htrie (fun c hc => (hs c hc).le) hnil]
      exact h _ ⟨s, hs, rfl⟩ (by simpa using hnil)

end Group

/-- A pattern alone is found wherever it is. -/
theorem matches_infix_example : ∃ ac b, addAll {} [[97, 98]] = .ok ac ∧ ac.build = some b ∧
    ∀ s, (∀ c ∈ s, InAlphabet c) →
      (b.matches s = .ok true ↔ ∃ p ∈ [[97, 98]], p.map lower <:+: s.map lower) := by
  obtain ⟨ac, b, hadd, hbuild, hiff⟩ := matches_infix_iff (P := [[97, 98]]) (by decide +kernel)
  refine ⟨ac, b, hadd, hbuild, hiff.2 fun q hq u hne hu ⟨p, hp, hprefix⟩ => ?_⟩
  obtain rfl := List.mem_singleton.1 hq
  obtain rfl := List.mem_singleton.1 hp
  -- No shorter end of the pattern begins with it.
  have hlength := hprefix.length_le
  rw [List.length_map, List.length_map] at hlength
  obtain rfl := hu.eq_of_length_le hlength
  exact ⟨_, hp, hne, List.suffix_refl _⟩

/-- The pattern `"b"` is not found in `"bc"`, where `"abc"` might have come. -/
theorem infix_missed : ∃ ac b, addAll {} [[97, 98, 99], [98]] = .ok ac ∧ ac.build = some b ∧
    b.matches [98, 99] = .ok false ∧ [98] <:+: ([98, 99] : Bytes) := by
  obtain ⟨ac, path, hadd, htrie⟩ :=
    IsTrieOf.empty.addAll (P := [[97, 98, 99], [98]]) (by decide +kernel)
  obtain ⟨b, hbuild, -⟩ := htrie.toIsTrie.build
  have hrun : ((addAll {} [[97, 98, 99], [98]]).bind fun ac =>
      (ac.build.map fun b => b.matches [98, 99]).getD .panic) = .ok false := by decide +kernel
  rw [hadd, Outcome.bind, hbuild] at hrun
  exact ⟨ac, b, hadd, hbuild, hrun, by decide⟩

end ACAutomaton

end Gzv2ray.Strmatcher
