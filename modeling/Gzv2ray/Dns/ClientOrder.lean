import Gzv2ray.Dns.DomainRules
import Gzv2ray.Lib.FirstOccurrence

/-!
# The order of DNS clients

The clients with a rule that matches a domain are asked first, in the order of the matches, and
then the others in their order, unless they are left out of the fallback.

* `Environment.matchedRules`, `Config.others`: who is to be asked;
* `DNS.Lawful`: they are asked in this order, each once, and all indexes are in range;
* `sortClients_lawful_iff`: this is so exactly if it is not seen that the table keeps indexes
  with 16 bits only (`TruncatesUnseen`).

With no more than 2^16 clients nothing is cut off (`lawful_of_length_le`).
-/

namespace Gzv2ray.Dns

open Strmatcher

variable {E H S T : Type} (env : Environment E H S T) (config : Config E H) (domain : Bytes)

/-! ## Who is to be asked -/

/-- The matcher of all rules. -/
def Environment.matcherGroup : MatcherGroup :=
  (MatcherGroup.addAll ((env.rules config).map (·.matcher)) {}).2

/-- The ids 1, 2, and so on are handed out, in the order of the rules. -/
def HandsOutIds (rules : List DomainRule) : Prop :=
  (MatcherGroup.addAll (rules.map (·.matcher)) {}).1.map UInt32.toNat =
    (List.range rules.length).map (· + 1)

/-- The rules that the matcher tells of, in its order. -/
def Environment.matchedRules : List DomainRule :=
  ((env.matcherGroup config).matchIds domain).filterMap fun id => (env.rules config)[id.toNat - 1]?

/-- The clients of these rules. -/
def Environment.matchedClients : List ℕ := (env.matchedRules config domain).map (·.client)

/-- The clients of the fallback, in order. -/
def Config.others : List ℕ :=
  if config.disableFallback then []
  else (config.skipFlags.zipIdx.filter fun c => !c.1).map Prod.snd

/-- The first client is asked if there is no other one. -/
def orFirst (clients : List ℕ) : List ℕ := if clients = [] then [0] else clients

/-- The clients with matching rules come first, in the order of the matches, then those of the
    fallback. -/
structure IsOrdered (clients : List ℕ) : Prop where
  ne_nil : clients ≠ []
  nodup : clients.Nodup
  matched_iff : ∀ r, r ∈ env.matchedRules config domain ↔
    r ∈ env.rules config ∧ MatcherGroup.tells r.matcher domain = true
  order : clients = orFirst ((env.matchedClients config domain).eraseDups ++
    config.others.filter fun i => i ∉ env.matchedClients config domain)

/-- The clients are ordered, with all indexes in range. -/
def DNS.Lawful (d : DNS S T) : Prop :=
  ∃ clients, d.sortClients domain = .ok clients ∧ IsOrdered env config domain clients

/-- The text that is read for a rule is there. -/
def DNS.HasText (d : DNS S T) (r : DomainRule) : Prop :=
  ∃ client, d.clients[r.client % 2 ^ 16]? = some client ∧ r.index % 2 ^ 16 < client.domains.length

/-- It is not seen that indexes have 16 bits: the clients with larger ones match after all the
    others, are taken for some of these, and are those that the fallback begins with anyway. Where
    no such client has a matching rule, there is nothing to be seen. -/
structure TruncatesUnseen (d : DNS S T) : Prop where
  hasText : ∀ r ∈ env.matchedRules config domain, 2 ^ 16 ≤ r.client → d.HasText r
  isUnseen : ∃ early late, IsUnseen (· < 2 ^ 16) (· % 2 ^ 16)
    (env.matchedClients config domain) config.others early late

/-! ## Matches -/

variable {env config domain}

theorem HandsOutIds.length_lt {rules : List DomainRule} (h : HandsOutIds rules) :
    rules.length < 2 ^ 32 := by
  cases rules with
  | nil => decide
  | cons r rules =>
    have hlast := congrArg (fun l => l[rules.length]?) h
    rw [List.getElem?_map, List.getElem?_map, MatcherGroup.getElem?_addAll, List.getElem?_map,
      List.length_cons, List.getElem?_eq_getElem (Nat.lt_succ_self _),
      List.getElem?_eq_getElem (by simp)] at hlast
    have hmod := Option.some.inj hlast
    have hzero : ({} : MatcherGroup).count = 0 := rfl
    rw [hzero, UInt32.zero_add, UInt32.toNat_ofNat', List.getElem_range] at hmod
    have hlt := Nat.mod_lt (rules.length + 1) (show 0 < 2 ^ 32 by decide)
    rw [hmod] at hlt
    exact hlt

/-- The matcher tells of the rules that match, by their positions. -/
theorem mem_matchIds_iff (hlength : (env.rules config).length < 2 ^ 32) (id : UInt32) :
    id ∈ (env.matcherGroup config).matchIds domain ↔
      ∃ (i : ℕ) (r : DomainRule), id.toNat = i + 1 ∧ (env.rules config)[i]? = some r ∧
        MatcherGroup.tells r.matcher domain = true := by
  have hempty : MatcherGroup.matchIds {} domain = [] := by
    rw [MatcherGroup.matchIds, DomainMatcherGroup.matchDomain]
    split <;> rfl
  have hperm := MatcherGroup.matchIds_addAll ((env.rules config).map (·.matcher)) {} domain
  rw [hempty, List.nil_append] at hperm
  have hentry (i : ℕ) (e : Matcher × UInt32) :
      (((env.rules config).map (·.matcher)).zip
        (MatcherGroup.addAll ((env.rules config).map (·.matcher)) {}).1)[i]? = some e ↔
      ∃ r, (env.rules config)[i]? = some r ∧ r.matcher = e.1 ∧ UInt32.ofNat (i + 1) = e.2 := by
    have hzero : ({} : MatcherGroup).count = 0 := rfl
    rw [List.getElem?_zip_eq_some, MatcherGroup.getElem?_addAll, List.getElem?_map, hzero]
    cases (env.rules config)[i]? with
    | none => simp
    | some r => simp
  rw [Environment.matcherGroup, hperm.mem_iff, List.mem_map]
  constructor
  · rintro ⟨e, he, rfl⟩
    obtain ⟨hmem, htells⟩ := List.mem_filter.1 he
    obtain ⟨i, hi⟩ := List.getElem?_of_mem hmem
    obtain ⟨r, hr, hmatcher, hid⟩ := (hentry i e).1 hi
    have hlt := (List.getElem?_eq_some_iff.1 hr).1
    refine ⟨i, r, ?_, hr, hmatcher ▸ htells⟩
    rw [← hid, UInt32.toNat_ofNat', Nat.mod_eq_of_lt (by omega)]
  · rintro ⟨i, r, hid, hr, htells⟩
    refine ⟨(r.matcher, id), List.mem_filter.2 ⟨?_, htells⟩, rfl⟩
    refine List.mem_of_getElem? ((hentry i (r.matcher, id)).2 ⟨r, hr, rfl, ?_⟩)
    rw [← hid, UInt32.ofNat_toNat]

/-- What the matcher tells of is looked up at the positions of the rules. -/
theorem forall₂_matchedRules (hlength : (env.rules config).length < 2 ^ 32) :
    List.Forall₂ (fun id r => ∃ i, id.toNat = i + 1 ∧ (env.rules config)[i]? = some r)
      ((env.matcherGroup config).matchIds domain) (env.matchedRules config domain) := by
  have hvalid (id : UInt32) (hid : id ∈ (env.matcherGroup config).matchIds domain) :
      ∃ (i : ℕ) (r : DomainRule), id.toNat = i + 1 ∧ (env.rules config)[i]? = some r := by
    obtain ⟨i, r, hi, hr, -⟩ := (mem_matchIds_iff hlength id).1 hid
    exact ⟨i, r, hi, hr⟩
  rw [Environment.matchedRules]
  generalize (env.matcherGroup config).matchIds domain = ids at hvalid
  induction ids with
  | nil => exact .nil
  | cons id ids ih =>
    obtain ⟨i, r, hi, hr⟩ := hvalid id List.mem_cons_self
    have hget : (env.rules config)[id.toNat - 1]? = some r := by rw [hi, Nat.add_sub_cancel, hr]
    rw [List.filterMap_cons, hget]
    exact .cons ⟨i, hi, hr⟩ (ih fun id' hid' => hvalid id' (List.mem_cons_of_mem _ hid'))

/-- The matched rules are those that the matcher tells of. -/
theorem mem_matchedRules_iff (hlength : (env.rules config).length < 2 ^ 32) (r : DomainRule) :
    r ∈ env.matchedRules config domain ↔
      r ∈ env.rules config ∧ MatcherGroup.tells r.matcher domain = true := by
  rw [Environment.matchedRules, List.mem_filterMap]
  constructor
  · rintro ⟨id, hid, hget⟩
    obtain ⟨i, r', hi, hr', htells⟩ := (mem_matchIds_iff hlength id).1 hid
    rw [hi, Nat.add_sub_cancel, hr'] at hget
    obtain rfl := Option.some.inj hget
    exact ⟨List.mem_of_getElem? hr', htells⟩
  · rintro ⟨hmem, htells⟩
    obtain ⟨i, hi⟩ := List.getElem?_of_mem hmem
    have hlt := (List.getElem?_eq_some_iff.1 hi).1
    have hid : (UInt32.ofNat (i + 1)).toNat = i + 1 := by
      rw [UInt32.toNat_ofNat', Nat.mod_eq_of_lt (by omega)]
    refine ⟨.ofNat (i + 1), (mem_matchIds_iff hlength _).2 ⟨i, r, hid, hi, htells⟩, ?_⟩
    rw [hid, Nat.add_sub_cancel, hi]

theorem nodup_others : config.others.Nodup := by
  rw [Config.others]
  split
  · exact List.nodup_nil
  · refine List.Nodup.sublist (List.filter_sublist.map Prod.snd) ?_
    rw [List.zipIdx_map_snd]
    exact List.nodup_range'

/-! ## Loops -/

/-- The clients of a list were used, each once. -/
structure Marks (n : ℕ) (visited : List ℕ) (st : Sorting) : Prop where
  clients : st.clients = visited.eraseDups
  clientUsed : st.clientUsed = (List.range n).map fun i => decide (i ∈ visited)

variable {n : ℕ} {visited : List ℕ} {st : Sorting}

theorem marks_nil (n : ℕ) : Marks n [] { clientUsed := List.replicate n false } where
  clients := rfl
  clientUsed := by simp

theorem Marks.getElem? (h : Marks n visited st) {idx : ℕ} (hidx : idx < n) :
    st.clientUsed[idx]? = some (decide (idx ∈ visited)) := by
  rw [h.clientUsed, List.getElem?_map, List.getElem?_range hidx, Option.map_some]

/-- A client that was used is passed over. -/
theorem Marks.skip (h : Marks n visited st) {idx : ℕ} (hidx : idx ∈ visited) :
    Marks n (visited ++ [idx]) st where
  clients := by rw [h.clients, List.eraseDups_concat, if_pos hidx]
  clientUsed := by
    rw [h.clientUsed]
    refine List.map_congr_left fun i _ => ?_
    rw [decide_eq_decide, List.mem_append, List.mem_singleton]
    exact ⟨.inl, fun hi => hi.elim id fun hi => hi ▸ hidx⟩

theorem Marks.use (h : Marks n visited st) {idx : ℕ} (hidx : idx ∉ visited) :
    Marks n (visited ++ [idx]) (st.use idx) where
  clients := by rw [Sorting.use, h.clients, List.eraseDups_concat, if_neg hidx]
  clientUsed := by
    rw [Sorting.use, h.clientUsed]
    refine List.ext_getElem? fun i => ?_
    rw [List.getElem?_set, List.length_map, List.length_range, List.getElem?_map,
      List.getElem?_map]
    rcases Nat.lt_or_ge i n with hi | hi
    · rw [List.getElem?_range hi, Option.map_some, Option.map_some]
      by_cases heq : idx = i
      · rw [if_pos heq, if_pos (heq ▸ hi), heq, decide_eq_true (by simp)]
      · have hne : i ∈ visited ++ [idx] ↔ i ∈ visited := by
          rw [List.mem_append, List.mem_singleton, or_iff_left (Ne.symm heq)]
        rw [if_neg heq, decide_eq_decide.2 hne]
    · have hnone : (List.range n)[i]? = none := List.getElem?_eq_none (by simpa using hi)
      rw [hnone, Option.map_none, Option.map_none]
      by_cases heq : idx = i
      · rw [if_pos heq, if_neg (by omega)]
      · rw [if_neg heq]

variable {d : DNS S T}

theorem toNat_clientIdx (r : DomainRule) : r.info.clientIdx.toNat = r.client % 2 ^ 16 :=
  UInt16.toNat_ofNat'

theorem toNat_domainRuleIdx (r : DomainRule) : r.info.domainRuleIdx.toNat = r.index % 2 ^ 16 :=
  UInt16.toNat_ofNat'

/-- What is looked up for a rule. -/
theorem priorityMatching_cons {id : UInt32} {r : DomainRule}
    (hinfo : d.matcherInfos[id.toNat]? = some r.info) (ids : List UInt32)
    (hm : Marks d.clients.length visited st) :
    (¬ d.HasText r ∧ d.priorityMatching (id :: ids) st = .panic) ∨
      d.HasText r ∧ ∃ st', Marks d.clients.length (visited ++ [r.client % 2 ^ 16]) st' ∧
        d.priorityMatching (id :: ids) st = d.priorityMatching ids st' := by
  rw [DNS.priorityMatching, hinfo]
  dsimp only
  rw [toNat_clientIdx, toNat_domainRuleIdx, DNS.HasText]
  cases hclient : d.clients[r.client % 2 ^ 16]? with
  | none => exact .inl ⟨fun ⟨c, hc, _⟩ => (by cases hc), rfl⟩
  | some client =>
    dsimp only
    cases htext : client.domains[r.index % 2 ^ 16]? with
    | none =>
      refine .inl ⟨fun ⟨c, hc, hlt⟩ => ?_, rfl⟩
      obtain rfl := Option.some.inj hc
      exact absurd hlt (Nat.not_lt.2 (List.getElem?_eq_none_iff.1 htext))
    | some text =>
      refine .inr ⟨⟨client, rfl, (List.getElem?_eq_some_iff.1 htext).1⟩, ?_⟩
      dsimp only
      rw [hm.getElem? (List.getElem?_eq_some_iff.1 hclient).1]
      by_cases hvisited : r.client % 2 ^ 16 ∈ visited
      · rw [decide_eq_true hvisited]
        exact ⟨st, hm.skip hvisited, rfl⟩
      · rw [decide_eq_false hvisited]
        exact ⟨_, hm.use hvisited, rfl⟩

/-- The first loop visits the clients that are found in the table, if there is a text for each
    rule, and else it panics. -/
theorem priorityMatching_spec {ids : List UInt32} {rules : List DomainRule}
    (hinfos : List.Forall₂ (fun id r => d.matcherInfos[id.toNat]? = some r.info) ids rules)
    (hm : Marks d.clients.length visited st) :
    ((∃ r ∈ rules, ¬ d.HasText r) → d.priorityMatching ids st = .panic) ∧
      ((∀ r ∈ rules, d.HasText r) → ∃ st', d.priorityMatching ids st = .ok st' ∧
        Marks d.clients.length (visited ++ rules.map fun r => r.client % 2 ^ 16) st') := by
  induction hinfos generalizing visited st with
  | nil => exact ⟨nofun, fun _ => ⟨st, rfl, by rwa [List.map_nil, List.append_nil]⟩⟩
  | @cons id r ids rules hinfo _ ih =>
    rcases priorityMatching_cons hinfo ids hm with ⟨hnot, hpanic⟩ | ⟨htext, st', hm', hstep⟩
    · exact ⟨fun _ => hpanic, fun hall => absurd (hall r List.mem_cons_self) hnot⟩
    · rw [hstep]
      refine ⟨fun ⟨r', hr', hnot⟩ => ?_, fun hall => ?_⟩
      · rcases List.mem_cons.1 hr' with rfl | hr'
        · exact absurd htext hnot
        · exact (ih hm').1 ⟨r', hr', hnot⟩
      · obtain ⟨st'', hok, hm''⟩ := (ih hm').2 fun r' hr' => hall r' (List.mem_cons_of_mem _ hr')
        rw [List.append_assoc] at hm''
        exact ⟨st'', hok, hm''⟩

/-- The second loop visits the clients that are not left out. -/
theorem fallback_spec (idx : ℕ) (clients : List (Client S)) (hm : Marks n visited st)
    (hlength : idx + clients.length ≤ n) :
    ∃ st', DNS.fallback idx clients st = .ok st' ∧ Marks n (visited ++
      (((clients.map (·.skipFallback)).zipIdx idx).filter fun c => !c.1).map Prod.snd) st' := by
  induction clients generalizing idx visited st with
  | nil => exact ⟨st, rfl, by rwa [List.map_nil, List.zipIdx_nil, List.filter_nil, List.map_nil,
      List.append_nil]⟩
  | cons client clients ih =>
    rw [List.length_cons] at hlength
    rw [DNS.fallback, hm.getElem? (by omega), List.map_cons, List.zipIdx_cons]
    dsimp only
    cases hskip : client.skipFallback with
    | true =>
      rw [Bool.or_true, if_pos rfl, List.filter_cons_of_neg (by simp)]
      exact ih (idx + 1) hm (by omega)
    | false =>
      rw [Bool.or_false, List.filter_cons_of_pos (by simp), List.map_cons]
      have hm' : Marks n (visited ++ [idx])
          (if decide (idx ∈ visited) = true then st else st.use idx) := by
        by_cases hvisited : idx ∈ visited
        · rw [if_pos (decide_eq_true hvisited)]
          exact hm.skip hvisited
        · rw [if_neg (by simpa using hvisited)]
          exact hm.use hvisited
      obtain ⟨st', hok, hmarks⟩ := ih (idx + 1) hm' (by omega)
      rw [List.append_assoc] at hmarks
      exact ⟨st', hok, hmarks⟩

/-! ## The order -/

theorem skipFlags_ne_nil : config.skipFlags ≠ [] := by
  rw [Config.skipFlags]
  split
  · exact List.cons_ne_nil _ _
  · rename_i h
    rwa [List.isEmpty_iff] at h

/-- The clients that are found in the table, and the others after them. -/
theorem sortClients_spec (hbuilt : IsBuilt env config d)
    (hlength : (env.rules config).length < 2 ^ 32) :
    ((∃ r ∈ env.matchedRules config domain, ¬ d.HasText r) → d.sortClients domain = .panic) ∧
      ((∀ r ∈ env.matchedRules config domain, d.HasText r) → d.sortClients domain =
        .ok (orFirst (ranking ((env.matchedClients config domain).map (· % 2 ^ 16))
          config.others))) := by
  have hinfos : List.Forall₂ (fun id r => d.matcherInfos[id.toNat]? = some r.info)
      (d.domainMatcher.matchIds domain) (env.matchedRules config domain) := by
    rw [hbuilt.domainMatcher]
    refine (forall₂_matchedRules hlength).imp fun id r ⟨i, hi, hr⟩ => ?_
    rw [hi]
    exact hbuilt.matcherInfos hlength i r hr
  have hloop := priorityMatching_spec hinfos (marks_nil d.clients.length)
  refine ⟨fun hnot => ?_, fun hall => ?_⟩
  · rw [DNS.sortClients, hloop.1 hnot, Outcome.bind]
  · obtain ⟨st, hst, hm⟩ := hloop.2 hall
    rw [List.nil_append] at hm
    have hothers : ∃ st', (if d.disableFallback then Outcome.ok st else
        DNS.fallback 0 d.clients st) = .ok st' ∧ Marks d.clients.length
          (((env.matchedClients config domain).map (· % 2 ^ 16)) ++ config.others) st' := by
      rw [hbuilt.disableFallback, Config.others, ← hbuilt.skipFlags, Environment.matchedClients,
        List.map_map]
      cases config.disableFallback with
      | true => exact ⟨st, rfl, by rwa [if_pos rfl, List.append_nil]⟩
      | false => exact fallback_spec 0 d.clients hm (Nat.zero_add _).le
    obtain ⟨st', hst', hm'⟩ := hothers
    rw [DNS.sortClients, hst, Outcome.bind, hst', Outcome.bind, hm'.clients,
      ← ranking_eq_eraseDups nodup_others, orFirst]
    by_cases hnil : ranking ((env.matchedClients config domain).map (· % 2 ^ 16))
        config.others = []
    · rw [if_pos (List.length_eq_zero_iff.2 hnil), if_pos hnil]
      cases hclients : d.clients with
      | nil => exact absurd (by rw [← hbuilt.skipFlags, hclients]; rfl) skipFlags_ne_nil
      | cons c clients => rfl
    · rw [if_neg (mt List.length_eq_zero_iff.1 hnil), if_neg hnil]

/-- The first client is put in either of both rankings, or in none. -/
theorem orFirst_ranking_map_eq_iff (f : ℕ → ℕ) (first others : List ℕ) :
    orFirst (ranking (first.map f) others) = orFirst (ranking first others) ↔
      ranking (first.map f) others = ranking first others := by
  cases first with
  | nil => exact iff_of_true rfl rfl
  | cons i first =>
    have hne (j : ℕ) (l : List ℕ) : ranking (j :: l) others ≠ [] := by
      rw [ranking, List.eraseDups_cons]
      exact List.cons_ne_nil _ _
    rw [List.map_cons, orFirst, orFirst, if_neg (hne _ _), if_neg (hne _ _)]

theorem isOrdered_ranking (hlength : (env.rules config).length < 2 ^ 32) :
    IsOrdered env config domain
      (orFirst (ranking (env.matchedClients config domain) config.others)) where
  ne_nil := by
    rw [orFirst]
    split
    · exact List.cons_ne_nil _ _
    · assumption
  nodup := by
    rw [orFirst]
    split
    · exact List.nodup_singleton _
    · exact nodup_ranking nodup_others
  matched_iff := mem_matchedRules_iff hlength
  order := rfl

/-- There is a text for each rule of a client whose index is not cut off. -/
theorem IsBuilt.hasText (hbuilt : IsBuilt env config d) {r : DomainRule}
    (hr : r ∈ env.rules config) (hlt : r.client < 2 ^ 16) : d.HasText r := by
  obtain ⟨client, hclient, hindex⟩ := hbuilt.owned r hr
  exact ⟨client, by rwa [Nat.mod_eq_of_lt hlt], (Nat.mod_le _ _).trans_lt hindex⟩

theorem IsBuilt.hasText_iff (hbuilt : IsBuilt env config d)
    (hlength : (env.rules config).length < 2 ^ 32) :
    (∀ r ∈ env.matchedRules config domain, d.HasText r) ↔
      ∀ r ∈ env.matchedRules config domain, 2 ^ 16 ≤ r.client → d.HasText r := by
  refine forall₂_congr fun r hr => ⟨fun h _ => h, fun h => ?_⟩
  rcases Nat.lt_or_ge r.client (2 ^ 16) with hlt | hge
  · exact hbuilt.hasText ((mem_matchedRules_iff hlength r).1 hr).1 hlt
  · exact h hge

theorem IsBuilt.lawful_iff_unseen (hbuilt : IsBuilt env config d)
    (hlength : (env.rules config).length < 2 ^ 32) :
    d.Lawful env config domain ↔ TruncatesUnseen env config domain d := by
  have hspec := @sortClients_spec E H S T env config domain d hbuilt hlength
  have hiff : orFirst (ranking ((env.matchedClients config domain).map (· % 2 ^ 16))
      config.others) = orFirst (ranking (env.matchedClients config domain) config.others) ↔
      ∃ early late, IsUnseen (· < 2 ^ 16) (· % 2 ^ 16) (env.matchedClients config domain)
        config.others early late :=
    (orFirst_ranking_map_eq_iff _ _ _).trans (ranking_map_eq_iff
      (fun _ h => Nat.mod_eq_of_lt h) (fun a => Nat.mod_lt a (by decide)) nodup_others)
  constructor
  · rintro ⟨clients, hsort, hordered⟩
    have hall : ∀ r ∈ env.matchedRules config domain, d.HasText r := by
      by_contra hnot
      push Not at hnot
      rw [hspec.1 hnot] at hsort
      cases hsort
    rw [hspec.2 hall] at hsort
    have heq := (Outcome.ok.inj hsort).trans hordered.order
    exact ⟨(hbuilt.hasText_iff hlength).1 hall, hiff.1 heq⟩
  · rintro ⟨htext, hunseen⟩
    refine ⟨_, hspec.2 ((hbuilt.hasText_iff hlength).2 htext), ?_⟩
    rw [hiff.2 hunseen]
    exact isOrdered_ranking hlength

/-- With no more than 2^16 clients no index is cut off. -/
theorem lawful_of_length_le (hbuilt : IsBuilt env config d)
    (hlength : (env.rules config).length < 2 ^ 32) (hclients : d.clients.length ≤ 2 ^ 16) :
    d.Lawful env config domain := by
  have hsmall (r : DomainRule) (hr : r ∈ env.matchedRules config domain) : r.client < 2 ^ 16 := by
    obtain ⟨client, hclient, -⟩ := hbuilt.owned r ((mem_matchedRules_iff hlength r).1 hr).1
    exact (List.getElem?_eq_some_iff.1 hclient).1.trans_le hclients
  refine (hbuilt.lawful_iff_unseen hlength).2
    ⟨fun r hr hge => absurd (hsmall r hr) (Nat.not_lt.2 hge), _, [], (List.append_nil _).symm,
      fun i hi => ?_, nofun, nofun, List.nil_prefix⟩
  obtain ⟨r, hr, rfl⟩ := List.mem_map.1 (List.mem_eraseDups.1 hi)
  exact hsmall r hr

/-- With the ids 1, 2, and so on, all indexes are in range while the clients are made: only the
    services may panic. Those that are asked for a domain are ordered, with all indexes in range,
    if and only if it is not seen that indexes have 16 bits. -/
theorem sortClients_lawful_iff (env : Environment E H S T) (config : Config E H)
    (hids : HandsOutIds (env.rules config)) (domain : Bytes) :
    (new env config = .panic → env.Panics config) ∧
    ∀ d, new env config = .ok d →
      (d.Lawful env config domain ↔ TruncatesUnseen env config domain d) :=
  ⟨panics_of_new, fun _ hd => (isBuilt_of_new hd).lawful_iff_unseen hids.length_lt⟩

/-! ## Many clients -/

/-- Servers that are told apart by their addresses, and a regular expression for what has no
    dot. -/
def exampleEnvironment : Environment Bytes Unit Bytes Unit where
  compile _ := .ok fun s => !s.isEmpty && !s.contains dot
  newServer endpoint := .ok endpoint
  isLocal server := server == ascii "localhost"
  newLocalNameServer := ascii "localhost"
  newStaticHosts _ := .ok ()
  generateRandomTag := ascii "gzv2ray.system.6ba7b810-9dad-41d1-80b4-00c04fd430c8"

/-- Some simple servers, and one that is preferred for a domain. -/
def manyServers (n : ℕ) : Config Bytes Unit where
  nameServers := List.replicate n (ascii "8.8.8.8")
  nameServer := [{ address := ascii "1.1.1.1", prioritizedDomain := [⟨.full, ascii "a.b"⟩] }]
  hosts := ()

theorem newSimpleClients_replicate (n : ℕ) :
    newSimpleClients exampleEnvironment [] (List.replicate n (ascii "8.8.8.8")) =
      .ok (List.replicate n { server := ascii "8.8.8.8" }) := by
  induction n with
  | zero => rfl
  | succ n ih =>
    rw [List.replicate_succ, newSimpleClients, ih]
    rfl

/-- The client of the server that is preferred. -/
def preferredClient : Client Bytes where
  server := ascii "1.1.1.1"
  domains := [ascii "full:a.b"]

theorem newClients_manyServers (n : ℕ) (clients : List (Client Bytes)) :
    ∃ table, newClients exampleEnvironment [] (manyServers n).nameServer clients
      { matcherInfos := List.replicate 2 {} } = .ok (clients ++ [preferredClient], table) :=
  ⟨_, rfl⟩

theorem new_manyServers (n : ℕ) : ∃ d, new exampleEnvironment (manyServers n) = .ok d ∧
    d.clients = List.replicate n { server := ascii "8.8.8.8" } ++ [preferredClient] := by
  have hsimple : newSimpleClients exampleEnvironment (manyServers n).clientIp
      (manyServers n).nameServers = .ok (List.replicate n { server := ascii "8.8.8.8" }) :=
    newSimpleClients_replicate n
  have hhosts : exampleEnvironment.newStaticHosts (manyServers n).hosts = .ok () := rfl
  have hcount : domainRuleCount (manyServers n).nameServer + 1 = 2 := rfl
  have hip : (manyServers n).clientIp = [] := rfl
  obtain ⟨table, htable⟩ :=
    newClients_manyServers n (List.replicate n { server := ascii "8.8.8.8" })
  rw [new, hhosts, if_neg fun h => h.1 rfl]
  dsimp only
  rw [hsimple, Outcome.bind, hcount, hip, htable, Outcome.map]
  refine ⟨_, rfl, ?_⟩
  dsimp only
  rw [if_neg]
  rw [List.isEmpty_iff]
  exact List.append_ne_nil_of_right_ne_nil _ (List.cons_ne_nil _ _)

theorem rules_manyServers (n : ℕ) :
    exampleEnvironment.rules (manyServers n) = [⟨n, 0, .full (ascii "a.b")⟩] := by
  rw [Environment.rules, manyServers, List.length_replicate]
  rfl

theorem matchedRules_manyServers (n : ℕ) :
    exampleEnvironment.matchedRules (manyServers n) (ascii "a.b") =
      [⟨n, 0, .full (ascii "a.b")⟩] := by
  rw [Environment.matchedRules, Environment.matcherGroup, rules_manyServers]
  rfl

/-- The one with a rule has the index 1. -/
theorem sortClients_lawful_example : ∃ d, new exampleEnvironment (manyServers 1) = .ok d ∧
    (d.Lawful exampleEnvironment (manyServers 1) (ascii "a.b") ↔
      TruncatesUnseen exampleEnvironment (manyServers 1) (ascii "a.b") d) := by
  obtain ⟨d, hd, -⟩ := new_manyServers 1
  exact ⟨d, hd,
    (sortClients_lawful_iff exampleEnvironment (manyServers 1) rfl (ascii "a.b")).2 d hd⟩

/-- The client with the index 2^16 is taken for the first one, which has no rules. -/
theorem client_taken_for_another :
    HandsOutIds (exampleEnvironment.rules (manyServers (2 ^ 16))) ∧
      ∃ d, new exampleEnvironment (manyServers (2 ^ 16)) = .ok d ∧
        d.sortClients (ascii "a.b") = .panic ∧
        ¬ d.Lawful exampleEnvironment (manyServers (2 ^ 16)) (ascii "a.b") := by
  have hrules := rules_manyServers (2 ^ 16)
  have hids : HandsOutIds (exampleEnvironment.rules (manyServers (2 ^ 16))) := by
    rw [hrules]
    rfl
  obtain ⟨d, hd, hclients⟩ := new_manyServers (2 ^ 16)
  have hpanic : d.sortClients (ascii "a.b") = .panic := by
    refine (sortClients_spec (isBuilt_of_new hd) hids.length_lt).1 ⟨⟨2 ^ 16, 0, .full (ascii "a.b")⟩, ?_, ?_⟩
    · rw [matchedRules_manyServers]
      exact List.mem_singleton_self _
    · rintro ⟨client, hclient, hindex⟩
      rw [hclients, List.getElem?_append_left (by rw [List.length_replicate]; decide),
        List.getElem?_replicate, if_pos (by decide)] at hclient
      obtain rfl := Option.some.inj hclient
      exact absurd hindex (Nat.not_lt_zero _)
  refine ⟨hids, d, hd, hpanic, ?_⟩
  rintro ⟨clients, hok, -⟩
  rw [hpanic] at hok
  cases hok

end Gzv2ray.Dns
