import Gzv2ray.Dns.Clients

/-!
# Rules of DNS clients

The rules of a configuration, in the order in which they are added to the matcher, and the table
that is made of them.

* `Environment.rules`: the rules, each with its client and with the text that stands for it;
* `Holds`: a table has some rules, which each call of `updateDomain` preserves;
* `IsBuilt`: what is known of the clients, the matcher and the table once they are made.
-/

namespace Gzv2ray.Dns

open Strmatcher

/-- A rule of a client: the index of its text, and the matcher. -/
structure DomainRule where
  client : ℕ
  index : ℕ
  matcher : Matcher

def DomainRule.info (r : DomainRule) : DomainMatcherInfo := ⟨.ofNat r.client, .ofNat r.index⟩

/-- The rules of some domains of a client, as far as they have matchers. -/
def domainRules (compile : Bytes → Except Error (Bytes → Bool))
    (originalRules : List OriginalRule) (client : ℕ) :
    List PriorityDomain → RuleCursor → List DomainRule
  | [], _ => []
  | d :: domains, c =>
    match toStrMatcher compile d with
    | .error _ => []
    | .ok (matcher, _) =>
      ⟨client, c.ruleCurr, matcher⟩ ::
        domainRules compile originalRules client domains (c.next originalRules)

/-! ## Tables -/

/-- A table has the rules that were added, if there are ids for all of them. -/
structure Holds (rules : List DomainRule) (t : DomainTable) : Prop where
  domainMatcher : t.domainMatcher = (MatcherGroup.addAll (rules.map (·.matcher)) {}).2
  matcherInfos : rules.length < 2 ^ 32 → ∀ (i : ℕ) (r : DomainRule), rules[i]? = some r →
    t.matcherInfos[i + 1]? = some r.info

theorem holds_nil (n : ℕ) : Holds [] { matcherInfos := List.replicate n {} } where
  domainMatcher := rfl
  matcherInfos _ i r h := by cases h

/-- Room may be made at any time. -/
theorem Holds.forServer {rules : List DomainRule} {t : DomainTable} (h : Holds rules t)
    (isLocal : Bool) : Holds rules (t.forServer isLocal) := by
  cases isLocal with
  | false => exact h
  | true =>
    refine ⟨h.domainMatcher, fun hlength i r hr => ?_⟩
    have hinfo := h.matcherInfos hlength i r hr
    exact (List.getElem?_append_left (List.getElem?_eq_some_iff.1 hinfo).1).trans hinfo

/-- There is as much room for the local domains as there are of them. -/
theorem length_forServer {E : Type} (ns : NameServer E) (t : DomainTable) (isLocal : Bool) :
    (ns.forServer isLocal).prioritizedDomain.length + t.matcherInfos.length =
      ns.prioritizedDomain.length + (t.forServer isLocal).matcherInfos.length := by
  cases isLocal with
  | false => rfl
  | true =>
    rw [NameServer.forServer, DomainTable.forServer, if_pos rfl, if_pos rfl, List.length_append,
      List.length_append, List.length_replicate]
    omega

theorem Holds.id {rules : List DomainRule} {t : DomainTable} (h : Holds rules t) (m : Matcher) :
    (t.domainMatcher.add m).1.toNat = (rules.length + 1) % 2 ^ 32 := by
  have hzero : ({} : MatcherGroup).count = 0 := rfl
  rw [MatcherGroup.add_fst, h.domainMatcher, MatcherGroup.count_addAll, List.length_map, hzero,
    UInt32.zero_add, UInt32.toNat_add, UInt32.toNat_ofNat', UInt32.toNat_one, Nat.mod_add_mod]

/-- A rule is added, if there is room. -/
theorem Holds.updateDomain {rules : List DomainRule} {t : DomainTable} (h : Holds rules t)
    (r : DomainRule) (hroom : rules.length + 1 < t.matcherInfos.length) :
    ∃ t', t.updateDomain r.client r.matcher r.index = .ok t' ∧ Holds (rules ++ [r]) t' ∧
      t'.matcherInfos.length = t.matcherInfos.length := by
  have hmidx := h.id r.matcher
  have hlt : (t.domainMatcher.add r.matcher).1.toNat < t.matcherInfos.length :=
    hmidx ▸ (Nat.mod_le _ _).trans_lt hroom
  refine ⟨_, if_pos hlt, ⟨?_, fun hlength i r' hr' => ?_⟩, List.length_set⟩
  · rw [List.map_append, MatcherGroup.addAll_append, ← h.domainMatcher]
    rfl
  · rw [List.length_append, List.length_singleton] at hlength
    rw [Nat.mod_eq_of_lt hlength] at hmidx
    dsimp only
    rw [hmidx]
    rcases Nat.lt_trichotomy i rules.length with hi | rfl | hi
    · rw [List.getElem?_append_left hi] at hr'
      rw [List.getElem?_set_ne (by omega)]
      exact h.matcherInfos (by omega) i r' hr'
    · rw [List.getElem?_append_right le_rfl, Nat.sub_self] at hr'
      obtain rfl := Option.some.inj hr'
      exact List.getElem?_set_self hroom
    · rw [List.getElem?_eq_none (by simpa using hi)] at hr'
      cases hr'

/-! ## Texts of rules -/

/-- There is a text for each rule that was used, and for the one that is. -/
def RuleCursor.Fits (c : RuleCursor) (texts : List Bytes) : Prop :=
  texts.length = c.ruleCurr + if 0 < c.ruleIter then 1 else 0

/-- After a domain there is a text for its rule. -/
theorem RuleCursor.Fits.next {c : RuleCursor} {texts : List Bytes} (h : c.Fits texts)
    (originalRules : List OriginalRule) (text : Bytes) :
    (c.next originalRules).Fits (c.append originalRules text texts) ∧
      c.ruleCurr < (c.append originalRules text texts).length ∧
      texts.length ≤ (c.append originalRules text texts).length := by
  rw [Fits] at h
  cases hrule : originalRules[c.ruleCurr]? with
  | none =>
    simp only [RuleCursor.append, RuleCursor.next, Fits, hrule, List.length_append,
      List.length_singleton]
    omega
  | some rule =>
    -- The text is put down with the first domain of the rule.
    have hlength : (c.append originalRules text texts).length = c.ruleCurr + 1 ∧
        texts.length ≤ c.ruleCurr + 1 := by
      simp only [RuleCursor.append, hrule]
      by_cases hle : texts.length ≤ c.ruleCurr
      · rw [if_pos hle, List.length_append, List.length_singleton]
        omega
      · rw [if_neg hle]
        split at h <;> omega
    refine ⟨?_, by omega, by omega⟩
    rw [Fits, hlength.1]
    simp only [RuleCursor.next, hrule]
    split
    · rfl
    · exact (congrArg _ (if_pos (Nat.succ_pos _))).symm

/-! ## Building -/

/-- What a loop over some domains of a client does. -/
structure Establishes (rules added : List DomainRule) (st st' : Establishing) : Prop where
  holds : Holds (rules ++ added) st'.table
  length_infos : st'.table.matcherInfos.length = st.table.matcherInfos.length
  length_rules : st.rules.length ≤ st'.rules.length
  index_lt : ∀ r ∈ added, r.index < st'.rules.length

/-- The domains of a client are put into a table that has room. -/
theorem establish_spec (compile : Bytes → Except Error (Bytes → Bool))
    (originalRules : List OriginalRule) (clientIdx : ℕ) (domains : List PriorityDomain)
    {rules : List DomainRule} (st : Establishing) (hholds : Holds rules st.table)
    (hfits : st.cursor.Fits st.rules)
    (hroom : rules.length + domains.length < st.table.matcherInfos.length) :
    (∃ e, establish compile originalRules clientIdx domains st = .error e) ∨
      (domainRules compile originalRules clientIdx domains st.cursor).length = domains.length ∧
      ∃ st', establish compile originalRules clientIdx domains st = .ok st' ∧
        Establishes rules (domainRules compile originalRules clientIdx domains st.cursor) st st' := by
  induction domains generalizing rules st with
  | nil => exact .inr ⟨rfl, st, rfl, by rwa [domainRules, List.append_nil], rfl, le_rfl, nofun⟩
  | cons d domains ih =>
    rw [establish, domainRules]
    cases htoStr : toStrMatcher compile d with
    | error e => exact .inl ⟨_, rfl⟩
    | ok m =>
      obtain ⟨matcher, text⟩ := m
      rw [List.length_cons] at hroom
      obtain ⟨table, htable, hadded, hlength⟩ :=
        hholds.updateDomain ⟨clientIdx, st.cursor.ruleCurr, matcher⟩ (by omega)
      obtain ⟨hfits', hcurr, hle⟩ := hfits.next originalRules text
      dsimp only at htable ⊢
      rw [htable, Outcome.bind]
      rcases ih ⟨_, _, table⟩ hadded hfits'
        (by rw [List.length_append, List.length_singleton, hlength]; omega) with
        herror | ⟨hadd, st', hst', hestablishes⟩
      · exact .inl herror
      · refine .inr ⟨congrArg Nat.succ hadd, st', hst', ?_, hestablishes.length_infos.trans hlength,
          hle.trans hestablishes.length_rules, fun r hr => ?_⟩
        · rw [← List.singleton_append, ← List.append_assoc]
          exact hestablishes.holds
        · rcases List.mem_cons.1 hr with rfl | hr
          · exact hcurr.trans_le hestablishes.length_rules
          · exact hestablishes.index_lt r hr

namespace Environment

variable {E H S T : Type} (env : Environment E H S T)

/-- The server at an address is local. -/
def isLocalAt (endpoint : E) : Bool :=
  match env.newServer endpoint with
  | .ok server => env.isLocal server
  | _ => false

/-- The rules of a name server. -/
def rulesOf (ns : NameServer E) (client : ℕ) : List DomainRule :=
  domainRules env.compile (ns.forServer (env.isLocalAt ns.address)).originalRules client
    (ns.forServer (env.isLocalAt ns.address)).prioritizedDomain {}

/-- The rules of some name servers, from an index of the clients on. -/
def rulesFrom : List (NameServer E) → ℕ → List DomainRule
  | [], _ => []
  | ns :: nameServer, client => env.rulesOf ns client ++ rulesFrom nameServer (client + 1)

/-- The rules of a configuration, in the order in which they are added. -/
def rules (config : Config E H) : List DomainRule :=
  env.rulesFrom config.nameServer config.nameServers.length

end Environment

variable {E H S T : Type} {env : Environment E H S T}

/-- What is known of a client and of the table after it. -/
structure IsClient (env : Environment E H S T) (ns : NameServer E) (clientIdx : ℕ)
    (rules : List DomainRule) (table : DomainTable) (client : Client S) (table' : DomainTable) :
    Prop where
  holds : Holds (rules ++ env.rulesOf ns clientIdx) table'
  /-- As much room is left as before. -/
  room : (rules ++ env.rulesOf ns clientIdx).length + table.matcherInfos.length =
    rules.length + ns.prioritizedDomain.length + table'.matcherInfos.length
  skipFallback : client.skipFallback = ns.skipFallback
  index_lt : ∀ r ∈ env.rulesOf ns clientIdx, r.index < client.domains.length

theorem newClient_spec (ns : NameServer E) (clientIP : Bytes) (clientIdx : ℕ)
    {rules : List DomainRule} {table : DomainTable} (hholds : Holds rules table)
    (hroom : rules.length + ns.prioritizedDomain.length < table.matcherInfos.length) :
    (newClient env ns clientIP clientIdx table = .panic ∧ env.newServer ns.address = .panic) ∨
      (∃ e, newClient env ns clientIP clientIdx table = .error e) ∨
      ∃ client table', newClient env ns clientIP clientIdx table = .ok (client, table') ∧
        IsClient env ns clientIdx rules table client table' := by
  rw [newClient]
  cases hserver : env.newServer ns.address with
  | panic => exact .inl ⟨rfl, rfl⟩
  | error e => exact .inr (.inl ⟨_, rfl⟩)
  | ok server =>
    have hlocal : env.isLocalAt ns.address = env.isLocal server := by
      rw [Environment.isLocalAt, hserver]
    have hlength := length_forServer ns table (env.isLocal server)
    have hskip : (ns.forServer (env.isLocal server)).skipFallback = ns.skipFallback := by
      rw [NameServer.forServer]
      split <;> rfl
    dsimp only
    rcases establish_spec env.compile (ns.forServer (env.isLocal server)).originalRules clientIdx
        (ns.forServer (env.isLocal server)).prioritizedDomain
        { table := table.forServer (env.isLocal server) } (hholds.forServer _) rfl
        (by dsimp only; omega) with ⟨e, he⟩ | ⟨hadd, st', hst', hestablishes⟩
    · exact .inr (.inl ⟨e, by rw [he, Outcome.bind]⟩)
    · rw [hst', Outcome.bind]
      cases expectIPs [] (ns.forServer (env.isLocal server)).geoip with
      | error e => exact .inr (.inl ⟨e, rfl⟩)
      | ok ips =>
        rw [← hlocal] at hestablishes hadd hlength
        refine .inr (.inr ⟨_, _, rfl, hestablishes.holds, ?_, hskip, hestablishes.index_lt⟩)
        have hinfos := hestablishes.length_infos
        dsimp only at hinfos
        rw [List.length_append, Environment.rulesOf, hadd, hinfos]
        omega

/-- Each rule has a client, with a text for it. -/
def Owned (clients : List (Client S)) (rules : List DomainRule) : Prop :=
  ∀ r ∈ rules, ∃ client, clients[r.client]? = some client ∧ r.index < client.domains.length

theorem Owned.append {clients : List (Client S)} {rules added : List DomainRule}
    (h : Owned clients rules) (client : Client S)
    (hadded : ∀ r ∈ added, r.client = clients.length ∧ r.index < client.domains.length) :
    Owned (clients ++ [client]) (rules ++ added) := by
  intro r hr
  rcases List.mem_append.1 hr with hr | hr
  · obtain ⟨c, hc, hindex⟩ := h r hr
    exact ⟨c, (List.getElem?_append_left (List.getElem?_eq_some_iff.1 hc).1).trans hc, hindex⟩
  · obtain ⟨hclient, hindex⟩ := hadded r hr
    exact ⟨client, by rw [hclient, List.getElem?_concat_length], hindex⟩

theorem client_domainRules {compile : Bytes → Except Error (Bytes → Bool)}
    {originalRules : List OriginalRule} {client : ℕ} {domains : List PriorityDomain}
    {c : RuleCursor} {r : DomainRule}
    (h : r ∈ domainRules compile originalRules client domains c) : r.client = client := by
  induction domains generalizing c with
  | nil => cases h
  | cons d domains ih =>
    rw [domainRules] at h
    split at h
    · cases h
    · rcases List.mem_cons.1 h with rfl | h
      · rfl
      · exact ih h

/-- What is known of the clients and of the table once they are made, in the order of the name
    servers. -/
structure AreClients (env : Environment E H S T) (nameServer : List (NameServer E))
    (clients : List (Client S)) (rules : List DomainRule) (clients' : List (Client S))
    (table' : DomainTable) : Prop where
  holds : Holds (rules ++ env.rulesFrom nameServer clients.length) table'
  owned : Owned clients' (rules ++ env.rulesFrom nameServer clients.length)
  skipFallback : clients'.map (·.skipFallback) =
    clients.map (·.skipFallback) ++ nameServer.map (·.skipFallback)

theorem newClients_spec (clientIP : Bytes) (nameServer : List (NameServer E))
    {clients : List (Client S)} {rules : List DomainRule} {table : DomainTable}
    (hholds : Holds rules table) (howned : Owned clients rules)
    (hroom : rules.length + domainRuleCount nameServer < table.matcherInfos.length) :
    (newClients env clientIP nameServer clients table = .panic ∧
        ∃ ns ∈ nameServer, env.newServer ns.address = .panic) ∨
      (∃ e, newClients env clientIP nameServer clients table = .error e) ∨
      ∃ clients' table', newClients env clientIP nameServer clients table = .ok (clients', table') ∧
        AreClients env nameServer clients rules clients' table' := by
  induction nameServer generalizing clients rules table with
  | nil =>
    refine .inr (.inr ⟨clients, table, rfl, ?_, ?_, (List.append_nil _).symm⟩)
    · rwa [Environment.rulesFrom, List.append_nil]
    · rwa [Environment.rulesFrom, List.append_nil]
  | cons ns nameServer ih =>
    have hcount : domainRuleCount (ns :: nameServer) =
        ns.prioritizedDomain.length + domainRuleCount nameServer := by
      rw [domainRuleCount, List.map_cons, List.sum_cons]
      rfl
    rw [newClients]
    rcases @newClient_spec E H S T env ns
        (if ns.clientIp.length = 4 ∨ ns.clientIp.length = 16 then ns.clientIp else clientIP)
        clients.length rules table hholds (by omega) with
      ⟨hpanic, hserver⟩ | ⟨e, he⟩ | ⟨client, table', hok, hclient⟩
    · exact .inl ⟨by rw [hpanic], ns, List.mem_cons_self, hserver⟩
    · exact .inr (.inl ⟨failedClient, by rw [he]⟩)
    · rw [hok]
      have hadded : Owned (clients ++ [client]) (rules ++ env.rulesOf ns clients.length) :=
        howned.append client fun r hr => ⟨client_domainRules hr, hclient.index_lt r hr⟩
      have hroom' := hclient.room
      rcases ih hclient.holds hadded (by omega) with
        ⟨hpanic, ns', hmem, hserver⟩ | herror | ⟨clients', table'', hok', hclients⟩
      · exact .inl ⟨hpanic, ns', List.mem_cons_of_mem _ hmem, hserver⟩
      · exact .inr (.inl herror)
      · obtain ⟨hholds', howned', hskip⟩ := hclients
        rw [List.length_append, List.length_singleton, List.append_assoc] at hholds' howned'
        refine .inr (.inr ⟨clients', table'', hok', hholds', howned', ?_⟩)
        rw [hskip, List.map_append, List.map_singleton, hclient.skipFallback, List.append_assoc]
        rfl

theorem newSimpleClients_spec (clientIP : Bytes) (endpoints : List E) :
    (newSimpleClients env clientIP endpoints = .panic ∧ ∃ e ∈ endpoints, env.newServer e = .panic) ∨
      (∃ e, newSimpleClients env clientIP endpoints = .error e) ∨
      ∃ clients, newSimpleClients env clientIP endpoints = .ok clients ∧
        clients.map (·.skipFallback) = List.replicate endpoints.length false := by
  induction endpoints with
  | nil => exact .inr (.inr ⟨[], rfl, rfl⟩)
  | cons endpoint endpoints ih =>
    rw [newSimpleClients, newSimpleClient]
    cases hserver : env.newServer endpoint with
    | panic => exact .inl ⟨rfl, endpoint, List.mem_cons_self, hserver⟩
    | error e => exact .inr (.inl ⟨failedClient, rfl⟩)
    | ok server =>
      dsimp only
      rcases ih with ⟨hpanic, e, hmem, he⟩ | ⟨e, he⟩ | ⟨clients, hok, hskip⟩
      · exact .inl ⟨by rw [hpanic, Outcome.map], e, List.mem_cons_of_mem _ hmem, he⟩
      · exact .inr (.inl ⟨e, by rw [he, Outcome.map]⟩)
      · refine .inr (.inr ⟨_, by rw [hok, Outcome.map], ?_⟩)
        rw [List.map_cons, hskip, List.length_cons, List.replicate_succ]

/-- Which of the clients are left out of the fallback. There is one client at least. -/
def Config.skipFlags (config : Config E H) : List Bool :=
  let flags :=
    List.replicate config.nameServers.length false ++ config.nameServer.map (·.skipFallback)
  if flags.isEmpty then [false] else flags

/-- What is known of the clients of a configuration. -/
structure IsBuilt (env : Environment E H S T) (config : Config E H) (d : DNS S T) : Prop where
  domainMatcher : d.domainMatcher = (MatcherGroup.addAll ((env.rules config).map (·.matcher)) {}).2
  matcherInfos : (env.rules config).length < 2 ^ 32 → ∀ (i : ℕ) (r : DomainRule),
    (env.rules config)[i]? = some r → d.matcherInfos[i + 1]? = some r.info
  owned : Owned d.clients (env.rules config)
  skipFlags : d.clients.map (·.skipFallback) = config.skipFlags
  disableFallback : d.disableFallback = config.disableFallback

/-- One of the services panics that a configuration needs. -/
def Environment.Panics (env : Environment E H S T) (config : Config E H) : Prop :=
  env.newStaticHosts config.hosts = .panic ∨ (∃ e ∈ config.nameServers, env.newServer e = .panic) ∨
    ∃ ns ∈ config.nameServer, env.newServer ns.address = .panic

/-- The clients that were made, or the local one if there are none. -/
theorem isBuilt_of_areClients {config : Config E H} {simple clients : List (Client S)}
    {table : DomainTable} {d : DNS S T}
    (hflags : simple.map (·.skipFallback) = List.replicate config.nameServers.length false)
    (h : AreClients env config.nameServer simple [] clients table)
    (hclients : d.clients = if clients.isEmpty then [{ server := env.newLocalNameServer }]
      else clients)
    (hmatcher : d.domainMatcher = table.domainMatcher)
    (hinfos : d.matcherInfos = table.matcherInfos)
    (hfallback : d.disableFallback = config.disableFallback) : IsBuilt env config d := by
  obtain ⟨hholds, howned, hskip⟩ := h
  have hlength : simple.length = config.nameServers.length := by
    rw [← List.length_map (·.skipFallback), hflags, List.length_replicate]
  rw [List.nil_append, hlength] at hholds howned
  rw [hflags] at hskip
  have hempty : clients.isEmpty = (List.replicate config.nameServers.length false ++
      config.nameServer.map (·.skipFallback)).isEmpty := by
    rw [← hskip, List.isEmpty_map]
  refine ⟨hmatcher ▸ hholds.domainMatcher, hinfos ▸ hholds.matcherInfos, ?_, ?_, hfallback⟩
  · -- If there is no client, then there is no rule.
    intro r hr
    obtain ⟨client, hclient, hindex⟩ := howned r hr
    refine ⟨client, ?_, hindex⟩
    rw [hclients]
    cases clients with
    | nil => cases hclient
    | cons c clients => exact hclient
  · rw [hclients, Config.skipFlags, ← hempty, ← hskip]
    split <;> rfl

/-- All indexes are in range while the clients are made, and the table is right after it. -/
theorem new_spec (env : Environment E H S T) (config : Config E H) :
    (new env config = .panic ∧ env.Panics config) ∨ (∃ e, new env config = .error e) ∨
      ∃ d, new env config = .ok d ∧ IsBuilt env config d := by
  rw [new]
  dsimp only
  split
  · exact .inr (.inl ⟨_, rfl⟩)
  · cases hhosts : env.newStaticHosts config.hosts with
    | panic => exact .inl ⟨rfl, .inl hhosts⟩
    | error e => exact .inr (.inl ⟨_, rfl⟩)
    | ok hosts =>
      dsimp only
      rcases @newSimpleClients_spec E H S T env config.clientIp config.nameServers with
        ⟨hpanic, hserver⟩ | ⟨e, he⟩ | ⟨simple, hsimple, hflags⟩
      · exact .inl ⟨by rw [hpanic, Outcome.bind], .inr (.inl hserver)⟩
      · exact .inr (.inl ⟨e, by rw [he, Outcome.bind]⟩)
      · rw [hsimple, Outcome.bind]
        have hroom : ([] : List DomainRule).length + domainRuleCount config.nameServer <
            (List.replicate (domainRuleCount config.nameServer + 1)
              ({} : DomainMatcherInfo)).length := by
          rw [List.length_nil, Nat.zero_add, List.length_replicate]
          exact Nat.lt_succ_self _
        rcases @newClients_spec E H S T env config.clientIp config.nameServer simple [] _
            (holds_nil (domainRuleCount config.nameServer + 1))
            (fun r hr => absurd hr List.not_mem_nil) hroom with
          ⟨hpanic, hserver⟩ | ⟨e, he⟩ | ⟨clients, table, hok, hclients⟩
        · exact .inl ⟨by rw [hpanic, Outcome.map], .inr (.inr hserver)⟩
        · exact .inr (.inl ⟨e, by rw [he, Outcome.map]⟩)
        · rw [hok, Outcome.map]
          exact .inr (.inr ⟨_, rfl, isBuilt_of_areClients hflags hclients rfl rfl rfl rfl⟩)

theorem panics_of_new {config : Config E H} (h : new env config = .panic) : env.Panics config := by
  rcases new_spec env config with ⟨-, hpanics⟩ | ⟨e, he⟩ | ⟨d, hd, -⟩
  · exact hpanics
  · rw [h] at he
    cases he
  · rw [h] at hd
    cases hd

theorem isBuilt_of_new {config : Config E H} {d : DNS S T} (h : new env config = .ok d) :
    IsBuilt env config d := by
  rcases new_spec env config with ⟨hpanic, -⟩ | ⟨e, he⟩ | ⟨d', hd', hbuilt⟩
  · rw [h] at hpanic
    cases hpanic
  · rw [h] at he
    cases he
  · rw [h] at hd'
    cases hd'
    exact hbuilt

end Gzv2ray.Dns
