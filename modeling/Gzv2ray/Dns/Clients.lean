import Gzv2ray.Dns.QueryIP
import Gzv2ray.Router.DomainMatcher
import Gzv2ray.Router.GeoIP

/-!
# DNS clients

A configuration has some name servers, each with the domains that it is preferred for. There is a
client for each, and one matcher for the domains of all: what it tells of is looked up in a table,
which has the indexes of a client and of one of its rules.

* `newClient`: the client of a name server, with its domains put into the table;
* `new`: all clients of a configuration;
* `DNS.sortClients`: the clients that are asked for a domain, in order.

The services that are not modelled are a parameter (`Environment`). The dispatcher of the instance
is there from the beginning, so that a callback that requires it is called at once. A client is
where it is stored: its index stands for it.
-/

namespace Gzv2ray.Dns

open Strmatcher

/-! ## Configurations -/

inductive DomainMatchingType
  | full
  | subdomain
  | keyword
  | regex
  | other (n : ℤ)
  deriving DecidableEq

inductive QueryStrategy
  | useIP
  | useIP4
  | useIP6
  | other (n : ℤ)
  deriving DecidableEq

/-- `NameServer_PriorityDomain` -/
structure PriorityDomain where
  type : DomainMatchingType
  domain : Bytes

/-- `NameServer_OriginalRule`: a rule, and how many domains it stands for. -/
structure OriginalRule where
  rule : Bytes
  size : UInt32

structure GeoIP where
  countryCode : Bytes
  cidr : List Router.CIDR
  reverseMatch : Bool

structure NameServer (E : Type) where
  address : E
  clientIp : Bytes := []
  skipFallback : Bool := false
  prioritizedDomain : List PriorityDomain := []
  geoip : List GeoIP := []
  originalRules : List OriginalRule := []

/-- A configuration, with endpoints and static hosts of some types. -/
structure Config (E H : Type) where
  /-- The name servers that have nothing but an address. -/
  nameServers : List E := []
  nameServer : List (NameServer E) := []
  hosts : H
  clientIp : Bytes := []
  tag : Bytes := []
  queryStrategy : QueryStrategy := .useIP
  disableCache : Bool := false
  disableFallback : Bool := false

def localTLDsAndDotlessDomains : List PriorityDomain :=
  [⟨.regex, ascii "^[^.]+$"⟩, ⟨.subdomain, ascii "local"⟩, ⟨.subdomain, ascii "localdomain"⟩,
    ⟨.subdomain, ascii "localhost"⟩, ⟨.subdomain, ascii "lan"⟩, ⟨.subdomain, ascii "home.arpa"⟩,
    ⟨.subdomain, ascii "example"⟩, ⟨.subdomain, ascii "invalid"⟩, ⟨.subdomain, ascii "test"⟩]

def localTLDsAndDotlessDomainsRule : OriginalRule :=
  ⟨ascii "geosite:private", .ofNat localTLDsAndDotlessDomains.length⟩

/-- The services that make name servers and static hosts of addresses and of mappings. -/
structure Environment (E H S T : Type) where
  /-- `regexp.Compile` -/
  compile : Bytes → Except Error (Bytes → Bool)
  newServer : E → Outcome S
  /-- The server is a `LocalNameServer`. -/
  isLocal : S → Bool
  newLocalNameServer : S
  newStaticHosts : H → Outcome T
  generateRandomTag : Bytes

/-! ## Matchers -/

def typeMap : DomainMatchingType → Option MatcherType
  | .full => some .full
  | .subdomain => some .domain
  | .keyword => some .substr
  | .regex => some .regex
  | .other _ => none

/-- `Matcher.String`, for the matcher of a pattern. -/
def matcherText (t : MatcherType) (pattern : Bytes) : Bytes :=
  (match t with
    | .full => ascii "full:"
    | .substr => ascii "keyword:"
    | .domain => ascii "domain:"
    | .regex => ascii "regexp:") ++ pattern

/-- A matcher, and its text. -/
def toStrMatcher (compile : Bytes → Except Error (Bytes → Bool)) (d : PriorityDomain) :
    Except Error (Matcher × Bytes) :=
  match typeMap d.type with
  | none => .error (.new (ascii "unknown mapping type"))
  | some strMType =>
    match Router.newMatcher compile strMType d.domain with
    | .error _ => .error (.new (ascii "failed to create str matcher"))
    | .ok matcher => .ok (matcher, matcherText strMType d.domain)

structure DomainMatcherInfo where
  clientIdx : UInt16 := 0
  domainRuleIdx : UInt16 := 0
  deriving DecidableEq

/-- The matcher of all domains, and the table for what it tells of. -/
structure DomainTable where
  domainMatcher : MatcherGroup := {}
  matcherInfos : List DomainMatcherInfo

def DomainTable.updateDomain (t : DomainTable) (clientIdx : ℕ) (domainRule : Matcher)
    (originalRuleIdx : ℕ) : Outcome DomainTable :=
  let midx := (t.domainMatcher.add domainRule).1.toNat
  if midx < t.matcherInfos.length then
    .ok ⟨(t.domainMatcher.add domainRule).2,
      t.matcherInfos.set midx ⟨.ofNat clientIdx, .ofNat originalRuleIdx⟩⟩
  else .panic

/-! ## Clients -/

structure Client (S : Type) where
  server : S
  clientIP : Bytes := []
  skipFallback : Bool := false
  domains : List Bytes := []
  expectIPs : List Router.GeoIPMatcher := []

/-- The original rule that is used, and for how many domains it has been. -/
structure RuleCursor where
  ruleCurr : ℕ := 0
  ruleIter : ℕ := 0

namespace RuleCursor

variable (c : RuleCursor) (originalRules : List OriginalRule)

/-- The cursor after a domain. -/
def next : RuleCursor :=
  match originalRules[c.ruleCurr]? with
  | some rule =>
    if rule.size.toNat ≤ c.ruleIter + 1 then { ruleCurr := c.ruleCurr + 1, ruleIter := 0 }
    else { c with ruleIter := c.ruleIter + 1 }
  | none => { c with ruleCurr := c.ruleCurr + 1 }

/-- The rules after a domain. Where there is no original rule, the text of the matcher is one. -/
def append (text : Bytes) (rules : List Bytes) : List Bytes :=
  match originalRules[c.ruleCurr]? with
  | some rule => if rules.length ≤ c.ruleCurr then rules ++ [rule.rule] else rules
  | none => rules ++ [text]

end RuleCursor

/-- What is known while the domain rules of a client are established. -/
structure Establishing where
  rules : List Bytes := []
  cursor : RuleCursor := {}
  table : DomainTable

def failedDomain : Error := newError "app/dns" "failed to create prioritized domain"

/-- The loop over the domains of a name server. -/
def establish (compile : Bytes → Except Error (Bytes → Bool)) (originalRules : List OriginalRule)
    (clientIdx : ℕ) : List PriorityDomain → Establishing → Outcome Establishing
  | [], st => .ok st
  | d :: domains, st =>
    match toStrMatcher compile d with
    | .error e => .error (failedDomain.base e)
    | .ok (domainRule, text) =>
      (st.table.updateDomain clientIdx domainRule st.cursor.ruleCurr).bind fun table =>
        establish compile originalRules clientIdx domains
          { rules := st.cursor.append originalRules text st.rules
            cursor := st.cursor.next originalRules
            table }

/-- `GeoIPMatcherContainer.Add`. A matcher is kept with its country code. -/
def addGeoIP (container : List (Bytes × Router.GeoIPMatcher)) (geoip : GeoIP) :
    Except Error (Router.GeoIPMatcher × List (Bytes × Router.GeoIPMatcher)) :=
  match container.find? fun m =>
      geoip.countryCode.length > 0 && m.1 == geoip.countryCode &&
        m.2.reverseMatch == geoip.reverseMatch with
  | some m => .ok (m.2, container)
  | none =>
    match Router.GeoIPMatcher.init { reverseMatch := geoip.reverseMatch } geoip.cidr with
    | .error e => .error e
    | .ok m =>
      .ok (m, if geoip.countryCode.length > 0 then container ++ [(geoip.countryCode, m)]
        else container)

/-- The loop over the addresses that are expected. -/
def expectIPs (container : List (Bytes × Router.GeoIPMatcher)) :
    List GeoIP → Except Error (List Router.GeoIPMatcher)
  | [] => .ok []
  | geoip :: geoips =>
    match addGeoIP container geoip with
    | .error e => .error ((newError "app/dns" "failed to create ip matcher").base e)
    | .ok (m, container) => (expectIPs container geoips).map (m :: ·)

/-- The name server of a client, with the local domains if its server is local. -/
def NameServer.forServer {E : Type} (ns : NameServer E) (isLocal : Bool) : NameServer E :=
  if isLocal then
    { ns with
      prioritizedDomain := ns.prioritizedDomain ++ localTLDsAndDotlessDomains
      originalRules := ns.originalRules ++ [localTLDsAndDotlessDomainsRule] }
  else ns

/-- The table of a client, with room for the local domains if its server is local. -/
def DomainTable.forServer (t : DomainTable) (isLocal : Bool) : DomainTable :=
  if isLocal then
    { t with
      matcherInfos := t.matcherInfos ++ List.replicate localTLDsAndDotlessDomains.length {} }
  else t

section

variable {E H S T : Type} (env : Environment E H S T)

def failedNameserver : Error := newError "app/dns" "failed to create nameserver"

def newClient (ns : NameServer E) (clientIP : Bytes) (clientIdx : ℕ) (table : DomainTable) :
    Outcome (Client S × DomainTable) :=
  match env.newServer ns.address with
  | .panic => .panic
  | .error e => .error (failedNameserver.base e)
  | .ok server =>
    let ns := ns.forServer (env.isLocal server)
    let table := table.forServer (env.isLocal server)
    (establish env.compile ns.originalRules clientIdx ns.prioritizedDomain { table }).bind fun st =>
      match expectIPs [] ns.geoip with
      | .error e => .error e
      | .ok expectIPs =>
        .ok ({ server, clientIP, skipFallback := ns.skipFallback, domains := st.rules, expectIPs },
          st.table)

def newSimpleClient (endpoint : E) (clientIP : Bytes) : Outcome (Client S) :=
  match env.newServer endpoint with
  | .panic => .panic
  | .error e => .error (failedNameserver.base e)
  | .ok server => .ok { server, clientIP }

def failedClient : Error := .new (ascii "failed to create client")

/-- The loop over the endpoints. -/
def newSimpleClients (clientIP : Bytes) : List E → Outcome (List (Client S))
  | [] => .ok []
  | endpoint :: endpoints =>
    match newSimpleClient env endpoint clientIP with
    | .panic => .panic
    | .error _ => .error failedClient
    | .ok client => (newSimpleClients clientIP endpoints).map (client :: ·)

/-- The loop over the name servers, with the clients so far. -/
def newClients (clientIP : Bytes) : List (NameServer E) → List (Client S) → DomainTable →
    Outcome (List (Client S) × DomainTable)
  | [], clients, table => .ok (clients, table)
  | ns :: nameServer, clients, table =>
    let myClientIP :=
      if ns.clientIp.length = 4 ∨ ns.clientIp.length = 16 then ns.clientIp else clientIP
    match newClient env ns myClientIP clients.length table with
    | .panic => .panic
    | .error _ => .error failedClient
    | .ok (client, table) => newClients clientIP nameServer (clients ++ [client]) table

structure DNS (S T : Type) where
  tag : Bytes
  disableCache : Bool
  disableFallback : Bool
  ipOption : Option IPOption
  hosts : T
  clients : List (Client S)
  domainMatcher : MatcherGroup
  matcherInfos : List DomainMatcherInfo

/-- The option of a strategy. Fake addresses are not enabled. -/
def QueryStrategy.ipOption : QueryStrategy → Option IPOption
  | .useIP => some ⟨true, true⟩
  | .useIP4 => some ⟨true, false⟩
  | .useIP6 => some ⟨false, true⟩
  | .other _ => none

def domainRuleCount (nameServer : List (NameServer E)) : ℕ :=
  (nameServer.map fun ns => ns.prioritizedDomain.length).sum

def new (config : Config E H) : Outcome (DNS S T) :=
  let clientIP := config.clientIp
  if clientIP.length ≠ 0 ∧ clientIP.length ≠ 4 ∧ clientIP.length ≠ 16 then
    .error (.new (ascii "unexpected client IP length"))
  else
    match env.newStaticHosts config.hosts with
    | .panic => .panic
    | .error _ => .error (.new (ascii "failed to create hosts"))
    | .ok hosts =>
      (newSimpleClients env clientIP config.nameServers).bind fun clients =>
        (newClients env clientIP config.nameServer clients
          { matcherInfos := List.replicate (domainRuleCount config.nameServer + 1) {} }).map
          fun (clients, table) =>
            { tag := if config.tag.length > 0 then config.tag else env.generateRandomTag
              disableCache := config.disableCache
              disableFallback := config.disableFallback
              ipOption := config.queryStrategy.ipOption
              hosts
              clients := if clients.isEmpty then [{ server := env.newLocalNameServer }] else clients
              domainMatcher := table.domainMatcher
              matcherInfos := table.matcherInfos }

end

/-! ## The order of the clients -/

/-- The clients that are to be asked so far, and which are used. -/
structure Sorting where
  clients : List ℕ := []
  clientUsed : List Bool

def Sorting.use (st : Sorting) (idx : ℕ) : Sorting where
  clients := st.clients ++ [idx]
  clientUsed := st.clientUsed.set idx true

namespace DNS

variable {S T : Type} (s : DNS S T)

/-- The loop over what the matcher tells of. The text of the rule is printed. -/
def priorityMatching : List UInt32 → Sorting → Outcome Sorting
  | [], st => .ok st
  | midx :: ids, st =>
    match s.matcherInfos[midx.toNat]? with
    | none => .panic
    | some info =>
      match s.clients[info.clientIdx.toNat]? with
      | none => .panic
      | some client =>
        match client.domains[info.domainRuleIdx.toNat]? with
        | none => .panic
        | some _ =>
          match st.clientUsed[info.clientIdx.toNat]? with
          | none => .panic
          | some true => priorityMatching ids st
          | some false => priorityMatching ids (st.use info.clientIdx.toNat)

/-- The loop over the clients, from an index on. -/
def fallback : ℕ → List (Client S) → Sorting → Outcome Sorting
  | _, [], st => .ok st
  | idx, client :: clients, st =>
    match st.clientUsed[idx]? with
    | none => .panic
    | some used =>
      fallback (idx + 1) clients (if used || client.skipFallback then st else st.use idx)

def sortClients (domain : Bytes) : Outcome (List ℕ) :=
  (s.priorityMatching (s.domainMatcher.matchIds domain)
    { clientUsed := List.replicate s.clients.length false }).bind fun st =>
    (if s.disableFallback then .ok st else fallback 0 s.clients st).bind fun st =>
      if st.clients.length = 0 then
        match s.clients with
        | [] => .panic
        | _ :: _ => .ok [0]
      else .ok st.clients

end DNS

end Gzv2ray.Dns
