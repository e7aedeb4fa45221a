import Gzv2ray.Conf.Port
import Gzv2ray.Dns.Clients

/-!
# Conditions of routing rules

A condition is applied to what is known of a connection. Only one of them, on the addresses of
the target, may have a domain resolved: its context asks a DNS client, and keeps the addresses
that it gets.

* `Context.getTargetIPs`: the addresses of the target, resolved if need be;
* `Condition.apply`, `applyAll`: a condition, and all conditions of a rule;
* `buildCondition`: the conditions of a rule of the configuration;
* `Condition.holds`: a condition of addresses that are known (`Condition.apply_eq`).

The addresses of a context change once at most: they are those of the answers that the client has
given, of which only the last one has any (`Context.IsKept`).

The programs of attributes are compiled by a package that is not modelled (`compileAttributes`),
and the hybrid matcher of some domains is taken from `newMphMatcherGroup`, whose search for
seeds need not end.
-/

namespace Gzv2ray.Router

/-! ## Contexts -/

/-- The number of a network. -/
def networkNumber : Network → ℕ
  | .unknown => 0
  | .rawTCP => 1
  | .tcp => 2
  | .udp => 3
  | .unix => 4

/-- A DNS client, with states of some type. What it does not implement is `none`. -/
structure DnsClient (σ : Type) where
  lookupIP : σ → Bytes → Except Error (List Bytes) × σ
  lookupIPv4 : Option (σ → Bytes → Except Error (List Bytes) × σ) := none
  lookupIPv6 : Option (σ → Bytes → Except Error (List Bytes) × σ) := none
  getIPOption : Option (σ → Dns.IPOption) := none
  setFakeDNSOption : Bool → σ → σ := fun _ s => s

variable {σ : Type}

/-- The client is asked for the families that it is set to, and does not make addresses up. -/
def DnsClient.lookup (c : DnsClient σ) (s : σ) (domain : Bytes) : Except Error (List Bytes) × σ :=
  let (ipOption, s) :=
    match c.getIPOption with
    | some getIPOption => (getIPOption s, c.setFakeDNSOption false s)
    | none => (⟨true, true⟩, s)
  let lookupFunc :=
    if ipOption.ipv4Enable && !ipOption.ipv6Enable then c.lookupIPv4.getD c.lookupIP
    else if !ipOption.ipv4Enable && ipOption.ipv6Enable then c.lookupIPv6.getD c.lookupIP
    else c.lookupIP
  lookupFunc s domain

/-- `routing.Context`: what is known of a connection. -/
structure RoutingContext where
  inboundTag : Bytes := []
  sourceIPs : List Bytes := []
  sourcePort : UInt16 := 0
  targetIPs : List Bytes := []
  targetPort : UInt16 := 0
  targetDomain : Bytes := []
  network : Network := .unknown
  protocol : Bytes := []
  user : Bytes := []
  attributes : Option (List (Bytes × Bytes)) := none
  skipDNSResolve : Bool := false

/-- `ResolvableContext`: the client, and the addresses that it has resolved. -/
structure Resolving (σ : Type) where
  client : σ
  resolvedIPs : List Bytes := []
  /-- The answers of the client so far, on which nothing depends. -/
  answers : List (Except Error (List Bytes)) := []

/-- A context, which may resolve domains. -/
structure Context (σ : Type) where
  base : RoutingContext
  resolving : Option (Resolving σ) := none

/-- `ContextWithDNSClient` -/
def contextWithDNSClient (ctx : RoutingContext) (client : σ) : Context σ :=
  { base := ctx, resolving := some { client } }

namespace Context

variable (c : DnsClient σ) (ctx : Context σ)

def getTargetIPs : List Bytes × Context σ :=
  match ctx.resolving with
  | none => (ctx.base.targetIPs, ctx)
  | some r =>
    if ctx.base.targetIPs.length ≠ 0 then (ctx.base.targetIPs, ctx)
    else if r.resolvedIPs.length > 0 then (r.resolvedIPs, ctx)
    else if ctx.base.targetDomain.length ≠ 0 then
      match c.lookup r.client ctx.base.targetDomain with
      | (.ok ips, client) =>
        (ips, ⟨ctx.base, some
          { client, resolvedIPs := ips, answers := r.answers ++ [.ok ips] }⟩)
      | (.error e, client) =>
        ([], ⟨ctx.base, some { r with client, answers := r.answers ++ [.error e] }⟩)
    else ([], ctx)

/-- The addresses that are known without asking. -/
def knownIPs : List Bytes :=
  if ctx.base.targetIPs = [] then (ctx.resolving.map Resolving.resolvedIPs).getD []
  else ctx.base.targetIPs

/-- The addresses that an answer gives. -/
def answeredIPs : Except Error (List Bytes) → List Bytes
  | .ok ips => ips
  | .error _ => []

/-- The client is asked for domains alone, and no more once it has given addresses. These are
    kept. -/
structure IsKept : Prop where
  asked : ∀ r ∈ ctx.resolving, r.answers ≠ [] →
    ctx.base.targetIPs = [] ∧ ctx.base.targetDomain ≠ []
  unanswered : ∀ r ∈ ctx.resolving, ∀ a ∈ r.answers.dropLast, answeredIPs a = []
  kept : ∀ r ∈ ctx.resolving, r.resolvedIPs = (r.answers.getLast?.map answeredIPs).getD []

end Context

/-! ## Conditions -/

/-- The program of `AttributeMatcher`, as the attributes that satisfy it. -/
abbrev AttributeProgram := List (Bytes × Bytes) → Bool

inductive Condition
  | domain (matchers : IndexMatcher)
  | user (users : List Bytes)
  | inboundTag (tags : List Bytes)
  | port (list : Conf.MemoryPortList) (onSource : Bool)
  /-- Whether each network matches, by its number. -/
  | network (list : List Bool)
  | geoIP (matchers : List GeoIPMatcher) (onSource : Bool)
  | protocol (protocols : List Bytes)
  | attribute (program : AttributeProgram)

/-- Some matcher matches some address. -/
def matchIPs (matchers : List GeoIPMatcher) (ips : List Bytes) : Bool :=
  ips.any fun ip => matchers.any fun m => m.matchIP ip

section

variable (toLower : Bytes → Bytes)

/-- Whether the condition holds of the addresses that the target is known to have. -/
def Condition.holds (ctx : RoutingContext) (targetIPs : List Bytes) : Condition → Outcome Bool
  | .domain matchers =>
    if ctx.targetDomain.length = 0 then .ok false else applyDomain toLower matchers ctx.targetDomain
  | .user users => .ok (if ctx.user.length = 0 then false else users.any (· == ctx.user))
  | .inboundTag tags =>
    .ok (if ctx.inboundTag.length = 0 then false else tags.any (· == ctx.inboundTag))
  | .port list onSource =>
    .ok (if onSource then list.contains ctx.sourcePort else list.contains ctx.targetPort)
  | .network list =>
    match list[networkNumber ctx.network]? with
    | some b => .ok b
    | none => .panic
  | .geoIP matchers onSource =>
    .ok (if onSource then matchIPs matchers ctx.sourceIPs else matchIPs matchers targetIPs)
  | .protocol protocols =>
    .ok (if ctx.protocol.length = 0 then false else protocols.any (·.isPrefixOf ctx.protocol))
  | .attribute program =>
    .ok (match ctx.attributes with
      | none => false
      | some attributes => program attributes)

/-- `Apply`. The addresses of the target are asked for by the condition on them alone. -/
def Condition.apply (c : DnsClient σ) (ctx : Context σ) (cond : Condition) :
    Outcome (Bool × Context σ) :=
  match cond with
  | .geoIP _ false =>
    let (ips, ctx) := ctx.getTargetIPs c
    (cond.holds toLower ctx.base ips).map fun b => (b, ctx)
  | _ => (cond.holds toLower ctx.base []).map fun b => (b, ctx)

/-- `ConditionChan.Apply` -/
def applyAll (c : DnsClient σ) : List Condition → Context σ → Outcome (Bool × Context σ)
  | [], ctx => .ok (true, ctx)
  | cond :: conds, ctx =>
    (cond.apply toLower c ctx).bind fun (b, ctx) =>
      if b then applyAll c conds ctx else .ok (false, ctx)

/-- Whether all conditions hold of the addresses that the target is known to have. Those that
    come after one that does not are not looked at. -/
def holdAll (ctx : RoutingContext) (targetIPs : List Bytes) : List Condition → Outcome Bool
  | [] => .ok true
  | cond :: conds =>
    (cond.holds toLower ctx targetIPs).bind fun b =>
      if b then holdAll ctx targetIPs conds else .ok false

end

/-! ## Addresses that are asked for -/

/-- The condition is on the addresses of the target. -/
def Condition.IsOnTarget : Condition → Prop
  | .geoIP _ false => True
  | _ => False

section

variable {toLower : Bytes → Bytes}

/-- No other condition depends on the addresses of the target. -/
theorem Condition.holds_of_not_isOnTarget {cond : Condition} (h : ¬ cond.IsOnTarget)
    (ctx : RoutingContext) (ips ips' : List Bytes) :
    cond.holds toLower ctx ips = cond.holds toLower ctx ips' := by
  rcases cond with _ | _ | _ | _ | _ | ⟨matchers, onSource⟩ | _ | _
  case geoIP =>
    rcases onSource with - | -
    · exact absurd trivial h
    · rfl
  all_goals rfl

theorem Condition.apply_of_not_isOnTarget {cond : Condition} (h : ¬ cond.IsOnTarget)
    (c : DnsClient σ) (ctx : Context σ) (ips : List Bytes) :
    cond.apply toLower c ctx = (cond.holds toLower ctx.base ips).map fun b => (b, ctx) := by
  rw [cond.holds_of_not_isOnTarget h ctx.base ips []]
  rcases cond with _ | _ | _ | _ | _ | ⟨matchers, onSource⟩ | _ | _
  case geoIP =>
    rcases onSource with - | -
    · exact absurd trivial h
    · rfl
  all_goals rfl

theorem Condition.apply_of_isOnTarget {cond : Condition} (h : cond.IsOnTarget)
    (c : DnsClient σ) (ctx : Context σ) :
    cond.apply toLower c ctx =
      (cond.holds toLower ctx.base (ctx.getTargetIPs c).1).map fun b => (b, (ctx.getTargetIPs c).2) := by
  rcases cond with _ | _ | _ | _ | _ | ⟨matchers, onSource⟩ | _ | _
  case geoIP =>
    rcases onSource with - | -
    · -- the context that is asked keeps what is known of the connection
      have hbase : (ctx.getTargetIPs c).2.base = ctx.base := by
        rw [Context.getTargetIPs]
        grind
      rw [Condition.apply]
      generalize ctx.getTargetIPs c = t at hbase ⊢
      obtain ⟨ips, ctx'⟩ := t
      dsimp only at hbase ⊢
      rw [hbase]
    · exact absurd h id
  all_goals exact absurd h id

/-- A condition on the addresses of the target fails where there is none. -/
theorem Condition.holds_nil_of_isOnTarget {cond : Condition} (h : cond.IsOnTarget)
    (ctx : RoutingContext) : cond.holds toLower ctx [] = .ok false := by
  rcases cond with _ | _ | _ | _ | _ | ⟨matchers, onSource⟩ | _ | _
  case geoIP =>
    rcases onSource with - | -
    · rfl
    · exact absurd h id
  all_goals exact absurd h id

end

namespace Context

variable {c : DnsClient σ} {ctx ctx' : Context σ}

/-- The context comes from another one by asking for addresses, which is not done once there are
    some. -/
structure Extends (ctx ctx' : Context σ) : Prop where
  base : ctx'.base = ctx.base
  resolves : ctx'.resolving.isSome = ctx.resolving.isSome
  isKept : ctx.IsKept → ctx'.IsKept
  known : ctx.knownIPs ≠ [] → ctx' = ctx

theorem Extends.refl (ctx : Context σ) : ctx.Extends ctx := ⟨rfl, rfl, id, fun _ => rfl⟩

theorem Extends.trans {ctx'' : Context σ} (h : ctx.Extends ctx') (h' : ctx'.Extends ctx'') :
    ctx.Extends ctx'' where
  base := h'.base.trans h.base
  resolves := h'.resolves.trans h.resolves
  isKept := h'.isKept ∘ h.isKept
  known hknown := by
    have heq := h.known hknown
    exact (h'.known (heq ▸ hknown)).trans heq

/-- A context that has not asked yet. -/
theorem isKept_start (ctx : RoutingContext) (client : σ) : (contextWithDNSClient ctx client).IsKept where
  asked r hr hne := by
    obtain rfl := Option.some.inj hr
    exact absurd rfl hne
  unanswered r hr a ha := by
    obtain rfl := Option.some.inj hr
    exact absurd ha List.not_mem_nil
  kept r hr := by
    obtain rfl := Option.some.inj hr
    rfl

/-- An answer more is kept, as none before it had addresses. -/
theorem IsKept.ask {r : Resolving σ} (h : ctx.IsKept) (hr : ctx.resolving = some r)
    (hips : ctx.base.targetIPs = []) (hdomain : ctx.base.targetDomain ≠ [])
    (hresolved : r.resolvedIPs = []) (client : σ) (a : Except Error (List Bytes)) :
    IsKept ⟨ctx.base, some ⟨client, answeredIPs a, r.answers ++ [a]⟩⟩ where
  asked r' hr' _ := ⟨hips, hdomain⟩
  unanswered r' hr' b hb := by
    obtain rfl := Option.some.inj hr'
    rw [List.dropLast_concat] at hb
    -- the last of the answers before had no addresses either, as none are kept
    have hlast := h.kept r hr
    rw [hresolved] at hlast
    by_cases hne : r.answers = []
    · rw [hne] at hb
      exact absurd hb List.not_mem_nil
    · rw [List.getLast?_eq_getLast_of_ne_nil hne, Option.map_some, Option.getD_some] at hlast
      rw [← List.dropLast_append_getLast hne, List.mem_append, List.mem_singleton] at hb
      rcases hb with hb | rfl
      · exact h.unanswered r hr b hb
      · exact hlast.symm
  kept r' hr' := by
    obtain rfl := Option.some.inj hr'
    rw [List.getLast?_concat]
    rfl

/-- What is returned are the addresses that are known after it. -/
theorem getTargetIPs_spec (c : DnsClient σ) (ctx : Context σ) :
    ctx.Extends (ctx.getTargetIPs c).2 ∧ (ctx.getTargetIPs c).1 = (ctx.getTargetIPs c).2.knownIPs := by
  rcases hr : ctx.resolving with - | r
  · have hget : ctx.getTargetIPs c = (ctx.base.targetIPs, ctx) := by rw [getTargetIPs, hr]
    rw [hget]
    refine ⟨.refl ctx, ?_⟩
    rw [knownIPs, hr]
    split_ifs with hips
    · exact hips
    · rfl
  · -- The addresses of the target come first, then those resolved before, then the client's.
    rw [getTargetIPs, hr]
    dsimp only
    split_ifs with hips hresolved hdomain
    · rw [ne_eq, List.length_eq_zero_iff] at hips
      exact ⟨.refl ctx, by rw [knownIPs, if_neg hips]⟩
    · rw [ne_eq, not_not, List.length_eq_zero_iff] at hips
      refine ⟨.refl ctx, ?_⟩
      rw [knownIPs, if_pos hips, hr]
      rfl
    · rw [ne_eq, not_not, List.length_eq_zero_iff] at hips
      rw [not_lt, Nat.le_zero, List.length_eq_zero_iff] at hresolved
      rw [ne_eq, List.length_eq_zero_iff] at hdomain
      have hknown : ctx.knownIPs = [] := by
        rw [knownIPs, if_pos hips, hr]
        exact hresolved
      have hresolves : ctx.resolving.isSome = true := by
        rw [hr]
        rfl
      rcases c.lookup r.client ctx.base.targetDomain with ⟨e | ips, client⟩
      · dsimp only
        refine ⟨⟨rfl, hresolves.symm, fun h => ?_, fun hne => absurd hknown hne⟩, ?_⟩
        · rw [hresolved]
          exact h.ask hr hips hdomain hresolved client (.error e)
        · rw [knownIPs, if_pos hips]
          exact hresolved.symm
      · dsimp only
        refine ⟨⟨rfl, hresolves.symm, fun h => ?_, fun hne => absurd hknown hne⟩, ?_⟩
        · exact h.ask hr hips hdomain hresolved client (.ok ips)
        · rw [knownIPs, if_pos hips]
          rfl
    · rw [ne_eq, not_not, List.length_eq_zero_iff] at hips
      rw [not_lt, Nat.le_zero, List.length_eq_zero_iff] at hresolved
      refine ⟨.refl ctx, ?_⟩
      rw [knownIPs, if_pos hips, hr]
      exact hresolved.symm

end Context

section

variable (toLower : Bytes → Bytes) (c : DnsClient σ)

/-- A condition is one of the addresses that are known after it. -/
theorem Condition.apply_eq (cond : Condition) (ctx : Context σ) :
    ∃ ctx', ctx.Extends ctx' ∧ cond.apply toLower c ctx =
      (cond.holds toLower ctx.base ctx'.knownIPs).map fun b => (b, ctx') := by
  by_cases h : cond.IsOnTarget
  · obtain ⟨hextends, hips⟩ := ctx.getTargetIPs_spec c
    exact ⟨_, hextends, by rw [cond.apply_of_isOnTarget h, hips]⟩
  · exact ⟨ctx, .refl ctx, cond.apply_of_not_isOnTarget h c ctx _⟩

/-- Where a condition holds, it does of the addresses that are known later. -/
theorem Condition.holds_of_extends {toLower : Bytes → Bytes} {cond : Condition} {ctx ctx' : Context σ} (h : ctx.Extends ctx')
    (base : RoutingContext) (htrue : cond.holds toLower base ctx.knownIPs = .ok true) :
    cond.holds toLower base ctx'.knownIPs = .ok true := by
  by_cases htarget : cond.IsOnTarget
  · have hknown : ctx.knownIPs ≠ [] := by
      intro hnil
      rw [hnil, cond.holds_nil_of_isOnTarget htarget] at htrue
      cases Outcome.ok.inj htrue
    rw [h.known hknown]
    exact htrue
  · rw [cond.holds_of_not_isOnTarget htarget base _ ctx.knownIPs]
    exact htrue

/-- The conditions of a rule are those of the addresses that are known after them: a condition
    that asks in vain fails, and the rest is not looked at. -/
theorem applyAll_eq (conds : List Condition) (ctx : Context σ) :
    ∃ ctx', ctx.Extends ctx' ∧ applyAll toLower c conds ctx =
      (holdAll toLower ctx.base ctx'.knownIPs conds).map fun b => (b, ctx') := by
  induction conds generalizing ctx with
  | nil => exact ⟨ctx, .refl ctx, rfl⟩
  | cons cond conds ih =>
    obtain ⟨ctx₁, hextends, happly⟩ := cond.apply_eq toLower c ctx
    rw [applyAll, happly]
    rcases hholds : cond.holds toLower ctx.base ctx₁.knownIPs with b | e | -
    · rcases b with - | -
      · refine ⟨ctx₁, hextends, ?_⟩
        rw [holdAll, hholds]
        rfl
      · obtain ⟨ctx₂, hextends', hrest⟩ := ih ctx₁
        refine ⟨ctx₂, hextends.trans hextends', ?_⟩
        rw [holdAll, cond.holds_of_extends hextends' ctx.base hholds, ← hextends.base]
        exact hrest
    · refine ⟨ctx₁, hextends, ?_⟩
      rw [holdAll, hholds]
      rfl
    · refine ⟨ctx₁, hextends, ?_⟩
      rw [holdAll, hholds]
      rfl

end

/-! ## Building conditions -/

/-- `RoutingRule_TargetTag` -/
inductive TargetTag
  | none
  | tag (tag : Bytes)
  | balancingTag (tag : Bytes)

/-- A rule of the configuration. -/
structure RoutingRule where
  targetTag : TargetTag := .none
  domain : List Domain := []
  domainMatcher : Bytes := []
  userEmail : List Bytes := []
  inboundTag : List Bytes := []
  portList : Option (List Conf.PortRange) := none
  portRange : Option Conf.PortRange := none
  sourcePortList : Option (List Conf.PortRange) := none
  networks : List ℤ := []
  networkList : Option (List ℤ) := none
  geoip : List Dns.GeoIP := []
  cidr : List CIDR := []
  sourceGeoip : List Dns.GeoIP := []
  sourceCidr : List CIDR := []
  protocol : List Bytes := []
  attributes : Bytes := []

/-- The texts that are not empty, which users, tags and protocols are matched with. -/
def nonempty (texts : List Bytes) : List Bytes := texts.filter fun t => t.length > 0

/-- The loop of `NewNetworkMatcher`. -/
def newNetworkMatcher (list : List Bool) : List ℤ → Outcome (List Bool)
  | [] => .ok list
  | n :: networks =>
    if 0 ≤ n ∧ n < 8 then newNetworkMatcher (list.set n.toNat true) networks else .panic

abbrev Container := List (Bytes × GeoIPMatcher)

/-- The loop of `NewMultiGeoIPMatcher`. -/
def newMultiGeoIPMatcher (container : Container) :
    List Dns.GeoIP → Except Error (List GeoIPMatcher × Container)
  | [] => .ok ([], container)
  | geoip :: geoips =>
    match Dns.addGeoIP container geoip with
    | .error e => .error e
    | .ok (m, container) =>
      (newMultiGeoIPMatcher container geoips).map fun (ms, container) => (m :: ms, container)

/-- The packages and services that rules are built with. -/
structure Environment where
  /-- `strings.ToLower` -/
  toLower : Bytes → Bytes
  /-- `regexp.Compile` -/
  compile : Bytes → Except Error (Bytes → Bool)
  /-- `NewMphMatcherGroup` -/
  newMphMatcherGroup : List Domain → Outcome IndexMatcher
  /-- `NewAttributeMatcher` -/
  compileAttributes : Bytes → Except Error AttributeProgram

namespace RoutingRule

variable (env : Environment) (rr : RoutingRule)

/-- The rule is matched by a hash table. -/
def isHybrid : Bool := rr.domainMatcher == ascii "mph" || rr.domainMatcher == ascii "hybrid"

def buildDomain : Outcome (List Condition) :=
  if rr.domain.length > 0 then
    if rr.isHybrid then
      match env.newMphMatcherGroup rr.domain with
      | .ok matcher => .ok [.domain matcher]
      | .error e =>
        .error ((newError "app/router" "failed to build domain condition with MphDomainMatcher").base e)
      | .panic => .panic
    else
      match newDomainMatcher env.compile rr.domain with
      | .ok matcher => .ok [.domain matcher]
      | .error e => .error ((newError "app/router" "failed to build domain condition").base e)
  else .ok []

/-- The ports of the target: a list goes before a range. -/
def targetPorts : Option (List Conf.PortRange) :=
  match rr.portList with
  | some list => some list
  | none => rr.portRange.map fun range => [range]

def buildPort (list : Option (List Conf.PortRange)) (onSource : Bool) : List Condition :=
  match list with
  | some list => [.port (Conf.portListFromProto list) onSource]
  | none => []

/-- The networks: the list of before goes after the newer one. -/
def allNetworks : Option (List ℤ) :=
  if rr.networks.length > 0 then some rr.networks else rr.networkList

def buildNetwork (networks : Option (List ℤ)) : Outcome (List Condition) :=
  match networks with
  | some networks => (newNetworkMatcher (List.replicate 8 false) networks).map fun list => [.network list]
  | none => .ok []

/-- The addresses: CIDRs without a name go after those with one. -/
def geoIPs (geoip : List Dns.GeoIP) (cidr : List CIDR) : List Dns.GeoIP :=
  if geoip.length > 0 then geoip
  else if cidr.length > 0 then [{ countryCode := [], cidr, reverseMatch := false }]
  else []

def buildGeoIP (container : Container) (geoips : List Dns.GeoIP) (onSource : Bool) :
    Outcome (List Condition × Container) :=
  if geoips.length > 0 then
    match newMultiGeoIPMatcher container geoips with
    | .error e => .error e
    | .ok (matchers, container) => .ok ([.geoIP matchers onSource], container)
  else .ok ([], container)

/-- A condition on a list of texts, unless there is none. -/
def buildTexts (texts : List Bytes) (cond : List Bytes → Condition) : List Condition :=
  if texts.length > 0 then [cond (nonempty texts)] else []

def buildAttributes : Outcome (List Condition) :=
  if rr.attributes.length > 0 then
    match env.compileAttributes rr.attributes with
    | .error e => .error e
    | .ok program => .ok [.attribute program]
  else .ok []

def noEffectiveFields : Error := newError "app/router" "this rule has no effective fields"

/-- `BuildCondition`, with the container of all matchers of addresses. -/
def buildCondition (container : Container) : Outcome (List Condition × Container) := do
  let domain ← rr.buildDomain env
  let network ← buildNetwork rr.allNetworks
  let (geoip, container) ← buildGeoIP container (geoIPs rr.geoip rr.cidr) false
  let (sourceGeoip, container) ← buildGeoIP container (geoIPs rr.sourceGeoip rr.sourceCidr) true
  let attributes ← rr.buildAttributes env
  let conds := domain ++ buildTexts rr.userEmail .user ++ buildTexts rr.inboundTag .inboundTag ++
    buildPort rr.targetPorts false ++ buildPort rr.sourcePortList true ++ network ++ geoip ++
    sourceGeoip ++ buildTexts rr.protocol .protocol ++ attributes
  if conds.length = 0 then .error noEffectiveFields else .ok (conds, container)

end RoutingRule

end Gzv2ray.Router
