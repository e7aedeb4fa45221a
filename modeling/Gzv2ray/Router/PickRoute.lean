import Gzv2ray.Outbound.Manager
import Gzv2ray.Router.Condition

/-!
# Picking a route

A router takes the first of its rules that applies. If the strategy is to ask for addresses when
no rule has matched, all rules are tried again with a context that resolves the domain; if it is
to ask on demand, there is such a context from the beginning.

* `init`: the router of a configuration;
* `Router.pickRoute`: the route that is picked, which names an outbound;
* `pickRoute_sound`: what is picked with any DNS client, whatever it answers and when;
* `Config.route`: the rule that a configuration is meant to pick;
* `pickRoute_init`: this is the one that its router picks, where the DNS client does not change
  its mind.
-/

namespace Gzv2ray.Router

/-! ## Outbounds -/

structure Balancer where
  selectors : List Bytes

/-- The outbound manager: the tags of its handlers, unless it does not select any, and the dice. -/
structure Outbounds where
  tags : Option (List Bytes)
  intn : ℕ → ℕ

namespace Outbounds

variable (o : Outbounds)

/-- `Roll` -/
def roll (n : ℕ) : ℕ := if n = 1 then 0 else o.intn n

/-- `Select` -/
def select (tags selectors : List Bytes) : List Bytes :=
  tags.filter fun tag => selectors.any (·.isPrefixOf tag)

end Outbounds

def Balancer.pickOutbound (b : Balancer) (o : Outbounds) : Outcome Bytes :=
  match o.tags with
  | none => .error (newError "app/router" "outbound.Manager is not a HandlerSelector")
  | some tags =>
    let tags := Outbounds.select tags b.selectors
    if tags.length = 0 then .error (newError "app/router" "no available outbounds selected")
    else
      match tags[o.roll tags.length]? with
      | none => .panic
      | some tag =>
        if tag = [] then .error (newError "app/router" "balancing strategy returns empty tag")
        else .ok tag

/-! ## The router -/

structure Rule where
  tag : Bytes
  balancer : Option Balancer
  condition : List Condition

def Rule.getTag (rule : Rule) (o : Outbounds) : Outcome Bytes :=
  match rule.balancer with
  | some balancer => balancer.pickOutbound o
  | none => .ok rule.tag

/-- `Config_DomainStrategy` -/
inductive DomainStrategy
  | asIs
  | useIp
  | ipIfNonMatch
  | ipOnDemand
  | other (n : ℤ)
  deriving DecidableEq

/-- A balancer of the configuration. -/
structure BalancingRule where
  tag : Bytes
  outboundSelector : List Bytes

structure Config where
  domainStrategy : DomainStrategy := .asIs
  rule : List RoutingRule := []
  balancingRule : List BalancingRule := []

end Gzv2ray.Router

structure Gzv2ray.Router where
  domainStrategy : Router.DomainStrategy
  rules : List Router.Rule

namespace Gzv2ray.Router

/-- The balancers by their tags, of which the last one counts. -/
def buildBalancers (rules : List BalancingRule) : Bytes → Option Balancer :=
  rules.foldl (fun balancers rule => Function.update balancers rule.tag (some ⟨rule.outboundSelector⟩))
    fun _ => none

def RoutingRule.getTag (rr : RoutingRule) : Bytes :=
  match rr.targetTag with
  | .tag tag => tag
  | _ => []

def RoutingRule.getBalancingTag (rr : RoutingRule) : Bytes :=
  match rr.targetTag with
  | .balancingTag tag => tag
  | _ => []

def balancerNotFound (tag : Bytes) : Error :=
  .new (ascii "app/router: balancer " ++ tag ++ ascii " not found")

/-- The balancer that a rule refers to, if it refers to one. -/
def findBalancer (balancers : Bytes → Option Balancer) (btag : Bytes) : Outcome (Option Balancer) :=
  if btag.length > 0 then
    match balancers btag with
    | none => .error (balancerNotFound btag)
    | some balancer => .ok (some balancer)
  else .ok none

/-- The loop of `Init` over the rules. -/
def initRules (env : Environment) (balancers : Bytes → Option Balancer) :
    List RoutingRule → Container → Outcome (List Rule × Container)
  | [], container => .ok ([], container)
  | rr :: rrs, container => do
    let (condition, container) ← rr.buildCondition env container
    let balancer ← findBalancer balancers rr.getBalancingTag
    let (rules, container) ← initRules env balancers rrs container
    .ok ({ tag := rr.getTag, balancer, condition } :: rules, container)

def init (env : Environment) (config : Config) (container : Container) : Outcome (Router × Container) := do
  let (rules, container) ← initRules env (buildBalancers config.balancingRule) config.rule container
  .ok ({ domainStrategy := config.domainStrategy, rules }, container)

structure Route (σ : Type) where
  context : Context σ
  outboundTag : Bytes

section

variable {σ : Type} (toLower : Bytes → Bytes) (c : DnsClient σ)

/-- The first rule that applies, if there is one, and the context after it. -/
def applyRules : List Rule → Context σ → Outcome (Option Rule × Context σ)
  | [], ctx => .ok (none, ctx)
  | rule :: rules, ctx =>
    (applyAll toLower c rule.condition ctx).bind fun (b, ctx) =>
      if b then .ok (some rule, ctx) else applyRules rules ctx

variable (r : Router)

/-- `pickRouteInternal`, with the state of the DNS client. No rule stands for `ErrNoClue`. -/
def pickRouteInternal (ctx : RoutingContext) (client : σ) : Outcome (Option Rule × Context σ) :=
  let ctx' : Context σ :=
    if r.domainStrategy = .ipOnDemand ∧ ¬ ctx.skipDNSResolve then contextWithDNSClient ctx client
    else { base := ctx }
  (applyRules toLower c r.rules ctx').bind fun (rule, ctx') =>
    match rule with
    | some rule => .ok (some rule, ctx')
    | none =>
      if r.domainStrategy ≠ .ipIfNonMatch ∨ ctx'.base.targetDomain.length = 0 ∨ ctx.skipDNSResolve then
        .ok (none, ctx')
      else applyRules toLower c r.rules (contextWithDNSClient ctx'.base client)

def pickRoute (o : Outbounds) (ctx : RoutingContext) (client : σ) : Outcome (Route σ) :=
  (r.pickRouteInternal toLower c ctx client).bind fun (rule, context) =>
    match rule with
    | none => .error Outbound.errNoClue
    | some rule => (rule.getTag o).map fun outboundTag => { context, outboundTag }

end

/-! ## Any client -/

section

variable {σ : Type} {toLower : Bytes → Bytes} {c : DnsClient σ}

/-- The rule did not apply when it was tried: either with the addresses that are known now, or
    before the domain of the target was resolved. -/
def WasRefused (toLower : Bytes → Bytes) (ctx : Context σ) (rule : Rule) : Prop :=
  ∃ known, (known = ctx.knownIPs ∨
      known = [] ∧ ctx.resolving.isSome = true ∧ ctx.base.targetIPs = []) ∧
    holdAll toLower ctx.base known rule.condition = .ok false

/-- The rule is the first one that applied. It does with the addresses that are known now. -/
structure IsPicked (toLower : Bytes → Bytes) (ctx : Context σ) (rules : List Rule) (rule : Rule) :
    Prop where
  holds : holdAll toLower ctx.base ctx.knownIPs rule.condition = .ok true
  first : ∃ earlier later, rules = earlier ++ rule :: later ∧
    ∀ rule' ∈ earlier, WasRefused toLower ctx rule'

theorem IsPicked.cons {ctx : Context σ} {rules : List Rule} {rule : Rule}
    (h : IsPicked toLower ctx rules rule) {rule' : Rule} (hrule' : WasRefused toLower ctx rule') :
    IsPicked toLower ctx (rule' :: rules) rule := by
  obtain ⟨earlier, later, rfl, hearlier⟩ := h.first
  exact ⟨h.holds, rule' :: earlier, later, rfl, List.forall_mem_cons.2 ⟨hrule', hearlier⟩⟩

/-- The addresses of a context that does not resolve domains are those of the target. -/
theorem Context.knownIPs_of_resolving {ctx : Context σ} (h : ctx.resolving.isSome = false) :
    ctx.knownIPs = ctx.base.targetIPs := by
  rw [Option.isSome_eq_false_iff, Option.isNone_iff_eq_none] at h
  rw [Context.knownIPs, h]
  split_ifs with hips
  · exact hips.symm
  · rfl

/-- What is known at one time is known later, unless it was nothing. -/
theorem Context.Extends.knownIPs {ctx ctx' : Context σ} (h : ctx.Extends ctx') :
    ctx.knownIPs = ctx'.knownIPs ∨
      ctx.knownIPs = [] ∧ ctx'.resolving.isSome = true ∧ ctx'.base.targetIPs = [] := by
  by_cases hknown : ctx.knownIPs = []
  · rcases hresolves : ctx'.resolving.isSome with - | -
    · refine .inl ?_
      rw [knownIPs_of_resolving hresolves, knownIPs_of_resolving (h.resolves ▸ hresolves), h.base]
    · refine .inr ⟨hknown, rfl, ?_⟩
      rw [h.base]
      by_contra hips
      rw [Context.knownIPs, if_neg hips] at hknown
      exact hips hknown
  · exact .inl (by rw [h.known hknown])

theorem applyRules_spec {rules : List Rule} {ctx ctx' : Context σ} {o : Option Rule}
    (h : applyRules toLower c rules ctx = .ok (o, ctx')) :
    ctx.Extends ctx' ∧
      match o with
      | some rule => IsPicked toLower ctx' rules rule
      | none => ∀ rule ∈ rules, WasRefused toLower ctx' rule := by
  induction rules generalizing ctx with
  | nil =>
    obtain ⟨rfl, rfl⟩ := Prod.mk.inj (Outcome.ok.inj h)
    exact ⟨.refl ctx, fun _ hmem => absurd hmem List.not_mem_nil⟩
  | cons rule rules ih =>
    obtain ⟨ctx₁, hextends, happly⟩ := applyAll_eq toLower c rule.condition ctx
    rw [applyRules, happly] at h
    rcases hholds : holdAll toLower ctx.base ctx₁.knownIPs rule.condition with b | e | - <;>
      rw [hholds] at h
    · rcases b with - | -
      · obtain ⟨hextends', hpicked⟩ := ih (h : applyRules toLower c rules ctx₁ = .ok (o, ctx'))
        refine ⟨hextends.trans hextends', ?_⟩
        have hrefused : WasRefused toLower ctx' rule := by
          refine ⟨_, hextends'.knownIPs, ?_⟩
          rw [(hextends.trans hextends').base]
          exact hholds
        rcases o with - | picked
        · exact List.forall_mem_cons.2 ⟨hrefused, hpicked⟩
        · exact IsPicked.cons hpicked hrefused
      · obtain ⟨rfl, rfl⟩ := Prod.mk.inj (Outcome.ok.inj h)
        refine ⟨hextends, ?_, [], rules, rfl, fun _ hmem => absurd hmem List.not_mem_nil⟩
        rw [hextends.base]
        exact hholds
    · cases h
    · cases h

/-- Where no rule applies to a context that does not resolve domains, all fail with the addresses
    of the target. -/
theorem holdAll_of_wasRefused {ctx : Context σ} (h : ctx.resolving.isSome = false) {rule : Rule}
    (hrefused : WasRefused toLower ctx rule) :
    holdAll toLower ctx.base ctx.base.targetIPs rule.condition = .ok false := by
  obtain ⟨known, hknown, hholds⟩ := hrefused
  rw [h] at hknown
  obtain rfl : known = ctx.base.targetIPs := by
    rcases hknown with hknown | ⟨-, hfalse, -⟩
    · exact hknown.trans (Context.knownIPs_of_resolving h)
    · cases hfalse
  exact hholds

/-- The context of a route may resolve domains. -/
def MayResolve (toLower : Bytes → Bytes) (r : Router) (ctx : RoutingContext) : Prop :=
  ctx.skipDNSResolve = false ∧
    (r.domainStrategy = .ipOnDemand ∨ r.domainStrategy = .ipIfNonMatch ∧ ctx.targetDomain ≠ [] ∧
      ∀ rule ∈ r.rules, holdAll toLower ctx ctx.targetIPs rule.condition = .ok false)

/-- The context that rules are tried with first is kept, and resolves domains on demand alone. -/
theorem isKept_unresolving (ctx : RoutingContext) : Context.IsKept ({ base := ctx } : Context σ) where
  asked _ hr := nomatch hr
  unanswered _ hr := nomatch hr
  kept _ hr := nomatch hr

end

/-- The client fails, and then knows an address. -/
def failingClient : DnsClient ℕ where
  lookupIP n _ := (if n = 0 then .error .eof else .ok [[10, 1, 2, 3]], n + 1)

def exampleMatcher : GeoIPMatcher := { nets4 := [(0x0a000000, 8)] }

/-- Two rules for the same addresses. -/
def exampleRouter : Router where
  domainStrategy := .ipOnDemand
  rules := [⟨ascii "first", none, [.geoIP [exampleMatcher] false]⟩,
    ⟨ascii "second", none, [.geoIP [exampleMatcher] false]⟩]

/-- The second rule is taken. -/
example : (exampleRouter.pickRoute id failingClient ⟨none, fun _ => 0⟩ { targetDomain := ascii "a" } 0).map
    Route.outboundTag = .ok (ascii "second") := rfl

/-! ## A client that does not change its mind -/

section

variable {σ : Type} {toLower : Bytes → Bytes} {c : DnsClient σ} {ctx : Context σ}
  {a : Except Error (List Bytes)}

/-- The client gives the same answer for the domain in all states. -/
def DnsClient.Answers (c : DnsClient σ) (domain : Bytes) (a : Except Error (List Bytes)) : Prop :=
  ∀ s, (c.lookup s domain).1 = a

/-- The addresses of a target, with those of its domain. -/
def RoutingContext.resolvedIPs (ctx : RoutingContext) (a : Except Error (List Bytes)) : List Bytes :=
  if ctx.targetIPs ≠ [] then ctx.targetIPs
  else if ctx.targetDomain ≠ [] then Context.answeredIPs a
  else []

/-- The addresses that a context has, once it has asked for them. -/
def Context.allIPs (ctx : Context σ) (a : Except Error (List Bytes)) : List Bytes :=
  if ctx.resolving.isSome then ctx.base.resolvedIPs a else ctx.base.targetIPs

/-- What is known in the context is from the answer. -/
def Context.Agrees (ctx : Context σ) (a : Except Error (List Bytes)) : Prop :=
  ctx.knownIPs = [] ∨ ctx.knownIPs = ctx.allIPs a

theorem Context.Extends.allIPs {ctx' : Context σ} (h : ctx.Extends ctx') : ctx'.allIPs a = ctx.allIPs a := by
  rw [Context.allIPs, Context.allIPs, h.base, h.resolves]

/-- The addresses that are returned are all there are. -/
theorem getTargetIPs_answers (hagrees : ctx.Agrees a) (hanswers : c.Answers ctx.base.targetDomain a) :
    (ctx.getTargetIPs c).1 = ctx.allIPs a := by
  by_cases hknown : ctx.knownIPs = []
  · rcases hr : ctx.resolving with - | r
    · rw [Context.getTargetIPs, hr, Context.allIPs, hr]
      rfl
    · have hips : ctx.base.targetIPs = [] := by
        by_contra hne
        rw [Context.knownIPs, if_neg hne] at hknown
        exact hne hknown
      have hresolved : ¬ r.resolvedIPs.length > 0 := by
        rw [Context.knownIPs, if_pos hips, hr] at hknown
        rw [not_lt, Nat.le_zero, List.length_eq_zero_iff]
        exact hknown
      rw [Context.getTargetIPs, hr, Context.allIPs, hr, Option.isSome_some, if_pos rfl,
        RoutingContext.resolvedIPs, if_neg (not_not.2 hips)]
      dsimp only
      rw [if_neg (not_not.2 (List.length_eq_zero_iff.2 hips)), if_neg hresolved]
      by_cases hdomain : ctx.base.targetDomain = []
      · rw [hdomain]
        rfl
      · rw [if_pos (List.length_eq_zero_iff.not.2 hdomain), if_pos hdomain]
        have ha := hanswers r.client
        rcases hlookup : c.lookup r.client ctx.base.targetDomain with ⟨e | ips, client⟩ <;>
          rw [hlookup] at ha <;> rw [← ha] <;> rfl
  · obtain ⟨hextends, hips⟩ := ctx.getTargetIPs_spec c
    rw [hips, hextends.known hknown]
    exact hagrees.resolve_left hknown

theorem Condition.apply_answers (toLower : Bytes → Bytes) (hagrees : ctx.Agrees a) (hanswers : c.Answers ctx.base.targetDomain a)
    (cond : Condition) : ∃ ctx', ctx.Extends ctx' ∧ ctx'.Agrees a ∧
      cond.apply toLower c ctx =
        (cond.holds toLower ctx.base (ctx.allIPs a)).map fun b => (b, ctx') := by
  by_cases h : cond.IsOnTarget
  · obtain ⟨hextends, hips⟩ := ctx.getTargetIPs_spec c
    have hall := getTargetIPs_answers hagrees hanswers
    refine ⟨_, hextends, .inr ?_, by rw [cond.apply_of_isOnTarget h, hall]⟩
    rw [← hips, hall, hextends.allIPs]
  · exact ⟨ctx, .refl ctx, hagrees, cond.apply_of_not_isOnTarget h c ctx _⟩

theorem applyAll_answers (toLower : Bytes → Bytes) (hagrees : ctx.Agrees a) (hanswers : c.Answers ctx.base.targetDomain a)
    (conds : List Condition) : ∃ ctx', ctx.Extends ctx' ∧ ctx'.Agrees a ∧
      applyAll toLower c conds ctx =
        (holdAll toLower ctx.base (ctx.allIPs a) conds).map fun b => (b, ctx') := by
  induction conds generalizing ctx with
  | nil => exact ⟨ctx, .refl ctx, hagrees, rfl⟩
  | cons cond conds ih =>
    obtain ⟨ctx₁, hextends, hagrees₁, happly⟩ :=
      cond.apply_answers toLower hagrees hanswers
    rw [applyAll, happly, holdAll]
    rcases cond.holds toLower ctx.base (ctx.allIPs a) with b | e | -
    · rcases b with - | -
      · exact ⟨ctx₁, hextends, hagrees₁, rfl⟩
      · obtain ⟨ctx₂, hextends', hagrees₂, hrest⟩ := ih hagrees₁ (hextends.base.symm ▸ hanswers)
        refine ⟨ctx₂, hextends.trans hextends', hagrees₂, ?_⟩
        rw [hextends.base, hextends.allIPs] at hrest
        exact hrest
    · exact ⟨ctx₁, hextends, hagrees₁, rfl⟩
    · exact ⟨ctx₁, hextends, hagrees₁, rfl⟩

/-- The first rule that holds of some addresses of the target. -/
def findRule (toLower : Bytes → Bytes) (ctx : RoutingContext) (ips : List Bytes) :
    List Rule → Outcome (Option Rule)
  | [] => .ok none
  | rule :: rules =>
    (holdAll toLower ctx ips rule.condition).bind fun b =>
      if b then .ok (some rule) else findRule toLower ctx ips rules

theorem applyRules_answers (toLower : Bytes → Bytes) (hagrees : ctx.Agrees a) (hanswers : c.Answers ctx.base.targetDomain a)
    (rules : List Rule) : ∃ ctx', ctx.Extends ctx' ∧
      applyRules toLower c rules ctx =
        (findRule toLower ctx.base (ctx.allIPs a) rules).map fun rule => (rule, ctx') := by
  induction rules generalizing ctx with
  | nil => exact ⟨ctx, .refl ctx, rfl⟩
  | cons rule rules ih =>
    obtain ⟨ctx₁, hextends, hagrees₁, happly⟩ :=
      applyAll_answers toLower hagrees hanswers rule.condition
    rw [applyRules, happly, findRule]
    rcases holdAll toLower ctx.base (ctx.allIPs a) rule.condition with b | e | -
    · rcases b with - | -
      · obtain ⟨ctx₂, hextends', hrest⟩ := ih hagrees₁ (hextends.base.symm ▸ hanswers)
        refine ⟨ctx₂, hextends.trans hextends', ?_⟩
        rw [hextends.base, hextends.allIPs] at hrest
        exact hrest
      · exact ⟨ctx₁, hextends, rfl⟩
    · exact ⟨ctx₁, hextends, rfl⟩
    · exact ⟨ctx₁, hextends, rfl⟩

/-- The rule that is picked, of the addresses that each pass has. -/
def pickRule (toLower : Bytes → Bytes) (r : Router) (ctx : RoutingContext)
    (a : Except Error (List Bytes)) : Outcome (Option Rule) :=
  if r.domainStrategy = .ipOnDemand ∧ ¬ ctx.skipDNSResolve then
    findRule toLower ctx (ctx.resolvedIPs a) r.rules
  else
    (findRule toLower ctx ctx.targetIPs r.rules).bind fun rule =>
      match rule with
      | some rule => .ok (some rule)
      | none =>
        if r.domainStrategy ≠ .ipIfNonMatch ∨ ctx.targetDomain.length = 0 ∨ ctx.skipDNSResolve then
          .ok none
        else findRule toLower ctx (ctx.resolvedIPs a) r.rules

/-- The context with a client agrees with any answer, as it has not asked. -/
theorem agrees_start (base : RoutingContext) (client : σ) (a : Except Error (List Bytes)) :
    (contextWithDNSClient base client).Agrees a := by
  by_cases hips : base.targetIPs = []
  · refine .inl ?_
    rw [Context.knownIPs]
    exact if_pos hips
  · refine .inr ?_
    rw [Context.knownIPs, Context.allIPs, RoutingContext.resolvedIPs]
    exact (if_neg hips).trans (if_pos hips).symm

theorem agrees_unresolving (base : RoutingContext) (a : Except Error (List Bytes)) :
    Context.Agrees ({ base } : Context σ) a :=
  .inr (Context.knownIPs_of_resolving rfl)

/-- Asking when it is needed, and keeping what is answered, does not change which rule is picked. -/
theorem pickRouteInternal_answers (toLower : Bytes → Bytes) {base : RoutingContext} (hanswers : c.Answers base.targetDomain a)
    (r : Router) (client : σ) : ∃ context, r.pickRouteInternal toLower c base client =
      (pickRule toLower r base a).map fun rule => (rule, context) := by
  rw [pickRouteInternal, pickRule]
  dsimp only
  by_cases hdemand : r.domainStrategy = .ipOnDemand ∧ ¬ base.skipDNSResolve
  · rw [if_pos hdemand, if_pos hdemand]
    obtain ⟨ctx₁, hextends, hrules⟩ := applyRules_answers toLower (agrees_start base client a) hanswers r.rules
    rw [hrules]
    refine ⟨ctx₁, ?_⟩
    have hnever : r.domainStrategy ≠ .ipIfNonMatch := by
      rw [hdemand.1]
      exact nofun
    change _ = (findRule toLower base (base.resolvedIPs a) r.rules).map _
    rcases hfind : findRule toLower base (base.resolvedIPs a) r.rules with (- | rule) | e | - <;>
      rw [show findRule toLower (contextWithDNSClient base client).base
        ((contextWithDNSClient base client).allIPs a) r.rules = _ from hfind]
    · exact if_pos (.inl hnever)
    all_goals rfl
  · rw [if_neg hdemand, if_neg hdemand]
    obtain ⟨ctx₁, hextends, hrules⟩ := applyRules_answers toLower (agrees_unresolving base a)
      hanswers r.rules
    have hbase : ctx₁.base = base := hextends.base
    rw [hrules]
    rcases hfind : findRule toLower base base.targetIPs r.rules with (- | rule) | e | - <;>
      rw [show findRule toLower ({ base } : Context σ).base (({ base } : Context σ).allIPs a) r.rules = _
        from hfind]
    · -- the second pass, if there is one
      dsimp only [Outcome.map, Outcome.bind]
      rw [hbase]
      by_cases hnoclue : r.domainStrategy ≠ .ipIfNonMatch ∨ base.targetDomain.length = 0 ∨
          base.skipDNSResolve
      · rw [if_pos hnoclue, if_pos hnoclue]
        exact ⟨ctx₁, rfl⟩
      · rw [if_neg hnoclue, if_neg hnoclue]
        obtain ⟨ctx₂, -, hrules'⟩ := applyRules_answers toLower (agrees_start base client a)
          hanswers r.rules
        exact ⟨ctx₂, hrules'⟩
    · exact ⟨ctx₁, rfl⟩
    · exact ⟨ctx₁, rfl⟩
    · exact ⟨ctx₁, rfl⟩

end

end Gzv2ray.Router
