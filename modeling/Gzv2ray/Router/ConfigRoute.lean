import Gzv2ray.Router.PickRoute

/-!
# The routes of a configuration

What a configuration is meant to do: a rule matches a connection if each of its fields that is
there does (`RoutingRule.Matches`), and the first rule that matches names the outbound, or a
balancer that picks one (`Config.route`, `Config.outboundTag`).

The router that is built from the configuration does so (`pickRoute_init`), whose rules have been
compiled into conditions, whose matchers of addresses are shared by their country codes, and whose
DNS client is asked at the last moment. The rules on domains are those of linear matchers, for
which there is no exception; matchers are shared by networks of the same name, which have to have
the same addresses (`AreCoherent`).
-/

namespace Gzv2ray.Router

/-! ## Rules -/

/-- The address is one of the networks, or none of them. -/
def Includes (g : Dns.GeoIP) (ip : Bytes) : Prop :=
  ∃ m, GeoIPMatcher.init { reverseMatch := g.reverseMatch } g.cidr = .ok m ∧ m.matchIP ip = true

/-- Some list has some of the addresses. -/
def IncludesAny (geoips : List Dns.GeoIP) (ips : List Bytes) : Prop :=
  ∃ ip ∈ ips, ∃ g ∈ geoips, Includes g ip

/-- Each field of the rule that is there matches, where the target has these addresses. -/
structure RoutingRule.Matches (env : Environment) (rr : RoutingRule) (ctx : RoutingContext)
    (ips : List Bytes) : Prop where
  domain : rr.domain ≠ [] → ctx.targetDomain ≠ [] ∧
    ∃ d ∈ rr.domain, Tells env.compile d (env.toLower ctx.targetDomain)
  user : rr.userEmail ≠ [] → ctx.user ≠ [] ∧ ctx.user ∈ rr.userEmail
  inboundTag : rr.inboundTag ≠ [] → ctx.inboundTag ≠ [] ∧ ctx.inboundTag ∈ rr.inboundTag
  port : ∀ list ∈ rr.targetPorts, ∃ range ∈ list,
    range.fromPort.toUInt16 ≤ ctx.targetPort ∧ ctx.targetPort ≤ range.toPort.toUInt16
  sourcePort : ∀ list ∈ rr.sourcePortList, ∃ range ∈ list,
    range.fromPort.toUInt16 ≤ ctx.sourcePort ∧ ctx.sourcePort ≤ range.toPort.toUInt16
  network : ∀ networks ∈ rr.allNetworks, (networkNumber ctx.network : ℤ) ∈ networks
  geoip : RoutingRule.geoIPs rr.geoip rr.cidr ≠ [] → IncludesAny (RoutingRule.geoIPs rr.geoip rr.cidr) ips
  sourceGeoip : RoutingRule.geoIPs rr.sourceGeoip rr.sourceCidr ≠ [] →
    IncludesAny (RoutingRule.geoIPs rr.sourceGeoip rr.sourceCidr) ctx.sourceIPs
  protocol : rr.protocol ≠ [] → ctx.protocol ≠ [] ∧ ∃ p ∈ rr.protocol, p ≠ [] ∧ p <+: ctx.protocol
  attributes : rr.attributes ≠ [] → ∃ program, env.compileAttributes rr.attributes = .ok program ∧
    ∃ attributes ∈ ctx.attributes, program attributes = true

open Classical in
/-- The rule that a configuration picks, with the addresses of the domain if these matter. -/
noncomputable def Config.route (env : Environment) (config : Config) (ctx : RoutingContext)
    (a : Except Error (List Bytes)) : Option RoutingRule :=
  let first (ips : List Bytes) := config.rule.find? fun rr => rr.Matches env ctx ips
  if config.domainStrategy = .ipOnDemand ∧ ctx.skipDNSResolve = false then first (ctx.resolvedIPs a)
  else if config.domainStrategy = .ipIfNonMatch ∧ ctx.targetDomain ≠ [] ∧ ctx.skipDNSResolve = false then
    first ctx.targetIPs <|> first (ctx.resolvedIPs a)
  else first ctx.targetIPs

/-- The outbound of a rule. The last balancer of a tag counts. -/
def Config.outboundTag (config : Config) (o : Outbounds) (rr : RoutingRule) : Outcome Bytes :=
  match rr.targetTag with
  | .none => .ok []
  | .tag tag => .ok tag
  | .balancingTag [] => .ok []
  | .balancingTag tag =>
    match (config.balancingRule.filter fun rule => rule.tag = tag).getLast? with
    | some rule => Balancer.pickOutbound ⟨rule.outboundSelector⟩ o
    | none => .error (balancerNotFound tag)

/-! ## The matchers of addresses -/

/-- The networks of one name have the same addresses. -/
def AreCoherent (geoips : List Dns.GeoIP) : Prop :=
  ∀ g ∈ geoips, ∀ g' ∈ geoips, g.countryCode ≠ [] → g.countryCode = g'.countryCode →
    g.reverseMatch = g'.reverseMatch → g.cidr = g'.cidr

/-- The matchers of a container were made of the networks that they are named after. -/
def Container.IsOf (container : Container) (geoips : List Dns.GeoIP) : Prop :=
  ∀ entry ∈ container, ∃ g ∈ geoips, g.countryCode = entry.1 ∧
    GeoIPMatcher.init { reverseMatch := g.reverseMatch } g.cidr = .ok entry.2

theorem reverseMatch_of_init {m m' : GeoIPMatcher} {cidr : List CIDR} (h : m.init cidr = .ok m') :
    m'.reverseMatch = m.reverseMatch := by
  rw [GeoIPMatcher.init] at h
  split_ifs at h with hlength
  obtain rfl := Except.ok.inj h
  rfl

/-- A matcher that is shared is the one that would have been made. -/
theorem addGeoIP_spec {geoips : List Dns.GeoIP} (hcoherent : AreCoherent geoips) {g : Dns.GeoIP}
    (hg : g ∈ geoips) {container container' : Container} (hof : container.IsOf geoips)
    {m : GeoIPMatcher} (h : Dns.addGeoIP container g = .ok (m, container')) :
    GeoIPMatcher.init { reverseMatch := g.reverseMatch } g.cidr = .ok m ∧ container'.IsOf geoips := by
  rw [Dns.addGeoIP] at h
  split at h
  · rename_i entry hfind
    obtain ⟨rfl, rfl⟩ := Prod.mk.inj (Except.ok.inj h)
    refine ⟨?_, hof⟩
    have hentry := List.find?_some hfind
    rw [Bool.and_eq_true, Bool.and_eq_true, decide_eq_true_iff, beq_iff_eq, beq_iff_eq] at hentry
    obtain ⟨⟨hcode, hname⟩, hreverse⟩ := hentry
    obtain ⟨g', hg', hname', hinit⟩ := hof entry (List.mem_of_find?_eq_some hfind)
    have hreverse' : g.reverseMatch = g'.reverseMatch := by
      rw [← hreverse, reverseMatch_of_init hinit]
    rw [hcoherent g hg g' hg' (List.length_pos_iff.1 hcode) (hname'.trans hname).symm hreverse',
      hreverse']
    exact hinit
  · rcases hinit : GeoIPMatcher.init { reverseMatch := g.reverseMatch } g.cidr with e | m'
    · rw [hinit] at h
      cases h
    · rw [hinit] at h
      obtain ⟨rfl, rfl⟩ := Prod.mk.inj (Except.ok.inj h)
      refine ⟨rfl, ?_⟩
      split_ifs with hcode
      · intro entry hentry
        rcases List.mem_append.1 hentry with hentry | hentry
        · exact hof entry hentry
        · obtain rfl := List.mem_singleton.1 hentry
          exact ⟨g, hg, rfl, hinit⟩
      · exact hof

theorem newMultiGeoIPMatcher_spec {geoips : List Dns.GeoIP} (hcoherent : AreCoherent geoips)
    {list : List Dns.GeoIP} (hlist : ∀ g ∈ list, g ∈ geoips) {container container' : Container}
    (hof : container.IsOf geoips) {ms : List GeoIPMatcher}
    (h : newMultiGeoIPMatcher container list = .ok (ms, container')) :
    List.Forall₂ (fun g m => GeoIPMatcher.init { reverseMatch := g.reverseMatch } g.cidr = .ok m) list ms ∧
      container'.IsOf geoips := by
  induction list generalizing container ms with
  | nil =>
    obtain ⟨rfl, rfl⟩ := Prod.mk.inj (Except.ok.inj h)
    exact ⟨.nil, hof⟩
  | cons g list ih =>
    rw [newMultiGeoIPMatcher] at h
    rcases hadd : Dns.addGeoIP container g with e | ⟨m, container₁⟩
    · rw [hadd] at h
      cases h
    rw [hadd] at h
    dsimp only at h
    obtain ⟨hinit, hof₁⟩ := addGeoIP_spec hcoherent (hlist g List.mem_cons_self) hof hadd
    rcases hrest : newMultiGeoIPMatcher container₁ list with e | ⟨ms', container₂⟩
    · rw [hrest] at h
      cases h
    rw [hrest] at h
    obtain ⟨rfl, rfl⟩ := Prod.mk.inj (Except.ok.inj h)
    obtain ⟨hall, hof₂⟩ := ih (fun g hg => hlist g (List.mem_cons_of_mem _ hg)) hof₁ hrest
    exact ⟨.cons hinit hall, hof₂⟩

theorem matchIPs_iff {list : List Dns.GeoIP} {ms : List GeoIPMatcher}
    (h : List.Forall₂ (fun g m => GeoIPMatcher.init { reverseMatch := g.reverseMatch } g.cidr = .ok m)
      list ms) (ips : List Bytes) : matchIPs ms ips = true ↔ IncludesAny list ips := by
  have hany (ip : Bytes) : (ms.any fun m => m.matchIP ip) = true ↔ ∃ g ∈ list, Includes g ip := by
    induction h with
    | nil => exact iff_of_false Bool.false_ne_true fun ⟨g, hg, _⟩ => List.not_mem_nil hg
    | @cons g m list ms hinit hrest ih =>
      rw [List.any_cons, Bool.or_eq_true, ih, List.exists_mem_cons_iff]
      refine or_congr_left ⟨fun hmatch => ⟨m, hinit, hmatch⟩, fun ⟨m', hinit', hmatch⟩ => ?_⟩
      obtain rfl := Except.ok.inj (hinit.symm.trans hinit')
      exact hmatch
  rw [matchIPs, List.any_eq_true]
  exact exists_congr fun ip => and_congr_right fun _ => hany ip

/-! ## Compiled rules -/

section

variable {toLower : Bytes → Bytes} {ctx : RoutingContext} {ips : List Bytes}

/-- The conditions say whether a property holds, without a panic. -/
def Decides (toLower : Bytes → Bytes) (ctx : RoutingContext) (ips : List Bytes) (conds : List Condition)
    (P : Prop) : Prop :=
  ∃ b, holdAll toLower ctx ips conds = .ok b ∧ (b = true ↔ P)

theorem Decides.nil {P : Prop} (h : P) : Decides toLower ctx ips [] P :=
  ⟨true, rfl, iff_of_true rfl h⟩

theorem Decides.single {cond : Condition} {b : Bool} {P : Prop} (h : cond.holds toLower ctx ips = .ok b)
    (hiff : b = true ↔ P) : Decides toLower ctx ips [cond] P := by
  refine ⟨b, ?_, hiff⟩
  rw [holdAll, h]
  rcases b with - | - <;> rfl

theorem Decides.append {conds conds' : List Condition} {P Q : Prop} (h : Decides toLower ctx ips conds P)
    (h' : Decides toLower ctx ips conds' Q) : Decides toLower ctx ips (conds ++ conds') (P ∧ Q) := by
  obtain ⟨b, hb, hP⟩ := h
  obtain ⟨b', hb', hQ⟩ := h'
  induction conds generalizing b with
  | nil =>
    obtain rfl := Outcome.ok.inj hb
    exact ⟨b', hb', hQ.trans (and_iff_right (hP.1 rfl)).symm⟩
  | cons cond conds ih =>
    rw [holdAll] at hb
    rw [List.cons_append]
    rcases hcond : cond.holds toLower ctx ips with (- | -) | e | - <;> rw [hcond] at hb
    · obtain rfl := Outcome.ok.inj hb
      refine ⟨false, by rw [holdAll, hcond]; rfl, ?_⟩
      rw [← hP]
      exact iff_of_false Bool.false_ne_true fun hfalse => Bool.false_ne_true hfalse.1
    · obtain ⟨b'', hb'', hiff⟩ := ih b hb hP
      exact ⟨b'', by rw [holdAll, hcond]; exact hb'', hiff⟩
    · cases hb
    · cases hb

theorem decides_texts {texts : List Bytes} {cond : List Bytes → Condition} {P : Prop}
    (h : texts ≠ [] → ∃ b, (cond (nonempty texts)).holds toLower ctx ips = .ok b ∧ (b = true ↔ P)) :
    Decides toLower ctx ips (RoutingRule.buildTexts texts cond) (texts ≠ [] → P) := by
  rw [RoutingRule.buildTexts]
  split_ifs with hlength
  · have hne := List.length_pos_iff.1 hlength
    obtain ⟨b, hb, hiff⟩ := h hne
    exact .single hb (hiff.trans ⟨fun hP _ => hP, fun hP => hP hne⟩)
  · exact .nil fun hne => absurd (List.length_pos_iff.2 hne) hlength

/-- A text that is there is one of those it is matched with. -/
theorem any_nonempty (texts : List Bytes) (text : Bytes) :
    (if text.length = 0 then false else (nonempty texts).any (· == text)) = true ↔
      text ≠ [] ∧ text ∈ texts := by
  by_cases htext : text = []
  · rw [if_pos (List.length_eq_zero_iff.2 htext)]
    exact iff_of_false Bool.false_ne_true fun h => h.1 htext
  · rw [if_neg (List.length_eq_zero_iff.not.2 htext), List.any_eq_true]
    constructor
    · rintro ⟨t, ht, heq⟩
      obtain rfl := beq_iff_eq.1 heq
      exact ⟨htext, (List.mem_filter.1 ht).1⟩
    · exact fun ⟨_, hmem⟩ => ⟨text, List.mem_filter.2 ⟨hmem, decide_eq_true (List.length_pos_iff.2 htext)⟩,
        beq_self_eq_true text⟩

theorem decides_user (rr : RoutingRule) :
    Decides toLower ctx ips (RoutingRule.buildTexts rr.userEmail .user)
      (rr.userEmail ≠ [] → ctx.user ≠ [] ∧ ctx.user ∈ rr.userEmail) :=
  decides_texts fun _ => ⟨_, rfl, any_nonempty _ _⟩

theorem decides_inboundTag (rr : RoutingRule) :
    Decides toLower ctx ips (RoutingRule.buildTexts rr.inboundTag .inboundTag)
      (rr.inboundTag ≠ [] → ctx.inboundTag ≠ [] ∧ ctx.inboundTag ∈ rr.inboundTag) :=
  decides_texts fun _ => ⟨_, rfl, any_nonempty _ _⟩

theorem decides_protocol (rr : RoutingRule) :
    Decides toLower ctx ips (RoutingRule.buildTexts rr.protocol .protocol)
      (rr.protocol ≠ [] → ctx.protocol ≠ [] ∧ ∃ p ∈ rr.protocol, p ≠ [] ∧ p <+: ctx.protocol) := by
  refine decides_texts fun _ => ⟨_, rfl, ?_⟩
  by_cases hprotocol : ctx.protocol = []
  · rw [if_pos (List.length_eq_zero_iff.2 hprotocol)]
    exact iff_of_false Bool.false_ne_true fun h => h.1 hprotocol
  · rw [if_neg (List.length_eq_zero_iff.not.2 hprotocol), List.any_eq_true]
    refine Iff.trans (exists_congr fun p => ?_) (and_iff_right hprotocol).symm
    rw [nonempty, List.mem_filter, decide_eq_true_iff, gt_iff_lt, List.length_pos_iff, and_assoc,
      List.isPrefixOf_iff_prefix]

/-- The ports of the configuration are matched on 16 bits. -/
theorem contains_portListFromProto (list : List Conf.PortRange) (port : UInt16) :
    (Conf.portListFromProto list).contains port = true ↔
      ∃ range ∈ list, range.fromPort.toUInt16 ≤ port ∧ port ≤ range.toPort.toUInt16 := by
  rw [Conf.MemoryPortList.contains, Conf.portListFromProto, List.any_map, List.any_eq_true]
  refine exists_congr fun range => and_congr_right fun _ => ?_
  rw [Function.comp_apply, Conf.MemoryPortRange.contains, Bool.and_eq_true, decide_eq_true_iff,
    decide_eq_true_iff]

theorem forall_mem_some {α : Type} {x : α} {P : α → Prop} : (∀ y ∈ some x, P y) ↔ P x :=
  ⟨fun h => h x rfl, fun h _ hy => Option.some.inj hy ▸ h⟩

theorem decides_port (list : Option (List Conf.PortRange)) (onSource : Bool) :
    Decides toLower ctx ips (RoutingRule.buildPort list onSource)
      (∀ l ∈ list, ∃ range ∈ l,
        range.fromPort.toUInt16 ≤ (if onSource then ctx.sourcePort else ctx.targetPort) ∧
        (if onSource then ctx.sourcePort else ctx.targetPort) ≤ range.toPort.toUInt16) := by
  rcases list with - | l
  · exact .nil fun _ h => nomatch h
  · refine .single rfl ?_
    rw [forall_mem_some, ← contains_portListFromProto]
    rcases onSource with - | - <;> rfl

/-! ## Networks -/

theorem newNetworkMatcher_spec {networks : List ℤ} {list list' : List Bool}
    (h : newNetworkMatcher list networks = .ok list') (hlength : list.length = 8) {n : ℕ} (hn : n < 8) :
    ∃ b, list[n]? = some b ∧ list'[n]? = some (b || decide ((n : ℤ) ∈ networks)) := by
  induction networks generalizing list with
  | nil =>
    obtain rfl := Outcome.ok.inj h
    refine ⟨list[n], List.getElem?_eq_getElem (hlength ▸ hn), ?_⟩
    rw [decide_eq_false List.not_mem_nil, Bool.or_false]
    exact List.getElem?_eq_getElem (hlength ▸ hn)
  | cons m networks ih =>
    rw [newNetworkMatcher] at h
    split_ifs at h with hm
    obtain ⟨b, hb, hb'⟩ := ih h (by rw [List.length_set, hlength])
    refine ⟨list[n], List.getElem?_eq_getElem (hlength ▸ hn), ?_⟩
    have hmem : decide ((n : ℤ) ∈ m :: networks) =
        (decide ((n : ℤ) = m) || decide ((n : ℤ) ∈ networks)) := by
      rw [← Bool.decide_or]
      exact decide_eq_decide.2 List.mem_cons
    rw [hb', hmem]
    by_cases hmn : m.toNat = n
    · -- the number of this network is marked, and stays so
      have hnm : (n : ℤ) = m := by omega
      rw [List.getElem?_set, if_pos hmn, if_pos (by omega)] at hb
      obtain rfl := Option.some.inj hb
      rw [decide_eq_true hnm, Bool.true_or, Bool.or_true]
    · have hnm : (n : ℤ) ≠ m := by omega
      rw [List.getElem?_set, if_neg hmn, List.getElem?_eq_getElem (hlength ▸ hn)] at hb
      obtain rfl := Option.some.inj hb
      rw [decide_eq_false hnm, Bool.false_or]

theorem networkNumber_lt (network : Network) : networkNumber network < 8 := by
  cases network <;> decide

theorem decides_network {networks : Option (List ℤ)} {conds : List Condition}
    (h : RoutingRule.buildNetwork networks = .ok conds) :
    Decides toLower ctx ips conds (∀ l ∈ networks, (networkNumber ctx.network : ℤ) ∈ l) := by
  rcases networks with - | l
  · obtain rfl := Outcome.ok.inj h
    exact .nil fun _ h => nomatch h
  · obtain ⟨list, hlist, rfl⟩ := Outcome.map_eq_ok.1 h
    have hnumber := networkNumber_lt ctx.network
    obtain ⟨b, hb, hb'⟩ := newNetworkMatcher_spec hlist List.length_replicate hnumber
    rw [List.getElem?_replicate, if_pos hnumber] at hb
    obtain rfl := Option.some.inj hb
    refine .single (b := decide ((networkNumber ctx.network : ℤ) ∈ l)) ?_ ?_
    · rw [Condition.holds, hb', Bool.false_or]
    · rw [decide_eq_true_iff, forall_mem_some]

/-! ## Domains, addresses and attributes -/

theorem decides_domain (ctx : RoutingContext) (ips : List Bytes) {env : Environment} {rr : RoutingRule} (hlinear : rr.isHybrid = false)
    {conds : List Condition} (h : rr.buildDomain env = .ok conds) :
    Decides env.toLower ctx ips conds (rr.domain ≠ [] → ctx.targetDomain ≠ [] ∧
      ∃ d ∈ rr.domain, Tells env.compile d (env.toLower ctx.targetDomain)) := by
  rw [RoutingRule.buildDomain, hlinear, if_neg Bool.false_ne_true] at h
  split_ifs at h with hdomain
  · rcases hm : newDomainMatcher env.compile rr.domain with e | m <;> rw [hm] at h
    · cases h
    obtain rfl := Outcome.ok.inj h
    have hne := List.length_pos_iff.1 hdomain
    obtain ⟨found, hfound, hiff⟩ := applyDomain_linear env.toLower hm ctx.targetDomain
    by_cases htarget : ctx.targetDomain = []
    · refine .single (if_pos (List.length_eq_zero_iff.2 htarget)) ?_
      exact iff_of_false Bool.false_ne_true fun h => (h hne).1 htarget
    · refine .single ((if_neg (List.length_eq_zero_iff.not.2 htarget)).trans hfound) (hiff.trans ?_)
      exact ⟨fun h _ => ⟨htarget, h⟩, fun h => (h hne).2⟩
  · obtain rfl := Outcome.ok.inj h
    exact .nil fun hne => absurd (List.length_pos_iff.2 hne) hdomain

theorem decides_geoIP (toLower : Bytes → Bytes) (ctx : RoutingContext) (ips : List Bytes) {geoips list : List Dns.GeoIP} (hcoherent : AreCoherent geoips)
    (hlist : ∀ g ∈ list, g ∈ geoips) {container container' : Container}
    (hof : container.IsOf geoips) {onSource : Bool} {conds : List Condition}
    (h : RoutingRule.buildGeoIP container list onSource = .ok (conds, container')) :
    Decides toLower ctx ips conds
        (list ≠ [] → IncludesAny list (if onSource then ctx.sourceIPs else ips)) ∧
      container'.IsOf geoips := by
  rw [RoutingRule.buildGeoIP] at h
  split_ifs at h with hlength
  · rcases hm : newMultiGeoIPMatcher container list with e | ⟨ms, container₁⟩ <;> rw [hm] at h
    · cases h
    obtain ⟨rfl, rfl⟩ := Prod.mk.inj (Outcome.ok.inj h)
    obtain ⟨hinit, hof'⟩ := newMultiGeoIPMatcher_spec hcoherent hlist hof hm
    have hne := List.length_pos_iff.1 hlength
    refine ⟨.single rfl ?_, hof'⟩
    refine Iff.trans ?_ (forall_prop_of_true hne).symm
    rw [← matchIPs_iff hinit]
    rcases onSource with - | - <;> rfl
  · obtain ⟨rfl, rfl⟩ := Prod.mk.inj (Outcome.ok.inj h)
    exact ⟨.nil fun hne => absurd (List.length_pos_iff.2 hne) hlength, hof⟩

theorem decides_attributes {env : Environment} {rr : RoutingRule} {conds : List Condition}
    (h : rr.buildAttributes env = .ok conds) :
    Decides toLower ctx ips conds (rr.attributes ≠ [] →
      ∃ program, env.compileAttributes rr.attributes = .ok program ∧
        ∃ attributes ∈ ctx.attributes, program attributes = true) := by
  rw [RoutingRule.buildAttributes] at h
  split_ifs at h with hattributes
  · rcases hprogram : env.compileAttributes rr.attributes with e | program <;> rw [hprogram] at h
    · cases h
    obtain rfl := Outcome.ok.inj h
    have hne := List.length_pos_iff.1 hattributes
    refine .single rfl ?_
    rcases hctx : ctx.attributes with - | attributes
    · refine iff_of_false Bool.false_ne_true fun h => ?_
      obtain ⟨_, _, _, hnone, _⟩ := h hne
      cases hnone
    · refine ⟨fun h _ => ⟨program, rfl, attributes, rfl, h⟩, fun h => ?_⟩
      obtain ⟨_, hsame, _, hsome, hsatisfied⟩ := h hne
      obtain rfl := Except.ok.inj hsame
      obtain rfl := Option.some.inj hsome
      exact hsatisfied
  · obtain rfl := Outcome.ok.inj h
    exact .nil fun hne => absurd (List.length_pos_iff.2 hne) hattributes

/-- The networks that a rule adds to the container. -/
def RoutingRule.allGeoIPs (rr : RoutingRule) : List Dns.GeoIP :=
  RoutingRule.geoIPs rr.geoip rr.cidr ++ RoutingRule.geoIPs rr.sourceGeoip rr.sourceCidr

/-- The conditions of a rule say whether it matches. -/
theorem buildCondition_spec (ctx : RoutingContext) (ips : List Bytes) {env : Environment} {rr : RoutingRule} (hlinear : rr.isHybrid = false)
    {geoips : List Dns.GeoIP} (hcoherent : AreCoherent geoips) (hlist : ∀ g ∈ rr.allGeoIPs, g ∈ geoips)
    {container container' : Container} (hof : container.IsOf geoips) {conds : List Condition}
    (h : rr.buildCondition env container = .ok (conds, container')) :
    Decides env.toLower ctx ips conds (rr.Matches env ctx ips) ∧ container'.IsOf geoips := by
  obtain ⟨domain, hdomain, h⟩ := Outcome.bind_eq_ok.1 h
  obtain ⟨network, hnetwork, h⟩ := Outcome.bind_eq_ok.1 h
  obtain ⟨⟨geoip, container₁⟩, hgeoip, h⟩ := Outcome.bind_eq_ok.1 h
  obtain ⟨⟨sourceGeoip, container₂⟩, hsource, h⟩ := Outcome.bind_eq_ok.1 h
  obtain ⟨attributes, hattributes, h⟩ := Outcome.bind_eq_ok.1 h
  dsimp only at h
  split_ifs at h with hlength
  obtain ⟨rfl, rfl⟩ := Prod.mk.inj (Outcome.ok.inj h)
  obtain ⟨hgeoip, hof₁⟩ := decides_geoIP env.toLower ctx ips hcoherent
    (fun g hg => hlist g (List.mem_append_left _ hg)) hof hgeoip
  obtain ⟨hsource, hof₂⟩ := decides_geoIP env.toLower ctx ips hcoherent
    (fun g hg => hlist g (List.mem_append_right _ hg)) hof₁ hsource
  refine ⟨?_, hof₂⟩
  obtain ⟨b, hb, hiff⟩ := (((((((((decides_domain ctx ips hlinear hdomain).append
    (decides_user rr)).append (decides_inboundTag rr)).append (decides_port rr.targetPorts false)).append
    (decides_port rr.sourcePortList true)).append (decides_network hnetwork)).append hgeoip).append
    hsource).append (decides_protocol rr)).append (decides_attributes hattributes)
  refine ⟨b, hb, hiff.trans ⟨?_, ?_⟩⟩
  · rintro ⟨⟨⟨⟨⟨⟨⟨⟨⟨h₁, h₂⟩, h₃⟩, h₄⟩, h₅⟩, h₆⟩, h₇⟩, h₈⟩, h₉⟩, h₁₀⟩
    exact ⟨h₁, h₂, h₃, h₄, h₅, h₆, h₇, h₈, h₉, h₁₀⟩
  · rintro ⟨h₁, h₂, h₃, h₄, h₅, h₆, h₇, h₈, h₉, h₁₀⟩
    exact ⟨⟨⟨⟨⟨⟨⟨⟨⟨h₁, h₂⟩, h₃⟩, h₄⟩, h₅⟩, h₆⟩, h₇⟩, h₈⟩, h₉⟩, h₁₀⟩

end

/-! ## The router of a configuration -/

/-- The last balancer of a tag is found. -/
theorem buildBalancers_apply (rules : List BalancingRule) (tag : Bytes) :
    buildBalancers rules tag =
      (rules.filter fun rule => rule.tag = tag).getLast?.map fun rule => ⟨rule.outboundSelector⟩ := by
  induction rules using List.reverseRecOn with
  | nil => rfl
  | append_singleton rules rule ih =>
    rw [buildBalancers, List.foldl_append, List.foldl_cons, List.foldl_nil, List.filter_append]
    change Function.update (buildBalancers rules) _ _ _ = _
    by_cases htag : rule.tag = tag
    · have hlast : ([rule].filter fun rule => rule.tag = tag) = [rule] :=
        List.filter_cons_of_pos (by exact decide_eq_true htag)
      rw [htag, Function.update_self, hlast, List.getLast?_concat]
      rfl
    · have hlast : ([rule].filter fun rule => rule.tag = tag) = [] :=
        List.filter_cons_of_neg (by exact fun h => htag (of_decide_eq_true h))
      rw [Function.update_of_ne (Ne.symm htag), ih, hlast, List.append_nil]

/-- The rule of the router does what the one of the configuration says. -/
structure IsCompiled (env : Environment) (config : Config) (rr : RoutingRule) (rule : Rule) : Prop where
  condition (ctx : RoutingContext) (ips : List Bytes) :
    Decides env.toLower ctx ips rule.condition (rr.Matches env ctx ips)
  getTag (o : Outbounds) : rule.getTag o = config.outboundTag o rr

theorem getTag_eq {config : Config} {rr : RoutingRule} {balancer : Option Balancer}
    (h : findBalancer (buildBalancers config.balancingRule) rr.getBalancingTag = .ok balancer)
    (condition : List Condition) (o : Outbounds) :
    Rule.getTag { tag := rr.getTag, balancer, condition } o = config.outboundTag o rr := by
  rw [Rule.getTag, Config.outboundTag]
  rw [findBalancer, RoutingRule.getBalancingTag, buildBalancers_apply] at h
  rw [RoutingRule.getTag]
  generalize rr.targetTag = target at h ⊢
  rcases target with - | tag | (- | ⟨b, tag⟩)
  · obtain rfl := Outcome.ok.inj h
    rfl
  · obtain rfl := Outcome.ok.inj h
    rfl
  · obtain rfl := Outcome.ok.inj h
    rfl
  · dsimp only at h ⊢
    rw [if_pos (List.length_pos_of_ne_nil (List.cons_ne_nil b tag))] at h
    rcases hlast : (config.balancingRule.filter fun rule => rule.tag = b :: tag).getLast? with - | rule <;>
      rw [hlast] at h
    · cases h
    · obtain rfl := Outcome.ok.inj h
      rw [hlast]

theorem initRules_spec {env : Environment} {config : Config} {geoips : List Dns.GeoIP}
    (hcoherent : AreCoherent geoips) {rrs : List RoutingRule}
    (hlinear : ∀ rr ∈ rrs, rr.isHybrid = false) (hlist : ∀ rr ∈ rrs, ∀ g ∈ rr.allGeoIPs, g ∈ geoips)
    {container container' : Container} (hof : container.IsOf geoips) {rules : List Rule}
    (h : initRules env (buildBalancers config.balancingRule) rrs container = .ok (rules, container')) :
    List.Forall₂ (IsCompiled env config) rrs rules ∧ container'.IsOf geoips := by
  induction rrs generalizing container rules with
  | nil =>
    obtain ⟨rfl, rfl⟩ := Prod.mk.inj (Outcome.ok.inj h)
    exact ⟨.nil, hof⟩
  | cons rr rrs ih =>
    obtain ⟨⟨condition, container₁⟩, hcondition, h⟩ := Outcome.bind_eq_ok.1 h
    obtain ⟨balancer, hbalancer, h⟩ := Outcome.bind_eq_ok.1 h
    obtain ⟨⟨rules', container₂⟩, hrest, h⟩ := Outcome.bind_eq_ok.1 h
    obtain ⟨rfl, rfl⟩ := Prod.mk.inj (Outcome.ok.inj h)
    have hrr (ctx : RoutingContext) (ips : List Bytes) := buildCondition_spec ctx ips
      (hlinear rr List.mem_cons_self) hcoherent (hlist rr List.mem_cons_self) hof hcondition
    obtain ⟨hall, hof'⟩ := ih (fun rr hrr => hlinear rr (List.mem_cons_of_mem _ hrr))
      (fun rr hrr => hlist rr (List.mem_cons_of_mem _ hrr)) (hrr {} []).2 hrest
    exact ⟨.cons ⟨fun ctx ips => (hrr ctx ips).1, getTag_eq hbalancer condition⟩ hall, hof'⟩

open Classical in
/-- The first rule of the router that holds is compiled from the first one that matches. -/
theorem findRule_spec {env : Environment} {config : Config} {rrs : List RoutingRule} {rules : List Rule}
    (h : List.Forall₂ (IsCompiled env config) rrs rules) (ctx : RoutingContext) (ips : List Bytes) :
    ∃ rule, findRule env.toLower ctx ips rules = .ok rule ∧
      Option.Rel (IsCompiled env config) (rrs.find? fun rr => rr.Matches env ctx ips) rule := by
  induction h with
  | nil => exact ⟨none, rfl, .none⟩
  | @cons rr rule rrs rules hrr hrest ih =>
    obtain ⟨b, hb, hiff⟩ := hrr.condition ctx ips
    rw [findRule, hb, List.find?_cons]
    rcases b with - | -
    · rw [decide_eq_false fun hmatches => Bool.false_ne_true (hiff.2 hmatches)]
      exact ih
    · rw [decide_eq_true (hiff.1 rfl)]
      exact ⟨some rule, rfl, .some hrr⟩

open Classical in
theorem pickRule_spec {env : Environment} {config : Config} {rules : List Rule}
    (h : List.Forall₂ (IsCompiled env config) config.rule rules) (ctx : RoutingContext)
    (a : Except Error (List Bytes)) :
    ∃ rule, pickRule env.toLower ⟨config.domainStrategy, rules⟩ ctx a = .ok rule ∧
      Option.Rel (IsCompiled env config) (config.route env ctx a) rule := by
  rw [pickRule, Config.route]
  dsimp only
  by_cases hdemand : config.domainStrategy = .ipOnDemand ∧ ctx.skipDNSResolve = false
  · rw [if_pos hdemand, if_pos ⟨hdemand.1, (Bool.not_eq_true _).symm ▸ hdemand.2⟩]
    exact findRule_spec h ctx _
  · rw [if_neg hdemand, if_neg fun hdemand' => hdemand ⟨hdemand'.1, (Bool.not_eq_true _) ▸ hdemand'.2⟩]
    obtain ⟨first, hfirst, hrel⟩ := findRule_spec h ctx ctx.targetIPs
    rw [hfirst]
    generalize (config.rule.find? fun rr => rr.Matches env ctx ctx.targetIPs) = o at hrel ⊢
    by_cases hagain : config.domainStrategy = .ipIfNonMatch ∧ ctx.targetDomain ≠ [] ∧
        ctx.skipDNSResolve = false
    · rw [if_pos hagain]
      rcases hrel with hrel | -
      · exact ⟨_, rfl, .some hrel⟩
      · have hpass : ¬ (config.domainStrategy ≠ .ipIfNonMatch ∨ ctx.targetDomain.length = 0 ∨
            ctx.skipDNSResolve = true) := by
          rw [not_or, not_or, not_not, List.length_eq_zero_iff, Bool.not_eq_true]
          exact hagain
        exact ⟨_, (if_neg hpass).trans (findRule_spec h ctx _).choose_spec.1,
          (findRule_spec h ctx _).choose_spec.2⟩
    · rw [if_neg hagain]
      rcases hrel with hrel | -
      · exact ⟨_, rfl, .some hrel⟩
      · have hpass : config.domainStrategy ≠ .ipIfNonMatch ∨ ctx.targetDomain.length = 0 ∨
            ctx.skipDNSResolve = true := by
          rw [List.length_eq_zero_iff, ← Bool.not_eq_false]
          by_contra hnot
          rw [not_or, not_or, not_not, not_not] at hnot
          exact hagain hnot
        exact ⟨none, if_pos hpass, .none⟩

/-- Domains of one name, and private addresses. -/
def exampleConfig : Config where
  domainStrategy := .ipIfNonMatch
  rule := [{ targetTag := .tag (ascii "proxy"), domain := [⟨.full, ascii "example.com"⟩] },
    { targetTag := .tag (ascii "private"), geoip := [⟨ascii "private", [⟨[10, 0, 0, 0], 8⟩], false⟩] }]

def exampleEnvironment : Environment where
  toLower := List.map Strmatcher.lower
  compile := noRegex
  newMphMatcherGroup _ := .panic
  compileAttributes _ := .error (.new [])

/-- A client that counts what it is asked. -/
def countingClient (ips : List Bytes) : DnsClient ℕ where
  lookupIP n _ := (.ok ips, n + 1)

end Gzv2ray.Router
