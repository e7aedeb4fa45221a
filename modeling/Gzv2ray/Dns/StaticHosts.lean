import Gzv2ray.Dns.Clients

/-!
# Static hosts

Some domains have addresses that are configured, or another domain in their place. What is found
for that one is taken instead, and so on, five times over.

* `newStaticHosts`: the hosts of a configuration;
* `StaticHosts.lookup`: the addresses of a domain, or the domain that it is replaced with;
* `lookupInternal_new`: what is stored for a domain is what all its mappings give;
* `lookup_new_iff`: the domain is followed until there are addresses, or nothing, or six
  replacements have been made.

A replacement that comes beside any address, or beside another replacement, is not followed: only
the addresses are taken (`HostAnswer`).
-/

namespace Gzv2ray.Dns

open Strmatcher

/-! ## Configuration -/

/-- `Config_HostMapping` -/
structure HostMapping where
  type : DomainMatchingType
  domain : Bytes
  ip : List Bytes := []
  proxiedDomain : Bytes := []

/-- `net.IPOrDomain` -/
inductive IPOrDomain
  | none
  | ip (b : Bytes)
  | domain (name : Bytes)

/-- `AsAddress`. No address is made of bytes of another length than that of an address. -/
def IPOrDomain.asAddress : IPOrDomain → Outcome (Option Address)
  | .none => .panic
  | .ip b => .ok (ipAddress b)
  | .domain name => .ok (some (.domain name))

/-- A matcher, and the addresses of the domains that match. -/
structure HostEntry where
  matcher : Matcher
  addresses : List Address

def invalidDomain : Error := .new (ascii "invalid domain address in static hosts")

def invalidIP : Error := .new (ascii "invalid IP address in static hosts")

def noHostAddress : Error := .new (ascii "neither IP address nor proxied domain specified for domain")

/-- A mapping of the legacy form. The family of no address is not there to be asked for. -/
def legacyEntry (domain : Bytes) (ip : IPOrDomain) : Outcome HostEntry :=
  ip.asAddress.bind fun address =>
    match address with
    | none => .panic
    | some address =>
      if address.family = .domain then .error invalidDomain else .ok ⟨.full domain, [address]⟩

/-- The loop over the addresses of a mapping. -/
def mappingIPs : List Bytes → Except Error (List Address)
  | [] => .ok []
  | ip :: ips =>
    match ipAddress ip with
    | none => .error invalidIP
    | some addr => (mappingIPs ips).map (addr :: ·)

def localHostIP : Address := .ofIPv4Bytes 127 0 0 1

def localHostIPv6 : Address := .ipv6 ⟨[0, 0, 0, 0, 0, 0, 0, 0, 0, 0, 0, 0, 0, 0, 0, 1], rfl⟩

/-- The addresses of a mapping. That of the local host stands for both families. -/
def mappingAddresses (mapping : HostMapping) : Except Error (List Address) :=
  let ips :=
    if mapping.ip.length > 0 then mappingIPs mapping.ip
    else if mapping.proxiedDomain.length > 0 then .ok [.domain mapping.proxiedDomain]
    else .error noHostAddress
  ips.map fun ips => if ips = [localHostIP] then ips ++ [localHostIPv6] else ips

def mappingEntry (compile : Bytes → Except Error (Bytes → Bool)) (mapping : HostMapping) :
    Except Error HostEntry :=
  match toStrMatcher compile ⟨mapping.type, mapping.domain⟩ with
  | .error _ => .error (.new (ascii "failed to create domain matcher"))
  | .ok (matcher, _) => (mappingAddresses mapping).map fun addresses => ⟨matcher, addresses⟩

structure StaticHosts where
  ips : List (List Address)
  matchers : MatcherGroup := {}

/-- The addresses are stored under the id of the matcher. -/
def StaticHosts.add (h : StaticHosts) (e : HostEntry) : Outcome StaticHosts :=
  let (id, matchers) := h.matchers.add e.matcher
  if id.toNat < h.ips.length then .ok { ips := h.ips.set id.toNat e.addresses, matchers } else .panic

/-- The loop over the legacy mappings, in the order in which the map ranges over them. -/
def addLegacy (h : StaticHosts) : List (Bytes × IPOrDomain) → Outcome StaticHosts
  | [] => .ok h
  | (domain, ip) :: legacy =>
    (legacyEntry domain ip).bind fun e => (h.add e).bind fun h => addLegacy h legacy

/-- The loop over the mappings. -/
def addHosts (compile : Bytes → Except Error (Bytes → Bool)) (h : StaticHosts) :
    List HostMapping → Outcome StaticHosts
  | [] => .ok h
  | mapping :: hosts =>
    match mappingEntry compile mapping with
    | .error e => .error e
    | .ok e => (h.add e).bind fun h => addHosts compile h hosts

def newStaticHosts (compile : Bytes → Except Error (Bytes → Bool)) (hosts : List HostMapping)
    (legacy : List (Bytes × IPOrDomain)) : Outcome StaticHosts :=
  (addLegacy { ips := List.replicate (hosts.length + legacy.length + 16) [] } legacy).bind fun h =>
    addHosts compile h hosts

/-! ## Looking up -/

def filterIP (ips : List Address) (option : IPOption) : List Address :=
  ips.filter fun ip =>
    (ip.family = .ipv4 && option.ipv4Enable) || (ip.family = .ipv6 && option.ipv6Enable)

namespace StaticHosts

variable (h : StaticHosts)

/-- The addresses that are stored under some ids. -/
def collectIPs : List UInt32 → Outcome (List Address)
  | [] => .ok []
  | id :: ids =>
    match h.ips[id.toNat]? with
    | none => .panic
    | some ips => (collectIPs ids).map (ips ++ ·)

def lookupInternal (domain : Bytes) : Outcome (List Address) :=
  h.collectIPs (h.matchers.matchIds domain)

/-- `lookup`, with how many replacements may still be looked up. `none` is `nil`. -/
def lookupDepth (option : IPOption) : ℕ → Bytes → Outcome (Option (List Address))
  | 0, domain =>
    (h.lookupInternal domain).map fun addrs =>
      match addrs with
      | [] => none
      | [.domain name] => some [.domain name]
      | addrs => some (filterIP addrs option)
  | maxDepth + 1, domain =>
    (h.lookupInternal domain).bind fun addrs =>
      match addrs with
      | [] => .ok none
      | [.domain name] =>
        (lookupDepth option maxDepth name).map fun unwrapped => some (unwrapped.getD [.domain name])
      | addrs => .ok (some (filterIP addrs option))

def lookup (domain : Bytes) (option : IPOption) : Outcome (Option (List Address)) :=
  h.lookupDepth option 5 domain

end StaticHosts

/-! ## Replacements -/

/-- The domain has been replaced as often, by what is recorded of domains. -/
inductive Leads (records : Bytes → List Address) : ℕ → Bytes → Bytes → Prop
  | refl (domain : Bytes) : Leads records 0 domain domain
  | step {n : ℕ} {domain name last : Bytes} :
    records domain = [.domain name] → Leads records n name last → Leads records (n + 1) domain last

/-- What is found for a domain, if as many replacements may be looked up. -/
inductive HostAnswer (records : Bytes → List Address) (option : IPOption) (depth : ℕ) (domain : Bytes) :
    Option (List Address) → Prop
  /-- Nothing is recorded. -/
  | missing : records domain = [] → HostAnswer records option depth domain none
  /-- There are addresses, or several replacements, of which the addresses of the families that are
      enabled are taken. -/
  | found {n : ℕ} {last : Bytes} :
    n ≤ depth → Leads records n domain last → records last ≠ [] →
    (∀ name, records last ≠ [.domain name]) →
    HostAnswer records option depth domain (some (filterIP (records last) option))
  /-- There is a replacement that is not recorded, or not looked up. -/
  | replaced {n : ℕ} {last : Bytes} :
    0 < n → n ≤ depth + 1 → Leads records n domain last → (records last = [] ∨ n = depth + 1) →
    HostAnswer records option depth domain (some [.domain last])

section

variable {records : Bytes → List Address} {option : IPOption} {depth : ℕ} {domain name : Bytes}
  {r : Option (List Address)}

theorem hostAnswer_nil (h : records domain = []) : HostAnswer records option depth domain r ↔ r = none := by
  constructor
  · rintro (- | ⟨-, hleads, hne, -⟩ | ⟨hpos, -, hleads, -⟩)
    · rfl
    · rcases hleads with _ | ⟨hrecords, -⟩
      · exact absurd h hne
      · cases h.symm.trans hrecords
    · rcases hleads with _ | ⟨hrecords, -⟩
      · exact absurd hpos (lt_irrefl 0)
      · cases h.symm.trans hrecords
  · rintro rfl
    exact .missing h

theorem hostAnswer_found (hne : records domain ≠ []) (h : ∀ name, records domain ≠ [.domain name]) :
    HostAnswer records option depth domain r ↔ r = some (filterIP (records domain) option) := by
  constructor
  · rintro (hnil | ⟨-, hleads, -, -⟩ | ⟨hpos, -, hleads, -⟩)
    · exact absurd hnil hne
    · rcases hleads with _ | ⟨hrecords, -⟩
      · rfl
      · exact absurd hrecords (h _)
    · rcases hleads with _ | ⟨hrecords, -⟩
      · exact absurd hpos (lt_irrefl 0)
      · exact absurd hrecords (h _)
  · rintro rfl
    exact .found (Nat.zero_le _) (.refl _) hne h

/-- The last replacement is not looked up. -/
theorem hostAnswer_zero (h : records domain = [.domain name]) :
    HostAnswer records option 0 domain r ↔ r = some [.domain name] := by
  constructor
  · rintro (hnil | ⟨hle, hleads, -, hnot⟩ | ⟨hpos, hle, hleads, -⟩)
    · cases h.symm.trans hnil
    · rcases hleads with _ | -
      · exact absurd h (hnot _)
      · exact absurd hle (Nat.not_succ_le_zero _)
    · rcases hleads with _ | ⟨hrecords, hleads⟩
      · exact absurd hpos (lt_irrefl 0)
      · cases h.symm.trans hrecords
        obtain rfl := Nat.le_zero.1 (Nat.le_of_succ_le_succ hle)
        cases hleads
        rfl
  · rintro rfl
    exact .replaced one_pos le_rfl (.step h (.refl _)) (.inr rfl)

/-- What is found for the replacement is taken, if anything is. -/
theorem hostAnswer_succ (h : records domain = [.domain name]) :
    HostAnswer records option (depth + 1) domain r ↔
      ∃ unwrapped, HostAnswer records option depth name unwrapped ∧
        r = some (unwrapped.getD [.domain name]) := by
  constructor
  · rintro (hnil | ⟨hle, hleads, hne, hnot⟩ | ⟨hpos, hle, hleads, hlast⟩)
    · cases h.symm.trans hnil
    · rcases hleads with _ | ⟨hrecords, hleads⟩
      · exact absurd h (hnot _)
      · cases h.symm.trans hrecords
        exact ⟨_, .found (Nat.le_of_succ_le_succ hle) hleads hne hnot, rfl⟩
    · rcases hleads with _ | ⟨hrecords, hleads⟩
      · exact absurd hpos (lt_irrefl 0)
      · cases h.symm.trans hrecords
        rcases hleads with _ | ⟨hrecords', hleads'⟩
        · -- the first replacement is the last one: nothing is recorded of it
          have hnil := hlast.resolve_right (by omega)
          exact ⟨none, .missing hnil, rfl⟩
        · exact ⟨_, .replaced (Nat.succ_pos _) (Nat.le_of_succ_le_succ hle) (.step hrecords' hleads')
            (hlast.imp_right Nat.succ.inj), rfl⟩
  · rintro ⟨unwrapped, hunwrapped, rfl⟩
    rcases hunwrapped with hnil | ⟨hle, hleads, hne, hnot⟩ | ⟨hpos, hle, hleads, hlast⟩
    · exact .replaced one_pos (by omega) (.step h (.refl _)) (.inl hnil)
    · exact .found (Nat.succ_le_succ hle) (.step h hleads) hne hnot
    · exact .replaced (Nat.succ_pos _) (Nat.succ_le_succ hle) (.step h hleads)
        (hlast.imp_right (congrArg Nat.succ))

end

section

variable {h : StaticHosts} {option : IPOption} {domain : Bytes} {addrs : List Address}

/-- Addresses that are not a single replacement are taken, as far as they are enabled. -/
theorem lookupDepth_found (hlookup : h.lookupInternal domain = .ok addrs) (hne : addrs ≠ [])
    (hnot : ∀ name, addrs ≠ [.domain name]) (depth : ℕ) :
    h.lookupDepth option depth domain = .ok (some (filterIP addrs option)) := by
  rcases depth with - | depth <;> rw [StaticHosts.lookupDepth, hlookup] <;>
    rcases addrs with - | ⟨a, - | ⟨b, addrs⟩⟩
  any_goals exact absurd rfl hne
  all_goals
    rcases a with ip | ip | name
    · rfl
    · rfl
    · first | rfl | exact absurd rfl (hnot name)

theorem ok_eq_ok_iff {α : Type} {a b : α} : Outcome.ok a = .ok b ↔ b = a :=
  ⟨fun h => (Outcome.ok.inj h).symm, fun h => h ▸ rfl⟩

/-- The domain is followed as far as may be. -/
theorem lookupDepth_iff {records : Bytes → List Address}
    (hrecords : ∀ domain, h.lookupInternal domain = .ok (records domain)) (depth : ℕ) (domain : Bytes)
    (r : Option (List Address)) :
    h.lookupDepth option depth domain = .ok r ↔ HostAnswer records option depth domain r := by
  induction depth generalizing domain r with
  | zero =>
    by_cases hnil : records domain = []
    · rw [hostAnswer_nil hnil, StaticHosts.lookupDepth, hrecords, hnil]
      exact ok_eq_ok_iff
    by_cases hname : ∃ name, records domain = [.domain name]
    · obtain ⟨name, hname⟩ := hname
      rw [hostAnswer_zero hname, StaticHosts.lookupDepth, hrecords, hname]
      exact ok_eq_ok_iff
    · rw [not_exists] at hname
      rw [hostAnswer_found hnil hname, lookupDepth_found (hrecords domain) hnil hname]
      exact ok_eq_ok_iff
  | succ depth ih =>
    by_cases hnil : records domain = []
    · rw [hostAnswer_nil hnil, StaticHosts.lookupDepth, hrecords, hnil]
      exact ok_eq_ok_iff
    by_cases hname : ∃ name, records domain = [.domain name]
    · obtain ⟨name, hname⟩ := hname
      rw [hostAnswer_succ hname, StaticHosts.lookupDepth, hrecords, hname]
      refine Outcome.map_eq_ok.trans (exists_congr fun unwrapped => ?_)
      rw [ih name unwrapped]
      exact and_congr_right fun _ => eq_comm
    · rw [not_exists] at hname
      rw [hostAnswer_found hnil hname, lookupDepth_found (hrecords domain) hnil hname]
      exact ok_eq_ok_iff

end

/-! ## What is recorded -/

/-- What all mappings whose domains match give. -/
def recordsOf (entries : List HostEntry) (domain : Bytes) : List Address :=
  (entries.filter fun e => MatcherGroup.tells e.matcher domain).flatMap HostEntry.addresses

/-- The hosts hold some entries, with room for as many as there are. -/
structure StaticHosts.Holds (h : StaticHosts) (entries : List HostEntry) (room : ℕ) : Prop where
  matchers : h.matchers = (MatcherGroup.addAll (entries.map HostEntry.matcher) {}).2
  length : h.ips.length = room
  ips : entries.length < 2 ^ 32 → ∀ i e, entries[i]? = some e → h.ips[i + 1]? = some e.addresses

theorem StaticHosts.Holds.add {h : StaticHosts} {entries : List HostEntry} {room : ℕ}
    (hholds : h.Holds entries room) (e : HostEntry) (hroom : entries.length + 1 < room) :
    ∃ h', h.add e = .ok h' ∧ h'.Holds (entries ++ [e]) room := by
  have hzero : ({} : MatcherGroup).count = 0 := rfl
  have hid : (h.matchers.add e.matcher).1.toNat = (entries.length + 1) % 2 ^ 32 := by
    rw [MatcherGroup.add_fst, hholds.matchers, MatcherGroup.count_addAll, List.length_map, hzero,
      UInt32.zero_add, UInt32.toNat_add, UInt32.toNat_ofNat', UInt32.toNat_one, Nat.mod_add_mod]
  have hlt : (h.matchers.add e.matcher).1.toNat < h.ips.length := by
    rw [hid, hholds.length]
    exact (Nat.mod_le _ _).trans_lt hroom
  refine ⟨_, if_pos hlt, ?_, ?_, fun hlength i e' he' => ?_⟩
  · rw [List.map_append, MatcherGroup.addAll_append, ← hholds.matchers]
    rfl
  · exact List.length_set.trans hholds.length
  · rw [List.length_append, List.length_singleton] at hlength
    rw [Nat.mod_eq_of_lt hlength] at hid
    change (h.ips.set (h.matchers.add e.matcher).1.toNat e.addresses)[i + 1]? = _
    rw [hid]
    rcases Nat.lt_trichotomy i entries.length with hi | rfl | hi
    · rw [List.getElem?_append_left hi] at he'
      rw [List.getElem?_set_ne (by omega)]
      exact hholds.ips (by omega) i e' he'
    · rw [List.getElem?_append_right le_rfl, Nat.sub_self] at he'
      obtain rfl := Option.some.inj he'
      exact List.getElem?_set_self (hholds.length ▸ hroom)
    · rw [List.getElem?_eq_none (by simpa using hi)] at he'
      cases he'

/-- Where each id has its addresses, what is collected is that of all. -/
theorem collectIPs_eq {h : StaticHosts} {f : UInt32 → List Address} {ids : List UInt32}
    (hids : ∀ id ∈ ids, h.ips[id.toNat]? = some (f id)) : h.collectIPs ids = .ok (ids.flatMap f) := by
  induction ids with
  | nil => rfl
  | cons id ids ih =>
    rw [List.forall_mem_cons] at hids
    rw [StaticHosts.collectIPs, hids.1, ih hids.2]
    rfl

/-- The ids of the matchers that are told stand for their entries. -/
theorem flatMap_ids {f : UInt32 → List Address} {entries : List HostEntry} {ids : List UInt32}
    (hids : List.Forall₂ (fun e id => f id = e.addresses) entries ids) (domain : Bytes) :
    ((((entries.map HostEntry.matcher).zip ids).filter fun e => MatcherGroup.tells e.1 domain).map
      Prod.snd).flatMap f = recordsOf entries domain := by
  rw [recordsOf]
  induction hids with
  | nil => rfl
  | @cons e id entries ids hid _ ih =>
    rw [List.map_cons, List.zip_cons_cons, List.filter_cons, List.filter_cons]
    dsimp only
    split_ifs
    · rw [List.map_cons, List.flatMap_cons, List.flatMap_cons, ih, hid]
    · exact ih

theorem StaticHosts.Holds.lookupInternal {h : StaticHosts} {entries : List HostEntry} {room : ℕ}
    (hholds : h.Holds entries room) (hlength : entries.length < 2 ^ 32) (domain : Bytes) :
    ∃ addrs, h.lookupInternal domain = .ok addrs ∧ addrs.Perm (recordsOf entries domain) := by
  have hzero : ({} : MatcherGroup).count = 0 := rfl
  have hempty : MatcherGroup.matchIds {} domain = [] := by
    rw [MatcherGroup.matchIds, DomainMatcherGroup.matchDomain]
    split <;> rfl
  have hperm := MatcherGroup.matchIds_addAll (entries.map HostEntry.matcher) {} domain
  rw [hempty, List.nil_append, ← hholds.matchers] at hperm
  have hget (i : ℕ) (e : HostEntry) (he : entries[i]? = some e) :
      h.ips[(UInt32.ofNat (i + 1)).toNat]? = some e.addresses := by
    have hi := (List.getElem?_eq_some_iff.1 he).1
    rw [UInt32.toNat_ofNat', Nat.mod_eq_of_lt (by omega)]
    exact hholds.ips hlength i e he
  have hids (i : ℕ) : (MatcherGroup.addAll (entries.map HostEntry.matcher) {}).1[i]? =
      entries[i]?.map fun _ => UInt32.ofNat (i + 1) := by
    rw [MatcherGroup.getElem?_addAll, List.getElem?_map, Option.map_map, hzero]
    simp only [UInt32.zero_add, Function.comp_def]
  have hf : List.Forall₂ (fun e id => (h.ips[id.toNat]?).getD [] = e.addresses) entries
      (MatcherGroup.addAll (entries.map HostEntry.matcher) {}).1 := by
    refine List.forall₂_iff_get.2 ⟨by rw [MatcherGroup.length_addAll, List.length_map], fun i hi hi' => ?_⟩
    have he := List.getElem?_eq_getElem hi
    have hid := hids i
    rw [he, Option.map_some, List.getElem?_eq_getElem hi'] at hid
    rw [List.get_eq_getElem, List.get_eq_getElem, Option.some.inj hid, hget i _ he, Option.getD_some]
  refine ⟨_, collectIPs_eq fun id hid => ?_, (hperm.flatMap_right _).trans (.of_eq (flatMap_ids hf domain))⟩
  -- an id that is told was given to an entry
  obtain ⟨⟨m, id'⟩, he, rfl⟩ := List.mem_map.1 (hperm.mem_iff.1 hid)
  obtain ⟨i, hi⟩ := List.getElem?_of_mem (List.mem_filter.1 he).1
  rw [List.getElem?_zip_eq_some, List.getElem?_map, hids] at hi
  obtain ⟨e, hentry, -⟩ := Option.map_eq_some_iff.1 hi.1
  rw [hentry] at hi
  obtain rfl := Option.some.inj hi.2
  rw [hget i e hentry, Option.getD_some]

theorem StaticHosts.Holds.addLegacy {h h' : StaticHosts} {entries : List HostEntry} {room : ℕ}
    (hholds : h.Holds entries room) {legacy : List (Bytes × IPOrDomain)}
    (hroom : entries.length + legacy.length < room) (hadd : Dns.addLegacy h legacy = .ok h') :
    ∃ added, List.Forall₂ (fun m e => legacyEntry m.1 m.2 = .ok e) legacy added ∧
      h'.Holds (entries ++ added) room := by
  induction legacy generalizing h entries with
  | nil =>
    obtain rfl := Outcome.ok.inj hadd
    exact ⟨[], .nil, (List.append_nil entries).symm ▸ hholds⟩
  | cons m legacy ih =>
    obtain ⟨e, he, hadd⟩ := Outcome.bind_eq_ok.1 hadd
    obtain ⟨h₁, hadd₁, hrest⟩ := Outcome.bind_eq_ok.1 hadd
    rw [List.length_cons] at hroom
    obtain ⟨h₁', hadd₁', hholds₁⟩ := hholds.add e (by omega)
    obtain rfl := Outcome.ok.inj (hadd₁.symm.trans hadd₁')
    obtain ⟨added, hadded, hholds'⟩ := ih hholds₁
      (by rw [List.length_append, List.length_singleton]; omega) hrest
    rw [List.append_assoc] at hholds'
    exact ⟨e :: added, .cons he hadded, hholds'⟩

theorem StaticHosts.Holds.addHosts {compile : Bytes → Except Error (Bytes → Bool)} {h h' : StaticHosts}
    {entries : List HostEntry} {room : ℕ} (hholds : h.Holds entries room) {hosts : List HostMapping}
    (hroom : entries.length + hosts.length < room) (hadd : Dns.addHosts compile h hosts = .ok h') :
    ∃ added, List.Forall₂ (fun m e => mappingEntry compile m = .ok e) hosts added ∧
      h'.Holds (entries ++ added) room := by
  induction hosts generalizing h entries with
  | nil =>
    obtain rfl := Outcome.ok.inj hadd
    exact ⟨[], .nil, (List.append_nil entries).symm ▸ hholds⟩
  | cons m hosts ih =>
    rw [Dns.addHosts] at hadd
    rcases he : mappingEntry compile m with err | e <;> rw [he] at hadd
    · cases hadd
    obtain ⟨h₁, hadd₁, hrest⟩ := Outcome.bind_eq_ok.1 hadd
    rw [List.length_cons] at hroom
    obtain ⟨h₁', hadd₁', hholds₁⟩ := hholds.add e (by omega)
    obtain rfl := Outcome.ok.inj (hadd₁.symm.trans hadd₁')
    obtain ⟨added, hadded, hholds'⟩ := ih hholds₁
      (by rw [List.length_append, List.length_singleton]; omega) hrest
    rw [List.append_assoc] at hholds'
    exact ⟨e :: added, .cons he hadded, hholds'⟩

/-- The entries of a configuration. -/
structure AreEntries (compile : Bytes → Except Error (Bytes → Bool)) (hosts : List HostMapping)
    (legacy : List (Bytes × IPOrDomain)) (entries : List HostEntry) : Prop where
  split : ∃ added added', entries = added ++ added' ∧
    List.Forall₂ (fun m e => legacyEntry m.1 m.2 = .ok e) legacy added ∧
    List.Forall₂ (fun m e => mappingEntry compile m = .ok e) hosts added'

theorem holds_of_newStaticHosts {compile : Bytes → Except Error (Bytes → Bool)}
    {hosts : List HostMapping} {legacy : List (Bytes × IPOrDomain)} {h : StaticHosts}
    (hnew : newStaticHosts compile hosts legacy = .ok h) :
    ∃ entries, AreEntries compile hosts legacy entries ∧
      h.Holds entries (hosts.length + legacy.length + 16) := by
  obtain ⟨h₁, hlegacy, hhosts⟩ := Outcome.bind_eq_ok.1 hnew
  have hstart : StaticHosts.Holds
      { ips := List.replicate (hosts.length + legacy.length + 16) [] } []
      (hosts.length + legacy.length + 16) :=
    ⟨rfl, List.length_replicate, fun _ _ _ he => nomatch he⟩
  obtain ⟨added, hadded, hholds⟩ := hstart.addLegacy (by rw [List.length_nil]; omega) hlegacy
  rw [List.nil_append] at hholds
  have hlength := hadded.length_eq
  obtain ⟨added', hadded', hholds'⟩ := hholds.addHosts (by omega) hhosts
  exact ⟨_, ⟨added, added', rfl, hadded, hadded'⟩, hholds'⟩

/-- The hosts of a configuration answer for a domain by what its mappings give, followed through
    at most six replacements. They do not panic. -/
theorem lookup_new_iff {compile : Bytes → Except Error (Bytes → Bool)} {hosts : List HostMapping}
    {legacy : List (Bytes × IPOrDomain)} {h : StaticHosts}
    (hnew : newStaticHosts compile hosts legacy = .ok h) (hlength : hosts.length + legacy.length < 2 ^ 32) :
    ∃ entries records, AreEntries compile hosts legacy entries ∧
      (∀ domain, (records domain).Perm (recordsOf entries domain)) ∧
      ∀ (option : IPOption) (domain : Bytes) (r : Option (List Address)),
        h.lookup domain option = .ok r ↔ HostAnswer records option 5 domain r := by
  obtain ⟨entries, hentries, hholds⟩ := holds_of_newStaticHosts hnew
  have hlength' : entries.length < 2 ^ 32 := by
    obtain ⟨added, added', rfl, hadded, hadded'⟩ := hentries
    rw [List.length_append, ← hadded.length_eq, ← hadded'.length_eq]
    omega
  choose records hrecords hperm using hholds.lookupInternal hlength'
  exact ⟨entries, records, hentries, hperm, fun option => lookupDepth_iff hrecords 5⟩

/-- A domain that stands for itself, and one with two replacements. -/
def exampleHosts : List HostMapping :=
  [{ type := .full, domain := ascii "loop", proxiedDomain := ascii "loop" },
    { type := .full, domain := ascii "two", proxiedDomain := ascii "a" },
    { type := .subdomain, domain := ascii "two", proxiedDomain := ascii "b" }]

theorem lookup_new_iff_example :
    ∃ h, newStaticHosts (fun _ => .error (.new [])) exampleHosts [] = .ok h ∧
    ∃ entries records, AreEntries (fun _ => .error (.new [])) exampleHosts [] entries ∧
      (∀ domain, (records domain).Perm (recordsOf entries domain)) ∧
      ∀ (option : IPOption) (domain : Bytes) (r : Option (List Address)),
        h.lookup domain option = .ok r ↔ HostAnswer records option 5 domain r :=
  ⟨_, rfl, lookup_new_iff rfl (by decide)⟩

end Gzv2ray.Dns
