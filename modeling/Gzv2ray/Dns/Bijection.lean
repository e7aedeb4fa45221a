import Gzv2ray.Dns.FakeDNS

/-!
# Fake addresses are told apart

The addresses of the domains in the cache are different, and each tells its domain,
from the holder that is made for a network to any one that calls lead to.

* `IPNet.contains_bigBytes`: the numbers of the addresses of a network are a ring;
* `Holder.Valid`: the invariant of the holder;
* `Holder.exists_probe`: a free address is found, as the cache has room for fewer
  pairs than the network has addresses;
* `fakeDNS_bijective`: the outcome.
-/

namespace Gzv2ray.Dns

open Gzv2ray.Cache

/-! ## Bytes that do not start with zero -/

section

variable {ip : Bytes} (hlength : ip.length = 4 ∨ ip.length = 16) (hhead : ip.head? ≠ some 0)

theorem not_isMapped {ip : IPv6} (hhead : ip.1.head? ≠ some 0) : ¬ Address.IsMapped ip := by
  rintro ⟨htake, -⟩
  have htaken : (ip.1.take 10).head? = ip.1.head? := by
    rw [List.head?_take, if_neg (by decide)]
  exact hhead (htaken ▸ htake ▸ rfl)

include hlength hhead

theorem to4_getD : (to4 ip).getD ip = ip := by
  rw [to4]
  rcases hlength with h | h
  · rw [if_pos h, Option.getD_some]
  · rw [if_neg (by omega), dif_pos h, if_neg (not_isMapped hhead), Option.getD_none]

theorem exists_ipAddress :
    ∃ a, ipAddress ip = some a ∧ addressIP a = ip ∧ a.family ≠ .domain := by
  rw [ipAddress]
  rcases hlength with h | h
  · rw [dif_pos h]
    exact ⟨_, rfl, rfl, AddressFamily.noConfusion⟩
  · rw [dif_neg (by omega), dif_pos h, Address.ofIPv6, if_neg (not_isMapped hhead)]
    exact ⟨_, rfl, rfl, AddressFamily.noConfusion⟩

end

theorem ofBigEndian_lt_of_head {k : ℕ} {l : Bytes} (hlength : l.length = k + 1)
    (hhead : l.head? = some 0) : ofBigEndian l < 256 ^ k := by
  obtain ⟨tail, rfl⟩ := List.head?_eq_some_iff.1 hhead
  rw [ofBigEndian_cons, UInt8.toNat_zero, zero_mul, zero_add]
  exact Nat.succ.inj hlength ▸ ofBigEndian_lt tail

theorem head?_bigEndian {k n : ℕ} (hlow : 256 ^ k ≤ n) (hhigh : n < 256 ^ (k + 1)) :
    (bigEndian (k + 1) n).head? ≠ some 0 := by
  intro hhead
  have hlt := ofBigEndian_lt_of_head (length_bigEndian _ _) hhead
  rw [ofBigEndian_bigEndian hhigh] at hlt
  omega

theorem le_ofBigEndian {l : Bytes} (hlength : l ≠ []) (hhead : l.head? ≠ some 0) :
    256 ^ (l.length - 1) ≤ ofBigEndian l := by
  obtain ⟨x, tail, rfl⟩ := List.exists_cons_of_ne_nil hlength
  have hx : 1 ≤ x.toNat := by
    refine Nat.one_le_iff_ne_zero.2 fun hzero => hhead ?_
    rw [List.head?_cons, Option.some.injEq, ← UInt8.toNat_inj, hzero, UInt8.toNat_zero]
  rw [ofBigEndian_cons, List.length_cons, Nat.add_sub_cancel]
  exact le_add_right (Nat.le_mul_of_pos_left _ hx)

/-- A number has as many bytes as it needs. -/
theorem bigBytes_eq {k n : ℕ} (hlow : 256 ^ k ≤ n) (hhigh : n < 256 ^ (k + 1)) :
    bigBytes n = bigEndian (k + 1) n := by
  have hpow : 0 < 256 ^ k := by positivity
  have hn : n ≠ 0 := by omega
  rw [show 256 = 2 ^ 8 by rfl, ← pow_mul] at hlow hhigh
  rw [bigBytes, if_neg hn]
  have h₁ := (Nat.le_log2 hn).2 hlow
  have h₂ := (Nat.log2_lt hn).2 hhigh
  rw [show n.log2 / 8 = k by omega]

/-! ## The numbers of a network -/

namespace IPNet

variable {c : IPNet} {n : ℕ}

/-- The numbers of the addresses. -/
def ring (c : IPNet) : Set ℕ := Set.Ico c.base (c.base + c.size)

/-- A network with its first address, which does not start with zero. -/
structure IsProper (c : IPNet) : Prop where
  ofBigEndian_ip : ofBigEndian c.ip = c.base
  head : c.ip.head? ≠ some 0

theorem size_pos (c : IPNet) : 0 < c.size := Nat.two_pow_pos _

theorem size_dvd_base (c : IPNet) : c.size ∣ c.base := Dvd.intro_left _ rfl

theorem size_dvd_pow (c : IPNet) : c.size ∣ 256 ^ c.ip.length := by
  rw [show 256 = 2 ^ 8 by rfl, ← pow_mul]
  exact pow_dvd_pow 2 (Nat.sub_le _ _)

theorem base_le (c : IPNet) : c.base ≤ ofBigEndian c.ip := Nat.div_mul_le_self _ _

theorem ofBigEndian_mem_ring (c : IPNet) : ofBigEndian c.ip ∈ c.ring := by
  refine ⟨c.base_le, ?_⟩
  have hmod := Nat.mod_lt (ofBigEndian c.ip) c.size_pos
  have hdiv := Nat.div_add_mod' (ofBigEndian c.ip) c.size
  rw [base]
  omega

theorem ofBigEndian_network (c : IPNet) : ofBigEndian c.network.ip = c.base :=
  ofBigEndian_bigEndian (c.base_le.trans_lt (ofBigEndian_lt _))

theorem size_network (c : IPNet) : c.network.size = c.size := by
  rw [size, size, rooms, rooms, network, length_bigEndian]

theorem base_network (c : IPNet) : c.network.base = c.base := by
  rw [base, ofBigEndian_network, size_network, Nat.div_mul_cancel c.size_dvd_base]

theorem isProper_network (h : c.network.ip.head? ≠ some 0) : c.network.IsProper :=
  ⟨by rw [ofBigEndian_network, base_network], h⟩

namespace IsProper

variable (h : c.IsProper)
include h

theorem pow_le_base : 256 ^ (c.ip.length - 1) ≤ c.base := by
  rw [← h.ofBigEndian_ip]
  refine le_ofBigEndian (fun hnil => ?_) h.head
  have hlength := c.length_ip
  rw [hnil, List.length_nil] at hlength
  omega

/-- The network ends where its addresses do, or before. -/
theorem base_add_size_le : c.base + c.size ≤ 256 ^ c.ip.length := by
  obtain ⟨a, ha⟩ := c.size_dvd_base
  obtain ⟨b, hb⟩ := c.size_dvd_pow
  have hlt : c.base < 256 ^ c.ip.length := h.ofBigEndian_ip ▸ ofBigEndian_lt _
  rw [ha, hb] at hlt
  rw [ha, hb, ← Nat.mul_succ]
  exact Nat.mul_le_mul_left _ (Nat.succ_le_of_lt (Nat.lt_of_mul_lt_mul_left hlt))

/-- The numbers of addresses as long as those of the network. -/
theorem bigBytes_eq (hlow : c.base ≤ n) (hhigh : n < 256 ^ c.ip.length) :
    bigBytes n = bigEndian c.ip.length n ∧ (bigEndian c.ip.length n).head? ≠ some 0 := by
  have hlength : c.ip.length - 1 + 1 = c.ip.length := by
    rcases c.length_ip with hip | hip <;> rw [hip]
  have hle := h.pow_le_base.trans hlow
  rw [← hlength] at hhigh ⊢
  exact ⟨Dns.bigBytes_eq hle hhigh, head?_bigEndian hle hhigh⟩

theorem lt_pow (hn : n ∈ c.ring) : n < 256 ^ c.ip.length := hn.2.trans_le h.base_add_size_le

theorem contains_iff (ip : Bytes) : c.contains ip = true ↔
    ((to4 ip).getD ip).length = c.ip.length ∧
      ofBigEndian ((to4 ip).getD ip) / c.size = c.base / c.size := by
  rw [contains, to4_getD c.length_ip h.head]
  simp only [lt_irrefl, if_false, Bool.and_eq_true, beq_iff_eq, h.ofBigEndian_ip]
  rfl

/-- A number next to those of the network is one of them if the network contains its
    bytes. -/
theorem contains_bigBytes (hlow : c.base ≤ n) (hhigh : n ≤ c.base + c.size) :
    c.contains (bigBytes n) = true ↔ n ∈ c.ring := by
  have hiff : n / c.size = c.base / c.size ↔ n ∈ c.ring := by
    obtain ⟨a, ha⟩ := c.size_dvd_base
    have hpos := c.size_pos
    rw [ring, Set.mem_Ico, ha, Nat.mul_div_cancel_left a hpos, Nat.div_eq_iff hpos]
    rw [ha] at hlow hhigh
    constructor
    · rintro ⟨_, hle⟩
      exact ⟨hlow, by rw [mul_comm]; omega⟩
    · rintro ⟨_, hlt⟩
      exact ⟨by rw [mul_comm]; omega, by rw [mul_comm]; omega⟩
  rw [h.contains_iff]
  rcases Nat.lt_or_ge n (256 ^ c.ip.length) with hlt | hge
  · obtain ⟨hbytes, hhead⟩ := h.bigBytes_eq hlow hlt
    rw [hbytes, to4_getD (by rw [length_bigEndian]; exact c.length_ip) hhead, length_bigEndian,
      ofBigEndian_bigEndian hlt, hiff]
    exact and_iff_right rfl
  · -- The number behind the last address has one byte more than an address.
    have hend := h.base_add_size_le
    have hn : n = 256 ^ c.ip.length := by omega
    have hbytes : bigBytes n = bigEndian (c.ip.length + 1) n :=
      Dns.bigBytes_eq hge (by rw [hn]; exact Nat.pow_lt_pow_right (by decide) (Nat.lt_succ_self _))
    have hto4 : to4 (bigBytes n) = none := by
      rw [to4, hbytes, if_neg, dif_neg] <;> rw [length_bigEndian] <;>
        rcases c.length_ip with hip | hip <;> omega
    rw [hto4, Option.getD_none, hbytes, length_bigEndian]
    constructor
    · rintro ⟨hlength, -⟩
      omega
    · intro hmem
      exact absurd (h.lt_pow hmem) (by omega)

/-- Each number of the network is that of an address. -/
theorem exists_address (hn : n ∈ c.ring) : ∃ a, ipAddress (bigBytes n) = some a ∧
    addressIP a = bigBytes n ∧ a.family ≠ .domain := by
  obtain ⟨hbytes, hhead⟩ := h.bigBytes_eq hn.1 (h.lt_pow hn)
  rw [hbytes]
  exact exists_ipAddress (by rw [length_bigEndian]; exact c.length_ip) hhead

/-- Different numbers are those of different addresses. -/
theorem address_injOn : Set.InjOn (fun n => ipAddress (bigBytes n)) c.ring := by
  intro n hn n' hn' heq
  obtain ⟨a, ha, hip, -⟩ := h.exists_address hn
  obtain ⟨a', ha', hip', -⟩ := h.exists_address hn'
  simp only [ha, ha', Option.some.injEq] at heq
  rw [heq, hip', (h.bigBytes_eq hn.1 (h.lt_pow hn)).1,
    (h.bigBytes_eq hn'.1 (h.lt_pow hn')).1] at hip
  rw [← ofBigEndian_bigEndian (h.lt_pow hn), ← hip, ofBigEndian_bigEndian (h.lt_pow hn')]

end IsProper

end IPNet

/-! ## The holder -/

namespace Holder

/-- The address of a number. -/
def address (n : ℕ) : Option Address := ipAddress (bigBytes n)

/-- The cache has room for fewer pairs than the network has addresses, and holds
    addresses of the network. -/
structure Valid (fkdns : Holder) : Prop where
  proper : fkdns.ipRange.IsProper
  wellFormed : fkdns.domainToIP.WellFormed
  one_le : 1 ≤ fkdns.domainToIP.capacity
  lt_size : fkdns.domainToIP.capacity < fkdns.ipRange.size
  next_mem : fkdns.nextIP ∈ fkdns.ipRange.ring
  held : ∀ domain ip, fkdns.domainToIP.Caches domain ip →
    ∃ n ∈ fkdns.ipRange.ring, ip = address n

variable {fkdns fkdns' : Holder}

/-- The numbers of the network are tried in a ring. -/
theorem Valid.advance_eq (h : fkdns.Valid) :
    fkdns.advance = Ring.next fkdns.ipRange.base fkdns.ipRange.size fkdns.nextIP := by
  have hmem := h.next_mem
  have hiff := h.proper.contains_bigBytes (n := fkdns.nextIP + 1)
    (Nat.le_succ_of_le hmem.1) (Nat.succ_le_of_lt hmem.2)
  rw [advance, Ring.next, h.proper.ofBigEndian_ip]
  by_cases hnext : fkdns.nextIP + 1 < fkdns.ipRange.base + fkdns.ipRange.size
  · rw [if_pos hnext, if_pos (hiff.2 ⟨Nat.le_succ_of_le hmem.1, hnext⟩)]
  · rw [if_neg hnext, if_neg fun hc => hnext (hiff.1 hc).2]

theorem Valid.advance_mem (h : fkdns.Valid) : fkdns.advance ∈ fkdns.ipRange.ring :=
  h.advance_eq ▸ Ring.next_mem h.next_mem

/-- Neither the order of the cache nor the next number matters. -/
theorem Valid.of_reordered (h : fkdns.Valid) {domainToIP : Lru Bytes (Option Address)} {n : ℕ}
    (hr : Lru.Reordered fkdns.domainToIP domainToIP) (hn : n ∈ fkdns.ipRange.ring) :
    Valid ⟨domainToIP, n, fkdns.ipRange⟩ where
  proper := h.proper
  wellFormed := ⟨hr.indexed h.wellFormed.indexed, by
    rw [hr.perm.length_eq, hr.capacity]
    exact h.wellFormed.length_le⟩
  one_le := by rw [hr.capacity]; exact h.one_le
  lt_size := by rw [hr.capacity]; exact h.lt_size
  next_mem := hn
  held domain ip hc := h.held domain ip ((hr.caches_iff domain ip).1 hc)

/-! ## Probing -/

/-- The holder after a number has been tried. -/
def skip (fkdns : Holder) : Holder where
  domainToIP := (fkdns.domainToIP.getKeyFromValue (address fkdns.nextIP)).2
  nextIP := fkdns.advance
  ipRange := fkdns.ipRange

theorem probe_succ (fuel : ℕ) : probe (fuel + 1) fkdns =
    if (fkdns.domainToIP.getKeyFromValue (address fkdns.nextIP)).1.isNone then
      some (address fkdns.nextIP, fkdns.skip) else probe fuel fkdns.skip := rfl

theorem reordered_skip (fkdns : Holder) : Lru.Reordered fkdns.domainToIP fkdns.skip.domainToIP :=
  Lru.reordered_getKeyFromValue _

theorem Valid.skip (h : fkdns.Valid) : fkdns.skip.Valid :=
  h.of_reordered fkdns.reordered_skip h.advance_mem

/-- Where no free address is found, none of those tried is free. -/
theorem Valid.held_of_probe_eq_none (h : fkdns.Valid) {fuel : ℕ} (hprobe : probe fuel fkdns = none)
    {k : ℕ} (hk : k < fuel) : ∃ domain, fkdns.domainToIP.Caches domain
      (address ((Ring.next fkdns.ipRange.base fkdns.ipRange.size)^[k] fkdns.nextIP)) := by
  induction fuel generalizing fkdns k with
  | zero => exact absurd hk (Nat.not_lt_zero k)
  | succ fuel ih =>
    rw [probe_succ] at hprobe
    split at hprobe
    · cases hprobe
    next hheld =>
      cases k with
      | zero =>
        obtain ⟨domain, hdomain⟩ := Option.ne_none_iff_exists'.1 (mt Option.isNone_iff_eq_none.2 hheld)
        exact ⟨domain, (h.wellFormed.indexed.getKeyFromValue_eq_some _ _).1 hdomain⟩
      | succ k =>
        obtain ⟨domain, hdomain⟩ := ih h.skip hprobe (Nat.lt_of_succ_lt_succ hk)
        rw [(fkdns.reordered_skip).caches_iff] at hdomain
        rw [Function.iterate_succ_apply, ← h.advance_eq]
        exact ⟨domain, hdomain⟩

/-- A free address is found before all of them have been tried: the cache cannot hold
    that many. -/
theorem Valid.exists_probe (h : fkdns.Valid) {fuel : ℕ} (hfuel : fkdns.ipRange.size ≤ fuel) :
    ∃ r, probe fuel fkdns = some r := by
  refine Option.ne_none_iff_exists'.1 fun hprobe => ?_
  have hinj : Set.InjOn address (Finset.Ico fkdns.ipRange.base
      (fkdns.ipRange.base + fkdns.ipRange.size)) := by
    rw [Finset.coe_Ico]
    exact h.proper.address_injOn
  have hcard := h.wellFormed.card_le ((Finset.Ico fkdns.ipRange.base
    (fkdns.ipRange.base + fkdns.ipRange.size)).image address) fun ip hip => by
      obtain ⟨n, hn, rfl⟩ := Finset.mem_image.1 hip
      obtain ⟨k, hk, rfl⟩ := Ring.exists_iterate_next h.next_mem (Finset.mem_Ico.1 hn)
      exact h.held_of_probe_eq_none hprobe (hk.trans_le hfuel)
  rw [Finset.card_image_of_injOn hinj, Nat.card_Ico, Nat.add_sub_cancel_left] at hcard
  exact absurd h.lt_size hcard.not_gt

/-- What is found is a free address of the network. -/
theorem Valid.probe_spec (h : fkdns.Valid) {fuel : ℕ} {ip : Option Address}
    (hprobe : probe fuel fkdns = some (ip, fkdns')) : fkdns'.Valid ∧
      fkdns'.ipRange = fkdns.ipRange ∧ Lru.Reordered fkdns.domainToIP fkdns'.domainToIP ∧
      (∃ n ∈ fkdns.ipRange.ring, ip = address n) ∧
      ∀ domain, ¬ fkdns.domainToIP.Caches domain ip := by
  induction fuel generalizing fkdns with
  | zero => cases hprobe
  | succ fuel ih =>
    rw [probe_succ] at hprobe
    split at hprobe
    next hfree =>
      rw [Option.some.injEq, Prod.mk.injEq] at hprobe
      obtain ⟨rfl, rfl⟩ := hprobe
      refine ⟨h.skip, rfl, fkdns.reordered_skip, ⟨_, h.next_mem, rfl⟩, fun domain hc => ?_⟩
      rw [Option.isNone_iff_eq_none,
        (h.wellFormed.indexed.getKeyFromValue_eq_some _ _).2 hc] at hfree
      cases hfree
    · obtain ⟨hvalid, hrange, hr, hring, hfree⟩ := ih h.skip hprobe
      refine ⟨hvalid, hrange, fkdns.reordered_skip.trans hr, hring, fun domain hc => ?_⟩
      exact hfree domain ((fkdns.reordered_skip.caches_iff _ _).2 hc)

/-- More fuel changes nothing. -/
theorem probe_mono {fuel fuel' : ℕ} {r : Option Address × Holder} (hle : fuel ≤ fuel')
    (hprobe : probe fuel fkdns = some r) : probe fuel' fkdns = some r := by
  induction fuel generalizing fuel' fkdns with
  | zero => cases hprobe
  | succ fuel ih =>
    obtain ⟨fuel', rfl⟩ := Nat.exists_eq_add_of_lt (Nat.lt_of_succ_le hle)
    rw [probe_succ] at hprobe ⊢
    split
    next hfree => rwa [if_pos hfree] at hprobe
    next hheld =>
      rw [if_neg hheld] at hprobe
      exact ih (by omega) hprobe

/-! ## The lookups -/

/-- The address that the cache has for a domain. -/
def cached (fkdns : Holder) (domain : Bytes) : Option (Option Address) :=
  (fkdns.domainToIP.get domain).1

/-- The domain is in the cache. -/
def IsCached (domain : Bytes) (fkdns : Holder) : Prop := fkdns.cached domain ≠ none

theorem Valid.cached_eq_some (h : fkdns.Valid) {domain : Bytes} {ip : Option Address} :
    fkdns.cached domain = some ip ↔ fkdns.domainToIP.Caches domain ip :=
  h.wellFormed.indexed.get_eq_some domain ip

theorem Valid.cached_of_reordered (h : fkdns.Valid) (h' : fkdns'.Valid)
    (hr : Lru.Reordered fkdns.domainToIP fkdns'.domainToIP) (domain : Bytes) :
    fkdns'.cached domain = fkdns.cached domain := by
  refine Option.ext fun ip => ?_
  rw [h'.cached_eq_some, h.cached_eq_some, hr.caches_iff]

/-- A pair that is new to the cache is put into it. -/
theorem Valid.put (h : fkdns.Valid) {domain : Bytes} {n : ℕ} (hn : n ∈ fkdns.ipRange.ring)
    (hdomain : fkdns.cached domain = none)
    (hfree : ∀ domain', ¬ fkdns.domainToIP.Caches domain' (address n)) :
    Valid { fkdns with domainToIP := fkdns.domainToIP.put domain (address n) } ∧
      ∃ gone : Option Bytes, ∀ domain' ip,
        (fkdns.domainToIP.put domain (address n)).Caches domain' ip ↔
          (domain' = domain ∧ ip = address n) ∨
            (gone ≠ some domain' ∧ fkdns.domainToIP.Caches domain' ip) := by
  have hindexed := h.wellFormed.indexed
  have hnew : fkdns.domainToIP.IsNew domain (address n) := by
    constructor
    · refine Option.eq_none_iff_forall_ne_some.2 fun e he => ?_
      obtain ⟨_, ip, helement⟩ := hindexed.key_mem _ _ he
      have hcached := h.cached_eq_some.2 ⟨e, he, helement⟩
      rw [hdomain] at hcached
      cases hcached
    · refine Option.eq_none_iff_forall_ne_some.2 fun e he => ?_
      obtain ⟨_, domain', helement⟩ := hindexed.value_mem _ _ he
      exact hfree domain' ((hindexed.caches_iff _ _).2 ⟨e, he, helement⟩)
  obtain ⟨gone, hgone⟩ := Lru.caches_put h.wellFormed hnew h.one_le
  have hcapacity := Lru.capacity_put fkdns.domainToIP domain (address n)
  refine ⟨⟨h.proper, Lru.wellFormed_put h.wellFormed hnew, hcapacity ▸ h.one_le,
    hcapacity ▸ h.lt_size, h.next_mem, fun domain' ip hc => ?_⟩, gone, hgone⟩
  rcases (hgone domain' ip).1 hc with ⟨_, rfl⟩ | ⟨_, hold⟩
  · exact ⟨n, hn, rfl⟩
  · exact h.held domain' ip hold

/-- An address in the cache is one of the network, and tells its domain. -/
theorem Valid.exists_of_cached (h : fkdns.Valid) {domain : Bytes} {ip : Option Address}
    (hcached : fkdns.cached domain = some ip) :
    ∃ a, ip = some a ∧ fkdns.ipRange.contains (addressIP a) = true ∧
      (fkdns.getDomainFromFakeDNS a).1 = domain := by
  have hc := h.cached_eq_some.1 hcached
  obtain ⟨n, hn, rfl⟩ := h.held domain ip hc
  obtain ⟨a, ha, hip, hfamily⟩ := h.proper.exists_address hn
  have hcontains : fkdns.ipRange.contains (addressIP a) = true := by
    rw [hip]
    exact (h.proper.contains_bigBytes hn.1 hn.2.le).2 hn
  refine ⟨a, ha, hcontains, ?_⟩
  rw [address, ha, ← h.wellFormed.indexed.getKeyFromValue_eq_some] at hc
  rw [getDomainFromFakeDNS, hcontains, if_neg (by simpa using hfamily)]
  exact congrArg (Option.getD · []) hc

theorem getFakeIPForDomain_of_cached {domain : Bytes} {a : Address}
    (hcached : fkdns.cached domain = some (some a)) (fuel : ℕ) :
    fkdns.getFakeIPForDomain fuel domain =
      some ([some a], { fkdns with domainToIP := (fkdns.domainToIP.get domain).2 }) := by
  have hget : fkdns.domainToIP.get domain =
      (some (some a), (fkdns.domainToIP.get domain).2) := Prod.ext hcached rfl
  rw [getFakeIPForDomain, hget]

theorem getFakeIPForDomain_of_not_cached {domain : Bytes}
    (hcached : fkdns.cached domain = none) (fuel : ℕ) :
    fkdns.getFakeIPForDomain fuel domain =
      (probe fuel { fkdns with domainToIP := (fkdns.domainToIP.get domain).2 }).map
        fun r => ([r.1], { r.2 with domainToIP := r.2.domainToIP.put domain r.1 }) := by
  have hget : fkdns.domainToIP.get domain =
      (none, (fkdns.domainToIP.get domain).2) := Prod.ext hcached rfl
  rw [getFakeIPForDomain, hget]

/-- What a call for an address leaves: the domain has the address, and every other one
    the address it had, or none. -/
structure Assigned (fkdns fkdns' : Holder) (domain : Bytes) (ips : List (Option Address)) : Prop where
  valid : fkdns'.Valid
  ipRange_eq : fkdns'.ipRange = fkdns.ipRange
  result : ∃ ip, ips = [ip] ∧ fkdns'.cached domain = some ip
  kept : ∀ domain' ip, fkdns.cached domain' = some ip →
    fkdns'.cached domain' = some ip ∨ fkdns'.cached domain' = none

theorem Valid.getFakeIPForDomain_spec (h : fkdns.Valid) {fuel : ℕ} {domain : Bytes}
    {ips : List (Option Address)}
    (hcall : fkdns.getFakeIPForDomain fuel domain = some (ips, fkdns')) :
    Assigned fkdns fkdns' domain ips := by
  have hget := h.of_reordered (Lru.reordered_get domain) h.next_mem
  have hsame := h.cached_of_reordered hget (Lru.reordered_get domain)
  cases hcached : fkdns.cached domain with
  | some ip =>
    obtain ⟨a, rfl, -, -⟩ := h.exists_of_cached hcached
    rw [getFakeIPForDomain_of_cached hcached, Option.some.injEq, Prod.mk.injEq] at hcall
    obtain ⟨rfl, rfl⟩ := hcall
    refine ⟨hget, rfl, ⟨_, rfl, (hsame domain).trans hcached⟩, fun domain' ip hip => .inl ?_⟩
    exact (hsame domain').trans hip
  | none =>
    rw [getFakeIPForDomain_of_not_cached hcached, Option.map_eq_some_iff] at hcall
    obtain ⟨⟨ip, probed⟩, hprobe, hcall⟩ := hcall
    obtain ⟨hvalid, hrange, hr, ⟨n, hn, rfl⟩, hfree⟩ := hget.probe_spec hprobe
    have hkept := fun domain' => (hget.cached_of_reordered hvalid hr domain').trans (hsame domain')
    obtain ⟨hput, gone, hgone⟩ := hvalid.put (hrange ▸ hn) ((hkept domain).trans hcached)
      fun domain' hc => hfree domain' ((hr.caches_iff _ _).1 hc)
    rw [Prod.mk.injEq] at hcall
    obtain ⟨rfl, rfl⟩ := hcall
    refine ⟨hput, hrange, ⟨_, rfl, hput.cached_eq_some.2 ((hgone _ _).2 (.inl ⟨rfl, rfl⟩))⟩,
      fun domain' ip hip => ?_⟩
    have hold := hvalid.cached_eq_some.1 ((hkept domain').trans hip)
    by_cases hgone' : gone = some domain'
    · right
      refine Option.eq_none_iff_forall_ne_some.2 fun ip' hip' => ?_
      rcases (hgone _ _).1 (hput.cached_eq_some.1 hip') with ⟨rfl, _⟩ | ⟨hne, _⟩
      · rw [hcached] at hip
        cases hip
      · exact hne hgone'
    · exact .inl (hput.cached_eq_some.2 ((hgone _ _).2 (.inr ⟨hgone', hold⟩)))

/-- With enough fuel a call returns, and more fuel changes nothing. -/
theorem Valid.exists_getFakeIPForDomain (h : fkdns.Valid) (domain : Bytes) :
    ∃ r, ∀ fuel ≥ fkdns.ipRange.size, fkdns.getFakeIPForDomain fuel domain = some r := by
  cases hcached : fkdns.cached domain with
  | some ip =>
    obtain ⟨a, rfl, -, -⟩ := h.exists_of_cached hcached
    exact ⟨_, fun fuel _ => getFakeIPForDomain_of_cached hcached fuel⟩
  | none =>
    have hget := h.of_reordered (Lru.reordered_get domain) h.next_mem
    obtain ⟨r, hprobe⟩ := hget.exists_probe le_rfl
    refine ⟨([r.1], { r.2 with domainToIP := r.2.domainToIP.put domain r.1 }), fun fuel hfuel => ?_⟩
    rw [getFakeIPForDomain_of_not_cached hcached, probe_mono hfuel hprobe]
    rfl

theorem Valid.getDomainFromFakeDNS_spec (h : fkdns.Valid) (ip : Address) :
    (fkdns.getDomainFromFakeDNS ip).2.Valid ∧
      (fkdns.getDomainFromFakeDNS ip).2.ipRange = fkdns.ipRange ∧
      ∀ domain, (fkdns.getDomainFromFakeDNS ip).2.cached domain = fkdns.cached domain := by
  have hget := h.of_reordered (Lru.reordered_getKeyFromValue (some ip)) h.next_mem
  rw [getDomainFromFakeDNS]
  split
  · exact ⟨h, rfl, fun _ => rfl⟩
  · exact ⟨hget, rfl, h.cached_of_reordered hget (Lru.reordered_getKeyFromValue (some ip))⟩

end Holder

/-! ## The first holder -/

/-- The address that is tried first is that of the network's text. -/
theorem IPNet.IsProper.to4_ipaddr {c : IPNet} (h : c.network.IsProper) :
    (to4 c.ipaddr).getD c.ipaddr = c.ip := by
  rw [IPNet.ipaddr]
  split
  next hlength =>
    have h16 : (List.replicate 10 0 ++ [0xff, 0xff] ++ c.ip).length = 16 := by
      rw [List.length_append, hlength]
      rfl
    have hmapped : Address.IsMapped ⟨_, h16⟩ := ⟨rfl, rfl, rfl⟩
    rw [to4, if_neg (by rw [h16]; decide), dif_pos h16, if_pos hmapped]
    rfl
  next hlength =>
    refine to4_getD c.length_ip fun hhead => ?_
    have hsucc : c.ip.length = c.ip.length - 1 + 1 := by
      rcases c.length_ip with hip | hip <;> omega
    have hlt := ofBigEndian_lt_of_head hsucc hhead
    have hle := h.pow_le_base
    rw [IPNet.base_network, IPNet.network, length_bigEndian] at hle
    exact absurd (hle.trans c.base_le) hlt.not_ge

/-- The check of the size leaves room. -/
theorem Holder.valid_initializePool {parseCIDR : Bytes → Option IPNet} {log2 : ℤ → ℚ}
    {ipPoolCidr : Bytes} {lruSize : ℤ} {fkdns : Holder}
    (hlog2 : ∀ (k : ℕ) (n : ℤ), 2 ^ k ≤ n → k ≤ log2 n)
    (hok : initializePool parseCIDR log2 ipPoolCidr lruSize = .ok fkdns) (hsize : 1 ≤ lruSize)
    (hhead : fkdns.ipRange.ip.head? ≠ some 0) : fkdns.Valid := by
  rw [initializePool] at hok
  split at hok
  · cases hok
  next c hparse =>
    split at hok
    · cases hok
    next hlt =>
      rw [Except.ok.injEq] at hok
      subst hok
      have hproper := IPNet.isProper_network hhead
      refine ⟨hproper, ⟨Lru.indexed_empty lruSize, by simp; omega⟩, hsize, ?_, ?_, ?_⟩
      · rw [IPNet.size_network, IPNet.size]
        push_cast
        exact lt_of_not_ge fun hle => hlt (hlog2 _ _ hle)
      · have hmem := c.ofBigEndian_mem_ring
        rw [← hproper.to4_ipaddr] at hmem
        rwa [IPNet.ring, IPNet.base_network, IPNet.size_network]
      · rintro domain ip ⟨e, he, _⟩
        cases he

/-! ## Runs -/

section

variable {start fkdns fkdns' : Holder}

/-- What a call does to the holder. -/
theorem Holder.Valid.step (h : fkdns.Valid) {call : Call}
    (hstep : (calls start).step fkdns call fkdns') : fkdns'.Valid ∧
      fkdns'.ipRange = fkdns.ipRange ∧ ∀ domain ip, fkdns.cached domain = some ip →
        fkdns'.cached domain = some ip ∨ fkdns'.cached domain = none := by
  cases call with
  | getFakeIPForDomain domain =>
    obtain ⟨fuel, ips, hcall⟩ := hstep
    have hspec := h.getFakeIPForDomain_spec hcall
    exact ⟨hspec.valid, hspec.ipRange_eq, hspec.kept⟩
  | getDomainFromFakeDNS ip =>
    obtain ⟨hvalid, hrange, hcached⟩ := h.getDomainFromFakeDNS_spec ip
    rw [← show fkdns' = (fkdns.getDomainFromFakeDNS ip).2 from hstep] at hvalid hrange hcached
    exact ⟨hvalid, hrange, fun domain ip hip => .inl ((hcached domain).trans hip)⟩

theorem Holder.Valid.reach (h : start.Valid) {C : Holder → Prop}
    (hreach : (calls start).Reach C fkdns) :
    fkdns.Valid ∧ fkdns.ipRange = start.ipRange := by
  refine hreach.invariant (I := fun fkdns => fkdns.Valid ∧ fkdns.ipRange = start.ipRange) ?_ ?_
  · rintro _ rfl _
    exact ⟨h, rfl⟩
  · rintro s call t - ⟨hvalid, hrange⟩ hstep -
    obtain ⟨hvalid', hrange', -⟩ := hvalid.step hstep
    exact ⟨hvalid', hrange'.trans hrange⟩

/-- A domain keeps its address as long as it is in the cache. -/
theorem Holder.Valid.cached_of_reach (h : start.Valid) {domain : Bytes} {ip : Option Address}
    (hcached : start.cached domain = some ip)
    (hreach : (calls start).Reach (Holder.IsCached domain) fkdns) :
    fkdns.Valid ∧ fkdns.cached domain = some ip := by
  refine hreach.invariant (I := fun fkdns => fkdns.Valid ∧ fkdns.cached domain = some ip) ?_ ?_
  · rintro _ rfl _
    exact ⟨h, hcached⟩
  · rintro s call t - ⟨hvalid, hip⟩ hstep ht
    obtain ⟨hvalid', -, hkept⟩ := hvalid.step hstep
    exact ⟨hvalid', (hkept domain ip hip).resolve_right ht⟩

end

/-- Every call for an address returns one of the network, which is that of the domain
    until it is evicted; and no two domains in the cache have the same address. -/
theorem fakeDNS_bijective {parseCIDR : Bytes → Option IPNet} {log2 : ℤ → ℚ} {ipPoolCidr : Bytes}
    {lruSize : ℤ} {start fkdns : Holder}
    (hlog2 : ∀ (k : ℕ) (n : ℤ), 2 ^ k ≤ n → k ≤ log2 n)
    (hok : Holder.initializePool parseCIDR log2 ipPoolCidr lruSize = .ok start)
    (hsize : 1 ≤ lruSize) (hbase : start.ipRange.ip.head? ≠ some 0)
    (hreach : (calls start).Reach (fun _ => True) fkdns) :
    (∀ domain, ∃ ip fkdns',
      (∃ enough, ∀ fuel ≥ enough,
        fkdns.getFakeIPForDomain fuel domain = some ([some ip], fkdns')) ∧
      start.ipRange.contains (addressIP ip) = true ∧ fkdns'.IsCached domain ∧
      ∀ later, (calls fkdns').Reach (Holder.IsCached domain) later →
        (later.getDomainFromFakeDNS ip).1 = domain ∧
        ∀ fuel, ∃ later', later.getFakeIPForDomain fuel domain = some ([some ip], later')) ∧
    ∀ domain domain', domain ≠ domain' → fkdns.IsCached domain →
      fkdns.cached domain ≠ fkdns.cached domain' := by
  obtain ⟨hvalid, hrange⟩ := (Holder.valid_initializePool hlog2 hok hsize hbase).reach hreach
  refine ⟨fun domain => ?_, fun domain domain' hne hcached heq => ?_⟩
  · obtain ⟨⟨ips, fkdns'⟩, hcall⟩ := hvalid.exists_getFakeIPForDomain domain
    obtain ⟨hvalid', hrange', ⟨ip, rfl, hip⟩, -⟩ :=
      hvalid.getFakeIPForDomain_spec (hcall _ le_rfl)
    obtain ⟨a, rfl, hcontains, -⟩ := hvalid'.exists_of_cached hip
    rw [hrange', hrange] at hcontains
    refine ⟨a, fkdns', ⟨_, hcall⟩, hcontains, ?_, fun later hlater => ?_⟩
    · rw [Holder.IsCached, hip]
      exact Option.some_ne_none _
    · obtain ⟨hvalid'', hip'⟩ := hvalid'.cached_of_reach hip hlater
      obtain ⟨a', ha, -, hdomain⟩ := hvalid''.exists_of_cached hip'
      rw [← Option.some.inj ha] at hdomain
      exact ⟨hdomain, fun fuel => ⟨_, Holder.getFakeIPForDomain_of_cached hip' fuel⟩⟩
  · obtain ⟨ip, hip⟩ := Option.ne_none_iff_exists'.1 hcached
    have hc := hvalid.cached_eq_some.1 hip
    have hc' := hvalid.cached_eq_some.1 (heq ▸ hip)
    exact hne (hvalid.wellFormed.indexed.key_eq hc hc')

/-- The network 198.18.0.0/30. -/
def exampleIPNet : IPNet := ⟨[198, 18, 0, 0], 30, .inl rfl, by decide⟩

/-- A cache for two of its four addresses. -/
theorem fakeDNS_bijective_example :
    ∃ start, Holder.initializePool (fun _ => some exampleIPNet) (fun n => Nat.log2 n.toNat)
        (ascii "198.18.0.0/30") 2 = .ok start ∧
      ∀ domain, ∃ ip fkdns' enough, ∀ fuel ≥ enough,
        start.getFakeIPForDomain fuel domain = some ([some ip], fkdns') := by
  have hlog2 (k : ℕ) (n : ℤ) (h : 2 ^ k ≤ n) : (k : ℚ) ≤ (Nat.log2 n.toNat : ℕ) := by
    have hn : 2 ^ k ≤ n.toNat := by
      have hcast : ((2 ^ k : ℕ) : ℤ) ≤ n := by push_cast; exact h
      omega
    have hpos := Nat.two_pow_pos k
    exact Nat.cast_le.2 ((Nat.le_log2 (by omega)).2 hn)
  have hlt : ¬ (exampleIPNet.rooms : ℚ) ≤ (Nat.log2 (2 : ℤ).toNat : ℕ) := by
    rw [Nat.cast_le]
    decide
  have hok : ∃ start, Holder.initializePool (fun _ => some exampleIPNet)
      (fun n => Nat.log2 n.toNat) (ascii "198.18.0.0/30") 2 = .ok start ∧
      start.ipRange = exampleIPNet.network := by
    rw [Holder.initializePool]
    exact ⟨_, if_neg hlt, rfl⟩
  obtain ⟨start, hok, hrange⟩ := hok
  refine ⟨start, hok, fun domain => ?_⟩
  obtain ⟨ip, fkdns', ⟨enough, h⟩, -⟩ :=
    (fakeDNS_bijective hlog2 hok (by decide) (by rw [hrange]; decide) (.init rfl trivial)).1 domain
  exact ⟨ip, fkdns', enough, h⟩

end Gzv2ray.Dns
