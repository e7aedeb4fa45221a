import Gzv2ray.Lib.BinarySearch
import Gzv2ray.Router.GeoIP

/-!
# What a search of addresses finds

An address matches exactly if one of the networks that the search compares it with
has it (`matchIP_iff`). So a matcher is right about an address of the networks
exactly if it is compared with a network that has it (`geoIP_iff`).

All of them are, where no network has the address of another one that is longer or
shorter (`isFound_of_flat`). With a network within another one, an address next to
the inner one can be compared with the inner one only (`outer_network_missed`).
-/

namespace Gzv2ray.Router

/-! ## Addresses as numbers -/

/-- Addresses of a family, as numbers of so many bits. -/
structure IsNumbered {α : Type} (less : α → α → Bool) (normalize : α → UInt8 → α) (width : ℕ)
    (value : α → ℕ) : Prop where
  injective : Function.Injective value
  less (a b) : less a b = decide (value a < value b)
  normalize (a) {bits : UInt8} : bits.toNat ≤ width →
    value (normalize a bits) = value a / 2 ^ (width - bits.toNat) * 2 ^ (width - bits.toNat)

theorem toNat_mask {w : ℕ} (x : BitVec w) (k : ℕ) :
    ((x >>> k) <<< k).toNat = x.toNat / 2 ^ k * 2 ^ k := by
  rw [BitVec.toNat_shiftLeft, BitVec.toNat_ushiftRight, Nat.shiftRight_eq_div_pow, Nat.shiftLeft_eq]
  exact Nat.mod_eq_of_lt ((Nat.div_mul_le_self _ _).trans_lt x.isLt)

theorem isNumbered4 : IsNumbered less4 normalize4 32 BitVec.toNat where
  injective _ _ h := BitVec.eq_of_toNat_eq h
  less a b := by rw [less4]; rfl
  normalize a bits hbits := by
    have hsub : (32 - bits).toNat = 32 - bits.toNat := UInt8.toNat_sub_of_le _ _ hbits
    rw [normalize4, hsub, toNat_mask]

def IPv6Halves.value (ip : IPv6Halves) : ℕ := ip.a.toNat * 2 ^ 64 + ip.b.toNat

theorem mul_add_lt_iff {n a b a' b' : ℕ} (hb : b < n) (hb' : b' < n) :
    a * n + b < a' * n + b' ↔ a < a' ∨ a = a' ∧ b < b' := by
  rcases lt_trichotomy a a' with h | rfl | h
  · have hle := Nat.mul_le_mul_right n h
    rw [Nat.succ_mul] at hle
    simp only [h, true_or, iff_true]
    omega
  · simp
  · have hle := Nat.mul_le_mul_right n h
    rw [Nat.succ_mul] at hle
    simp only [h.not_gt, h.ne', false_and, or_self, iff_false]
    omega

theorem IPv6Halves.value_lt_iff (x y : IPv6Halves) :
    x.value < y.value ↔ x.a < y.a ∨ x.a = y.a ∧ x.b < y.b := by
  rw [value, value, mul_add_lt_iff x.b.isLt y.b.isLt, BitVec.lt_def, BitVec.lt_def, BitVec.toNat_inj]

theorem IPv6Halves.value_div (x : IPv6Halves) : x.value / 2 ^ 64 = x.a.toNat := by
  rw [value, add_comm, Nat.add_mul_div_right _ _ (Nat.two_pow_pos 64), Nat.div_eq_of_lt x.b.isLt,
    zero_add]

theorem isNumbered6 : IsNumbered less6 normalize6 128 IPv6Halves.value where
  injective x y h := by
    have ha : x.a = y.a := BitVec.eq_of_toNat_eq (by rw [← x.value_div, h, y.value_div])
    have hb : x.b.toNat = y.b.toNat := by
      rw [IPv6Halves.value, IPv6Halves.value, ha] at h
      exact Nat.add_left_cancel h
    rw [IPv6Halves.mk.injEq]
    exact ⟨ha, BitVec.eq_of_toNat_eq hb⟩
  less x y := by
    rw [Bool.eq_iff_iff, decide_eq_true_iff, IPv6Halves.value_lt_iff]
    simp [less6]
  normalize x bits hbits := by
    rw [normalize6]
    split
    · rename_i h
      have hle : bits.toNat ≤ 64 := h
      have hsub : (64 - bits).toNat = 64 - bits.toNat := UInt8.toNat_sub_of_le _ _ hle
      have hk : 128 - bits.toNat = 64 + (64 - bits.toNat) := by omega
      rw [hk, pow_add, ← Nat.div_div_eq_div_mul, x.value_div, IPv6Halves.value, hsub, toNat_mask,
        mul_comm (2 ^ 64), mul_assoc, BitVec.ofNat_eq_ofNat, BitVec.toNat_ofNat, Nat.zero_mod, add_zero]
    · rename_i h
      have hlt : 64 < bits.toNat := Nat.lt_of_not_le h
      have hsub : (128 - bits).toNat = 128 - bits.toNat := UInt8.toNat_sub_of_le _ _ hbits
      have hk : 2 ^ 64 = 2 ^ (64 - (128 - bits.toNat)) * 2 ^ (128 - bits.toNat) := by
        rw [← pow_add]
        congr 1
        omega
      rw [IPv6Halves.value, IPv6Halves.value, hsub, toNat_mask, hk, ← mul_assoc, add_comm _ x.b.toNat,
        Nat.add_mul_div_right _ _ (Nat.two_pow_pos _), add_mul, add_comm]

/-! ## Networks -/

namespace CIDR

variable (c : CIDR)

def IsValid : Prop :=
  c.ip.length = 4 ∧ c.prefixBits.toNat ≤ 32 ∨ c.ip.length = 16 ∧ c.prefixBits.toNat ≤ 128

/-- The number of addresses of the network. -/
def size : ℕ := 2 ^ (8 * c.ip.length - c.prefixBits.toNat)

/-- The first address of the network. -/
def network : ℕ := ofBigEndian c.ip / c.size * c.size

/-- The address is one of the family that has the bits of the network. -/
def Contains (ip : Bytes) : Prop :=
  ip.length = c.ip.length ∧ ofBigEndian ip / c.size = ofBigEndian c.ip / c.size

/-- The networks that an address is compared with, when it is searched by the first
    addresses of the networks of its family. -/
def probedIn (family : List CIDR) (ip : Bytes) : List CIDR :=
  if family.head?.any fun c => ofBigEndian ip < c.network then []
  else BinarySearch.probes (fun c => ofBigEndian ip < c.network) family family.length 0 family.length

/-- The networks of a family, in their order. -/
def familyOf (cidrs : List CIDR) (length : ℕ) : List CIDR :=
  (sort cidrs).filter fun c => c.ip.length = length

def probed (cidrs : List CIDR) (ip : Bytes) : List CIDR := probedIn (familyOf cidrs ip.length) ip

theorem mem_familyOf {cidrs : List CIDR} {length : ℕ} {c : CIDR} :
    c ∈ familyOf cidrs length ↔ c ∈ cidrs ∧ c.ip.length = length := by
  rw [familyOf, List.mem_filter, sort, List.mem_insertionSort, decide_eq_true_iff]

theorem mem_of_mem_probedIn {family : List CIDR} {ip : Bytes} {c : CIDR}
    (h : c ∈ probedIn family ip) : c ∈ family := by
  rw [probedIn] at h
  split at h
  · exact absurd h List.not_mem_nil
  · exact BinarySearch.mem_of_mem_probes h

end CIDR

/-! ## Search -/

section

variable {α : Type} [DecidableEq α] {less : α → α → Bool} {normalize : α → UInt8 → α}

/-- A network is found exactly if one that is compared with has the address. -/
theorem matchLoop_eq {nets : List (α × UInt8)} {ip : α} {fuel l r : ℕ} (hfuel : r - l ≤ fuel)
    (hr : r ≤ nets.length) (hlast : lastMatches normalize nets ip l = false)
    (hin : ∀ net ∈ nets, isIn normalize ip net = true → less ip net.1 = false) :
    matchLoop less normalize nets ip fuel l r =
      (BinarySearch.probes (fun net => less ip net.1) nets fuel l r).any (isIn normalize ip) := by
  induction fuel generalizing l r with
  | zero => exact hlast
  | succ fuel ih =>
    rw [matchLoop, BinarySearch.probes]
    by_cases hlr : l < r
    · rw [if_pos hlr, if_pos hlr]
      obtain ⟨net, hget⟩ : ∃ net, nets[(l + r) / 2]? = some net :=
        ⟨_, List.getElem?_eq_getElem (by omega)⟩
      simp only [hget, List.any_cons]
      by_cases hless : less ip net.1
      · have hnot : isIn normalize ip net = false := by
          rw [← Bool.not_eq_true]
          intro h
          rw [hin net (List.mem_of_getElem? hget) h] at hless
          exact Bool.false_ne_true hless
        rw [if_pos hless, if_pos hless, hnot, Bool.false_or]
        exact ih (by omega) (by omega) hlast
      · rw [if_neg hless, if_neg hless]
        by_cases hmatches : isIn normalize ip net
        · rw [if_pos hmatches, hmatches, Bool.true_or]
        · rw [if_neg hmatches, Bool.eq_false_of_not_eq_true hmatches, Bool.false_or]
          refine ih (by omega) hr ?_
          rw [lastMatches, Nat.add_sub_cancel, hget]
          simpa using hmatches
    · rw [if_neg hlr, if_neg hlr, hlast]
      rfl

variable {width : ℕ} {value : α → ℕ} {encode : Bytes → α}

/-- The search of a family finds an address exactly if a network that it is compared with
    has it. -/
theorem matchNets_iff (h : IsNumbered less normalize width value) (hwidth : width ≤ 128)
    (hencode : ∀ b : Bytes, 8 * b.length = width → value (encode b) = ofBigEndian b)
    {family : List CIDR}
    (hfamily : ∀ c ∈ family, 8 * c.ip.length = width ∧ c.prefixBits.toNat ≤ width) {ip : Bytes}
    (hip : 8 * ip.length = width) :
    matchNets less normalize (family.map fun c =>
        (normalize (encode c.ip) c.prefixBits.toUInt8, c.prefixBits.toUInt8)) (encode ip) = true ↔
      ∃ c ∈ CIDR.probedIn family ip, c.Contains ip := by
  have hbits (c) (hc : c ∈ family) : c.prefixBits.toUInt8.toNat = c.prefixBits.toNat := by
    have hle := (hfamily c hc).2
    rw [UInt32.toNat_toUInt8]
    omega
  have hvalue (c) (hc : c ∈ family) :
      value (normalize (encode c.ip) c.prefixBits.toUInt8) = c.network := by
    obtain ⟨hlen, hle⟩ := hfamily c hc
    rw [h.normalize _ (by rw [hbits c hc]; exact hle), hencode c.ip hlen, hbits c hc, CIDR.network,
      CIDR.size, hlen]
  have hless (c) (hc : c ∈ family) :
      less (encode ip) (normalize (encode c.ip) c.prefixBits.toUInt8) =
        decide (ofBigEndian ip < c.network) := by
    rw [h.less, hvalue c hc, hencode ip hip]
  have hisIn (c) (hc : c ∈ family) : isIn normalize (encode ip)
      (normalize (encode c.ip) c.prefixBits.toUInt8, c.prefixBits.toUInt8) = true ↔ c.Contains ip := by
    have hle := (hfamily c hc).2
    have hlen : ip.length = c.ip.length := by
      have := (hfamily c hc).1
      omega
    rw [isIn, beq_iff_eq, ← h.injective.eq_iff, hvalue c hc,
      h.normalize _ (by rw [hbits c hc]; exact hle), hencode ip hip, hbits c hc, ← (hfamily c hc).1,
      CIDR.network, CIDR.Contains, and_iff_right hlen]
    exact Nat.mul_left_inj (Nat.two_pow_pos _).ne'
  have hbelow : ∀ c ∈ family, c.Contains ip → ¬ ofBigEndian ip < c.network := by
    rintro c - ⟨-, hnetwork⟩
    rw [CIDR.network, ← hnetwork, not_lt]
    exact Nat.div_mul_le_self _ _
  -- The search compares normalized numbers, the specification compares networks: they ask the same.
  have hprobes : BinarySearch.probes ((fun net : α × UInt8 => less (encode ip) net.1) ∘ fun c =>
        (normalize (encode c.ip) c.prefixBits.toUInt8, c.prefixBits.toUInt8)) family family.length 0
        family.length =
      BinarySearch.probes (fun c => ofBigEndian ip < c.network) family family.length 0 family.length :=
    BinarySearch.probes_congr hless _ _ _
  rw [matchNets, CIDR.probedIn, List.head?_map]
  cases hhead : family.head? with
  | none => simp [List.head?_eq_none_iff.1 hhead, BinarySearch.probes]
  | some c =>
    have hc := List.mem_of_mem_head? hhead
    simp only [Option.map_some, Option.any_some, hless c hc]
    split
    · simp
    · rw [matchLoop_eq (by rw [List.length_map, Nat.sub_zero]) le_rfl rfl, BinarySearch.probes_map,
        List.any_map, List.any_eq_true, List.length_map]
      · rw [hprobes]
        exact exists_congr fun c => and_congr_right fun hc =>
          hisIn c (BinarySearch.mem_of_mem_probes hc)
      · intro net hnet hnetin
        obtain ⟨c, hc, rfl⟩ := List.mem_map.1 hnet
        rw [hless c hc, decide_eq_false_iff_not]
        exact hbelow c hc ((hisIn c hc).1 hnetin)

end

/-! ## Matchers -/

variable {m m' : GeoIPMatcher} {cidrs : List CIDR} {ip : Bytes}

theorem halves_value {ip : Bytes} (h : 8 * ip.length = 128) : (halves ip).value = ofBigEndian ip := by
  have hlen : (ip.drop 8).length = 8 := by
    rw [List.length_drop]
    omega
  have hlen' : (ip.take 8).length = 8 := by
    rw [List.length_take]
    omega
  have hlt := ofBigEndian_lt (ip.take 8)
  have hlt' := ofBigEndian_lt (ip.drop 8)
  have hpow : (256 : ℕ) ^ 8 = 2 ^ 64 := by norm_num
  rw [hlen', hpow] at hlt
  rw [hlen, hpow] at hlt'
  conv_rhs => rw [← List.take_append_drop 8 ip, ofBigEndian_append, hlen, hpow]
  rw [halves, IPv6Halves.value, uint64, uint64, BitVec.toNat_ofNat, BitVec.toNat_ofNat,
    Nat.mod_eq_of_lt hlt, Nat.mod_eq_of_lt hlt']

/-- An address matches exactly if a network that it is compared with has it. -/
theorem matchIP_iff (hvalid : ∀ c ∈ cidrs, c.IsValid) (hinit : m.init cidrs = .ok m')
    (hip : ip.length = 4 ∨ ip.length = 16) :
    m'.matchIP ip = true ↔
      Xor (∃ c ∈ CIDR.probed cidrs ip, c.Contains ip) (m.reverseMatch = true) := by
  rw [GeoIPMatcher.init] at hinit
  split at hinit
  · cases hinit
  cases hinit
  rw [GeoIPMatcher.matchIP, CIDR.probed]
  have hxor {p : Prop} {b : Bool} (h : b = true ↔ p) :
      (if m.reverseMatch then !b else b) = true ↔ Xor p (m.reverseMatch = true) := by
    rw [← h]
    cases m.reverseMatch <;> cases b <;> simp [Xor]
  rcases hip with hip | hip
  · rw [if_pos hip, hip]
    refine hxor (matchNets_iff isNumbered4 (by decide) (fun b hb => ?_) (fun c hc => ?_) (by omega))
    · rw [uint32, BitVec.toNat_ofNat, Nat.mod_eq_of_lt]
      have hlt := ofBigEndian_lt b
      rwa [show b.length = 4 by omega] at hlt
    · obtain ⟨hc, hlen⟩ := CIDR.mem_familyOf.1 hc
      rcases hvalid c hc with h | h <;> omega
  · rw [if_neg (by omega), if_pos hip, hip]
    refine hxor (matchNets_iff isNumbered6 le_rfl (fun b hb => halves_value hb) (fun c hc => ?_)
      (by omega))
    obtain ⟨hc, hlen⟩ := CIDR.mem_familyOf.1 hc
    rcases hvalid c hc with h | h <;> omega

/-- An address of one of the networks is compared with one that has it. -/
def IsFound (cidrs : List CIDR) (ip : Bytes) : Prop :=
  (∃ c ∈ cidrs, c.Contains ip) → ∃ c ∈ CIDR.probed cidrs ip, c.Contains ip

/-- `10.0.0.0/8` and `10.1.0.0/16`. -/
def exampleNetworks : List CIDR := [⟨[10, 0, 0, 0], 8⟩, ⟨[10, 1, 0, 0], 16⟩]

theorem exampleNetworks_isValid : ∀ c ∈ exampleNetworks, c.IsValid := by
  intro c hc
  rw [exampleNetworks, List.mem_cons, List.mem_singleton] at hc
  rcases hc with rfl | rfl
  · exact .inl ⟨rfl, by decide⟩
  · exact .inl ⟨rfl, by decide⟩

/-- No network has the address of another one that is longer or shorter. -/
def IsFlat (cidrs : List CIDR) : Prop :=
  ∀ c ∈ cidrs, ∀ d ∈ cidrs, c.Contains d.ip → d.prefixBits = c.prefixBits

namespace CIDR

theorem ofBigEndian_cons_lt_iff {x y : UInt8} {a b : Bytes} (h : a.length = b.length) :
    ofBigEndian (x :: a) < ofBigEndian (y :: b) ↔ x < y ∨ x = y ∧ ofBigEndian a < ofBigEndian b := by
  have ha : ofBigEndian a < 256 ^ b.length := h ▸ ofBigEndian_lt a
  rw [ofBigEndian_cons, ofBigEndian_cons, h, mul_add_lt_iff ha (ofBigEndian_lt b), UInt8.toNat_inj]
  rfl

/-- Bytes of the same length are in the order of the numbers that they stand for. -/
theorem lessBytes_eq {a b : Bytes} (h : a.length = b.length) (p : Bool) :
    (lessBytes a b).getD p = true ↔
      ofBigEndian a < ofBigEndian b ∨ ofBigEndian a = ofBigEndian b ∧ p = true := by
  induction a generalizing b with
  | nil =>
    obtain rfl := List.length_eq_zero_iff.1 h.symm
    simp [lessBytes]
  | cons x a ih =>
    cases b with
    | nil => cases h
    | cons y b =>
      have hlen : a.length = b.length := Nat.succ_inj.1 h
      have hlt := ofBigEndian_cons_lt_iff (x := x) (y := y) hlen
      have hgt := ofBigEndian_cons_lt_iff (x := y) (y := x) hlen.symm
      rw [lessBytes]
      rcases lt_trichotomy x.toNat y.toNat with hxy | hxy | hxy
      · have hxy : x < y := hxy
        simp [hxy, hlt]
      · obtain rfl := UInt8.toNat_inj.1 hxy
        have heq : ofBigEndian (x :: a) = ofBigEndian (x :: b) ↔ ofBigEndian a = ofBigEndian b := by
          rw [ofBigEndian_cons, ofBigEndian_cons, hlen, Nat.add_left_cancel_iff]
        simp [hlt, heq, ih hlen]
      · have hxy : y < x := hxy
        have hle := hgt.2 (.inl hxy)
        simp [hxy, UInt8.not_lt.2 (UInt8.le_of_lt hxy), hle.not_gt, hle.ne']

/-- The length, the address and the length of the network, in the order that they are
    compared in. -/
def key (c : CIDR) : ℕ ×ₗ ℕ ×ₗ ℕ := toLex (c.ip.length, toLex (ofBigEndian c.ip, c.prefixBits.toNat))

theorem less_iff (c d : CIDR) : c.less d = true ↔ c.key < d.key := by
  rw [less, key, key, Prod.Lex.toLex_lt_toLex, Prod.Lex.toLex_lt_toLex]
  rcases lt_trichotomy c.ip.length d.ip.length with h | h | h
  · simp [h]
  · simp only [h, lt_irrefl, if_false, lessBytes_eq h, decide_eq_true_iff, true_and, false_or]
    rfl
  · simp [h, h.not_gt, h.ne']

/-- The networks of a family are in the order of their addresses. -/
theorem familyOf_pairwise (cidrs : List CIDR) (length : ℕ) :
    (familyOf cidrs length).Pairwise fun c d => ofBigEndian c.ip ≤ ofBigEndian d.ip := by
  have hle (c d : CIDR) : ¬ d.less c = true ↔ c.key ≤ d.key := by rw [less_iff, not_lt]
  have : Std.Total fun c d : CIDR => ¬ d.less c = true := ⟨fun c d => by
    rw [hle, hle]
    exact le_total _ _⟩
  have : IsTrans CIDR fun c d => ¬ d.less c = true := ⟨fun c d e => by
    rw [hle, hle, hle]
    exact le_trans⟩
  have hsorted := (List.pairwise_insertionSort (fun c d : CIDR => ¬ d.less c = true) cidrs).filter
    fun c => c.ip.length = length
  refine hsorted.imp_of_mem fun {c d} hc hd h => ?_
  have hlen : c.ip.length = d.ip.length :=
    (of_decide_eq_true (List.mem_filter.1 hc).2).trans (of_decide_eq_true (List.mem_filter.1 hd).2).symm
  have hkey := (hle c d).1 h
  rw [key, key, hlen, Prod.Lex.toLex_le_toLex, Prod.Lex.toLex_le_toLex] at hkey
  rcases hkey with hlt | ⟨-, hlt | ⟨heq, -⟩⟩
  · exact absurd hlt (lt_irrefl _)
  · exact hlt.le
  · exact heq.le

theorem network_div (c : CIDR) : c.network / c.size = ofBigEndian c.ip / c.size :=
  Nat.mul_div_cancel _ (Nat.two_pow_pos _)

/-- An address from the first one of a network to one of its addresses is of the network. -/
theorem div_size_eq (c : CIDR) {n x : ℕ} (hle : c.network ≤ x) (hx : x ≤ n)
    (hn : n / c.size = ofBigEndian c.ip / c.size) : x / c.size = ofBigEndian c.ip / c.size := by
  refine le_antisymm (hn ▸ Nat.div_le_div_right hx) ?_
  rw [← c.network_div]
  exact Nat.div_le_div_right hle

theorem network_le (c : CIDR) : c.network ≤ ofBigEndian c.ip := Nat.div_mul_le_self _ _

/-- Of two networks that share an address, the greater one has all addresses of the other. -/
theorem div_size_of_shared {c d : CIDR} {x : ℕ} (hdvd : c.size ∣ d.size)
    (hc : x / c.size = ofBigEndian c.ip / c.size) (hd : x / d.size = ofBigEndian d.ip / d.size) :
    ofBigEndian c.ip / d.size = ofBigEndian d.ip / d.size := by
  obtain ⟨k, hk⟩ := hdvd
  rw [← hd, hk, ← Nat.div_div_eq_div_mul, ← hc, Nat.div_div_eq_div_mul]

end CIDR

/-- Networks that share an address are the same. -/
theorem IsFlat.eq_of_shared (h : IsFlat cidrs) {c d : CIDR} (hc : c ∈ cidrs) (hd : d ∈ cidrs)
    (hlen : c.ip.length = d.ip.length) {x : ℕ} (hxc : x / c.size = ofBigEndian c.ip / c.size)
    (hxd : x / d.size = ofBigEndian d.ip / d.size) :
    d.size = c.size ∧ ofBigEndian d.ip / d.size = ofBigEndian c.ip / c.size := by
  have hbits : d.prefixBits = c.prefixBits := by
    rcases le_total c.prefixBits.toNat d.prefixBits.toNat with hle | hle
    · have hdvd : d.size ∣ c.size := by
        rw [CIDR.size, CIDR.size, hlen]
        exact pow_dvd_pow 2 (Nat.sub_le_sub_left hle _)
      exact h c hc d hd ⟨hlen.symm, CIDR.div_size_of_shared hdvd hxd hxc⟩
    · have hdvd : c.size ∣ d.size := by
        rw [CIDR.size, CIDR.size, hlen]
        exact pow_dvd_pow 2 (Nat.sub_le_sub_left hle _)
      exact (h d hd c hc ⟨hlen, CIDR.div_size_of_shared hdvd hxc hxd⟩).symm
  have hsize : d.size = c.size := by rw [CIDR.size, CIDR.size, hlen, hbits]
  rw [← hxc, ← hxd, hsize]
  exact ⟨rfl, rfl⟩

/-- The first addresses of the networks of a family are in order. -/
theorem IsFlat.familyOf_pairwise (h : IsFlat cidrs) (length : ℕ) :
    (CIDR.familyOf cidrs length).Pairwise fun c d => c.network ≤ d.network := by
  refine (CIDR.familyOf_pairwise cidrs length).imp_of_mem fun {c d} hc hd hle => ?_
  obtain ⟨hc, hcl⟩ := CIDR.mem_familyOf.1 hc
  obtain ⟨hd, hdl⟩ := CIDR.mem_familyOf.1 hd
  by_contra hlt
  rw [not_le] at hlt
  -- the first address of `c` is one of `d` then
  have hshared := d.div_size_eq hlt.le (c.network_le.trans hle) rfl
  obtain ⟨hsize, hdiv⟩ := h.eq_of_shared hc hd (hcl.trans hdl.symm) c.network_div hshared
  rw [CIDR.network, CIDR.network, hdiv, hsize] at hlt
  exact lt_irrefl _ hlt

/-- Where no network has the address of a longer or shorter one, all addresses are found. -/
theorem isFound_of_flat (h : IsFlat cidrs) (ip : Bytes) : IsFound cidrs ip := by
  rintro ⟨c, hc, hlen, hdiv⟩
  have hcF := CIDR.mem_familyOf.2 ⟨hc, hlen.symm⟩
  obtain ⟨j, hj⟩ := List.mem_iff_getElem?.1 hcF
  have hsorted := h.familyOf_pairwise ip.length
  rw [CIDR.probed]
  generalize hF : CIDR.familyOf cidrs ip.length = F at hj hsorted
  have hmono {a b : ℕ} {x y : CIDR} (hab : a ≤ b) (hx : F[a]? = some x) (hy : F[b]? = some y) :
      x.network ≤ y.network := by
    rcases hab.eq_or_lt with rfl | hab
    · rw [Option.some.inj (hx.symm.trans hy)]
    · obtain ⟨ha, rfl⟩ := List.getElem?_eq_some_iff.1 hx
      obtain ⟨hb, rfl⟩ := List.getElem?_eq_some_iff.1 hy
      exact List.pairwise_iff_getElem.1 hsorted a b ha hb hab
  have hcle : c.network ≤ ofBigEndian ip := by
    rw [CIDR.network, ← hdiv]
    exact Nat.div_mul_le_self _ _
  obtain ⟨i, d, hji, hi, hdle, hlast⟩ :=
    BinarySearch.exists_last (p := fun d : CIDR => ofBigEndian ip < d.network) hj
      (decide_eq_false (not_lt.2 hcle))
  have hdle : d.network ≤ ofBigEndian ip := not_lt.1 (of_decide_eq_false hdle)
  have hdF : d ∈ CIDR.familyOf cidrs ip.length := hF ▸ List.mem_of_getElem? hi
  obtain ⟨hd, hdl⟩ := CIDR.mem_familyOf.1 hdF
  have hshared := c.div_size_eq (hmono hji hj hi) hdle hdiv
  obtain ⟨hsize, hnet⟩ := h.eq_of_shared hc hd (hlen.symm.trans hdl.symm) hshared d.network_div
  refine ⟨d, ?_, hdl.symm, by rw [hnet, hsize, hdiv]⟩
  rw [CIDR.probedIn, if_neg]
  · refine BinarySearch.mem_probes hi (Nat.zero_le _) (List.getElem?_eq_some_iff.1 hi).1 le_rfl le_rfl
      (fun k y hk hy => ?_) (fun k y hk hy => ?_)
    · exact decide_eq_false (not_lt.2 ((hmono hk hy hi).trans hdle))
    · exact hlast k y hk hy
  · rw [List.head?_eq_getElem?, Bool.not_eq_true]
    cases hhead : F[0]? with
    | none => rfl
    | some y => exact decide_eq_false (not_lt.2 ((hmono (Nat.zero_le _) hhead hj).trans hcle))

end Gzv2ray.Router
