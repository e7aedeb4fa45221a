import Gzv2ray.Buf.Reading
import Gzv2ray.Net.AddressEncoding

/-!
# Decoding addresses into a buffer

The decoder of addresses as it works on the buffer of its caller: it reads behind
whatever is in there, and finds a length, a port or a domain by indices counted
from the end.

* `AddressParser.readAddressPortInto`: the decoder, with its panics;
* `AddressParser.readAddressPort_eq`: from a buffer that starts at its array, it is
  the one that takes what it reads apart (`AddressParser.readAddressPort`);
* `AddressParser.readAddressPortInto_sound`: it does not panic, and what it returns
  is what the bytes that it takes stand for.
-/

namespace Gzv2ray.AddressParser

variable (p : AddressParser) (parseIP : Bytes → Option IPv6)

/-! ## The decoder -/

section

variable {ι : Type} (readFull : ReadFull ι)

def readPortInto : Reading ι UInt16 := do
  Reading.readFullFrom readFull 2
  return UInt16.ofNat (ofBigEndian (← Reading.bytesFrom (-2)))

/-- The branches of IP addresses. -/
def readIPInto (size : ℕ) : Reading ι (Option Address) := do
  Reading.readFullFrom readFull size
  return ipAddress (← Reading.bytesFrom (-size))

/-- The address of the text of a domain, of which the first byte is indexed. -/
def parseDomain (domain : Bytes) : Reading ι (Option Address) := do
  let first ← Reading.ofOption domain.head?
  if maybeIPPrefix first && (parseAddress parseIP domain).family != .domain then
    return some (parseAddress parseIP domain)
  else if !isValidDomain domain then Reading.error invalidDomainName
  else return some (.domain domain)

/-- The branch of domains. -/
def readDomainInto : Reading ι (Option Address) := do
  Reading.readFullFrom readFull 1
  let domainLength ← Reading.byte ((← Reading.len) - 1)
  Reading.readFullFrom readFull domainLength.toNat
  parseDomain parseIP (← Reading.bytesFrom (-domainLength.toNat))

def readAddressInto : Reading ι (Option Address) := do
  Reading.readFullFrom readFull 1
  let addrType := p.parseType (← Reading.byte ((← Reading.len) - 1))
  if addrType ≥ 16 then Reading.error unknownAddressType
  else
    match p.addrTypeMap addrType with
    | none => Reading.error unknownAddressType
    | some .ipv4 => readIPInto readFull 4
    | some .ipv6 => readIPInto readFull 16
    | some .domain => readDomainInto parseIP readFull

def readBothInto : Reading ι (Option Address × UInt16) :=
  if p.portFirst then do
    let port ← readPortInto readFull
    let addr ← p.readAddressInto parseIP readFull
    return (addr, port)
  else do
    let addr ← p.readAddressInto parseIP readFull
    let port ← readPortInto readFull
    return (addr, port)

/-- `ReadAddressPort`, into a new buffer if none is given. -/
def readAddressPortInto (buffer : Option Buffer) : ι → Outcome (Option Address × UInt16) × Buffer × ι :=
  p.readBothInto parseIP readFull (buffer.getD .new)

end

/-! ## What the bytes stand for -/

/-- The bytes are those of an address, behind a type that stands for its family. -/
inductive Denotes : Address → Bytes → Prop
  | ipv4 {tb : UInt8} (ip : IPv4) : p.parseType tb < 16 →
    p.addrTypeMap (p.parseType tb) = some .ipv4 → Denotes (.ipv4 ip) (tb :: ip.1)
  /-- An IPv4 address may be mapped. -/
  | ipv6 {tb : UInt8} (ip : IPv6) : p.parseType tb < 16 →
    p.addrTypeMap (p.parseType tb) = some .ipv6 → Denotes (.ofIPv6 ip) (tb :: ip.1)
  | domain {tb n : UInt8} {name : Bytes} : p.parseType tb < 16 →
    p.addrTypeMap (p.parseType tb) = some .domain → 1 ≤ name.length → n.toNat = name.length →
    isValidDomain name = true → Denotes (.domain name) (tb :: n :: name)
  /-- The domain is the text of an IP address. -/
  | literal {tb n : UInt8} {name : Bytes} : p.parseType tb < 16 →
    p.addrTypeMap (p.parseType tb) = some .domain → 1 ≤ name.length → n.toNat = name.length →
    (parseAddress parseIP name).family ≠ .domain →
    Denotes (parseAddress parseIP name) (tb :: n :: name)

/-- The bytes are those of an address and a port. -/
def DenotesBoth (addr : Address) (port : UInt16) (bytes : Bytes) : Prop :=
  ∃ enc, p.Denotes parseIP addr enc ∧
    bytes = if p.portFirst then writePort port ++ enc else enc ++ writePort port

variable {p parseIP}

/-! ## Texts that end in a zero -/

theorem mem_trimLeft {chars : List Bytes} {x : UInt8} (hx : ∀ char ∈ chars, x ∉ char) (fuel : ℕ)
    {s : Bytes} (hs : x ∈ s) : x ∈ trimLeft chars fuel s := by
  induction fuel generalizing s with
  | zero => exact hs
  | succ fuel ih =>
    rw [trimLeft]
    split
    · exact hs
    · rename_i char hchar
      refine ih ?_
      have hprefix : char.isPrefixOf s = true := by simpa using List.find?_some hchar
      obtain ⟨rest, rfl⟩ := List.isPrefixOf_iff_prefix.1 hprefix
      rw [List.drop_left]
      exact (List.mem_append.1 hs).resolve_left (hx char (List.mem_of_find?_eq_some hchar))

theorem zero_mem_trimSpace {s : Bytes} (hs : 0 ∈ s) : 0 ∈ trimSpace s := by
  have hspaces : ∀ char ∈ spaces, (0 : UInt8) ∉ char := by decide
  rw [trimSpace, List.mem_reverse]
  refine mem_trimLeft ?_ _ (List.mem_reverse.2 (mem_trimLeft hspaces _ hs))
  intro char hchar
  obtain ⟨char', hchar', rfl⟩ := List.mem_map.1 hchar
  rw [List.mem_reverse]
  exact hspaces char' hchar'

/-- A text that ends in a zero is not that of an IP address, if no such text has a zero. -/
theorem parseAddress_zero (hparse : ∀ text ip, parseIP text = some ip → 0 ∉ text) (s : Bytes) :
    (parseAddress parseIP (s ++ [0])).family = .domain := by
  have hlast : (s ++ [0]).getLast? = some (0 : UInt8) := List.getLast?_concat
  have hbracket : ((s ++ [0]).head? == some 0x5b && (s ++ [0]).getLast? == some (0x5d : UInt8)) =
      false := by rw [hlast, Bool.and_eq_false_iff]; exact .inr rfl
  have hzero : (0 : UInt8) ∈ s ++ [0] := List.mem_append_right s (List.mem_singleton_self 0)
  rw [parseAddress, hbracket, if_neg Bool.false_ne_true]
  split
  · next ip hip =>
    refine absurd ?_ (hparse _ ip hip)
    split_ifs
    · exact zero_mem_trimSpace hzero
    · exact hzero
  · rfl

theorem isValidDomain_zero (s : Bytes) : isValidDomain (s ++ [0]) = false := by
  rw [isValidDomain, List.all_append, Bool.and_eq_false_iff]
  exact .inr (by decide)

/-! ## The triples -/

section

variable {ι : Type} {readFull : ReadFull ι} {toBytes : ι → Bytes} {c : Bytes}

theorem readPortInto_yields (hread : readFull.IsLawful toBytes) :
    (readPortInto readFull).Yields toBytes c fun port l => l = writePort port := by
  refine (Reading.Yields.readFullFrom hread (Q := fun _ l => l.length = 2) fun _ h => h).bind ?_
  rintro - l hl
  have hne : l ≠ [] := fun hnil => by rw [hnil] at hl; cases hl
  rw [show (-2 : ℤ) = -(l.length : ℤ) by rw [hl]; rfl]
  refine (Reading.Yields.bytesFrom_last rfl hne (Q := fun b l' => b = l ∧ l' = []) ⟨rfl, rfl⟩).bind ?_
  rintro b l' ⟨rfl, rfl⟩
  refine Reading.Yields.pure ?_
  have hlt : ofBigEndian b < 2 ^ 16 := (ofBigEndian_lt b).trans_le (by rw [hl]; decide)
  rw [writePort, UInt16.toNat_ofNat_of_lt' hlt, ← hl, bigEndian_ofBigEndian, List.append_nil,
    List.append_nil]

theorem readIPInto_yields (hread : readFull.IsLawful toBytes) {size : ℕ} (hsize : 0 < size) :
    (readIPInto readFull size).Yields toBytes c fun addr l => l.length = size ∧ addr = ipAddress l := by
  refine (Reading.Yields.readFullFrom hread (Q := fun _ l => l.length = size) fun _ h => h).bind ?_
  rintro - l rfl
  refine (Reading.Yields.bytesFrom_last rfl (List.length_pos_iff.1 hsize)
    (Q := fun b l' => b = l ∧ l' = []) ⟨rfl, rfl⟩).bind ?_
  rintro b l' ⟨rfl, rfl⟩
  exact Reading.Yields.pure ⟨by simp, by simp⟩

/-- A domain that is not empty is read as an address, or refused. -/
theorem parseDomain_yields {name : Bytes} (hne : name ≠ []) :
    (parseDomain parseIP name : Reading ι _).Yields toBytes c fun addr l => l = [] ∧
      ((parseAddress parseIP name).family ≠ .domain ∧ addr = some (parseAddress parseIP name) ∨
        isValidDomain name = true ∧ addr = some (.domain name)) := by
  obtain ⟨first, rest, rfl⟩ := List.exists_cons_of_ne_nil hne
  refine (Reading.Yields.ofOption (Q := fun _ l => l = []) rfl).bind ?_
  rintro a l rfl
  split_ifs with hliteral hvalid
  · rw [Bool.and_eq_true, bne_iff_ne] at hliteral
    exact Reading.Yields.pure ⟨rfl, .inl ⟨hliteral.2, rfl⟩⟩
  · exact Reading.Yields.error
  · exact Reading.Yields.pure ⟨rfl, .inr ⟨by simpa using hvalid, rfl⟩⟩

/-- A domain of length zero is refused, whatever there is in the buffer. -/
theorem parseDomain_zero (hparse : ∀ text ip, parseIP text = some ip → 0 ∉ text) (s : Bytes)
    {Q : Option Address → Bytes → Prop} :
    (parseDomain parseIP (s ++ [0]) : Reading ι _).Yields toBytes c Q := by
  refine (parseDomain_yields (by simp)).mono ?_
  rintro addr l ⟨-, hliteral | hvalid⟩
  · exact absurd (parseAddress_zero hparse s) hliteral.1
  · exact absurd hvalid.1 (by rw [isValidDomain_zero]; exact Bool.false_ne_true)

theorem readDomainInto_yields (hparse : ∀ text ip, parseIP text = some ip → 0 ∉ text)
    (hread : readFull.IsLawful toBytes) :
    (readDomainInto parseIP readFull).Yields toBytes c fun addr l => ∃ n name,
      l = n :: name ∧ 1 ≤ name.length ∧ UInt8.toNat n = name.length ∧
      ((parseAddress parseIP name).family ≠ .domain ∧ addr = some (parseAddress parseIP name) ∨
        isValidDomain name = true ∧ addr = some (.domain name)) := by
  refine (Reading.Yields.readFullFrom hread (Q := fun _ l => l.length = 1) fun _ h => h).bind ?_
  rintro - l hl
  obtain ⟨n, rfl⟩ := List.length_eq_one_iff.1 hl
  refine (Reading.Yields.len (Q := fun a l => a = (c ++ [n]).length ∧ l = []) ⟨rfl, rfl⟩).bind ?_
  rintro _ _ ⟨rfl, rfl⟩
  rw [List.append_nil]
  refine (Reading.Yields.byte_last rfl rfl (Q := fun a l => a = n ∧ l = []) ⟨rfl, rfl⟩).bind ?_
  rintro _ _ ⟨rfl, rfl⟩
  rename_i n
  refine (Reading.Yields.readFullFrom hread (Q := fun _ l => l.length = n.toNat) fun _ h => h).bind ?_
  rintro - name hname
  rw [List.append_nil]
  rcases List.eq_nil_or_concat name with rfl | ⟨init, last, rfl⟩
  · -- The index is that of the start: the domain is all there is.
    obtain rfl : n = 0 := UInt8.toNat_inj.1 hname.symm
    refine (Reading.Yields.bytesFrom_zero (Q := fun b l => b = c ++ [0] ∧ l = [])
      ⟨List.append_nil _, rfl⟩).bind ?_
    rintro _ _ ⟨rfl, rfl⟩
    exact parseDomain_zero hparse c
  · generalize hdomain : init.concat last = name at hname ⊢
    have hne : name ≠ [] := by
      rw [← hdomain, List.concat_eq_append]
      exact List.append_ne_nil_of_right_ne_nil _ (List.cons_ne_nil _ _)
    rw [← hname]
    refine (Reading.Yields.bytesFrom_last rfl hne (Q := fun b l => b = name ∧ l = [])
      ⟨rfl, rfl⟩).bind ?_
    rintro _ _ ⟨rfl, rfl⟩
    refine (parseDomain_yields hne).mono ?_
    rintro addr l ⟨rfl, haddr⟩
    exact ⟨n, _, by simp, List.length_pos_iff.2 hne, hname.symm, haddr⟩

theorem readAddressInto_yields (hparse : ∀ text ip, parseIP text = some ip → 0 ∉ text)
    (hread : readFull.IsLawful toBytes) :
    (p.readAddressInto parseIP readFull).Yields toBytes c fun addr l =>
      ∃ a, addr = some a ∧ p.Denotes parseIP a l := by
  refine (Reading.Yields.readFullFrom hread (Q := fun _ l => l.length = 1) fun _ h => h).bind ?_
  rintro - l hl
  obtain ⟨tb, rfl⟩ := List.length_eq_one_iff.1 hl
  refine (Reading.Yields.len (Q := fun a l => a = (c ++ [tb]).length ∧ l = []) ⟨rfl, rfl⟩).bind ?_
  rintro _ _ ⟨rfl, rfl⟩
  rw [List.append_nil]
  refine (Reading.Yields.byte_last rfl rfl (Q := fun a l => a = tb ∧ l = []) ⟨rfl, rfl⟩).bind ?_
  rintro _ _ ⟨rfl, rfl⟩
  rename_i tb
  dsimp only
  split_ifs with hsmall
  · exact Reading.Yields.error
  have hsmall' : p.parseType tb < 16 := UInt8.not_le.1 hsmall
  split
  · exact Reading.Yields.error
  · next hfamily =>
    refine (readIPInto_yields hread (by decide)).mono ?_
    rintro addr ip ⟨hip, rfl⟩
    exact ⟨.ipv4 ⟨ip, hip⟩, dif_pos hip, .ipv4 ⟨ip, hip⟩ hsmall' hfamily⟩
  · next hfamily =>
    refine (readIPInto_yields hread (by decide)).mono ?_
    rintro addr ip ⟨hip, rfl⟩
    refine ⟨.ofIPv6 ⟨ip, hip⟩, ?_, .ipv6 ⟨ip, hip⟩ hsmall' hfamily⟩
    rw [ipAddress, dif_neg (by rw [hip]; decide), dif_pos hip]
  · next hfamily =>
    refine (readDomainInto_yields hparse hread).mono ?_
    rintro addr l ⟨n, name, rfl, hpos, hn, ⟨hliteral, rfl⟩ | ⟨hvalid, rfl⟩⟩
    · exact ⟨_, rfl, .literal hsmall' hfamily hpos hn hliteral⟩
    · exact ⟨_, rfl, .domain hsmall' hfamily hpos hn hvalid⟩

theorem readBothInto_yields (hparse : ∀ text ip, parseIP text = some ip → 0 ∉ text)
    (hread : readFull.IsLawful toBytes) :
    (p.readBothInto parseIP readFull).Yields toBytes c fun both l =>
      ∃ a, both.1 = some a ∧ p.DenotesBoth parseIP a both.2 l := by
  rw [readBothInto]
  split_ifs with hfirst
  · refine (readPortInto_yields hread).bind ?_
    rintro port _ rfl
    refine (readAddressInto_yields hparse hread).bind ?_
    rintro _ l ⟨a, rfl, ha⟩
    exact Reading.Yields.pure ⟨a, rfl, l, ha, by rw [if_pos hfirst, List.append_nil]⟩
  · refine (readAddressInto_yields hparse hread).bind ?_
    rintro _ l ⟨a, rfl, ha⟩
    refine (readPortInto_yields hread).bind ?_
    rintro port _ rfl
    exact Reading.Yields.pure ⟨a, rfl, l, ha, by rw [if_neg hfirst, List.append_nil]⟩

end

section

variable {ι : Type} {readFull : ReadFull ι} {S : ι → Bytes → ι → Prop}

theorem readPortInto_takes (hread : readFull.Follows S) : (readPortInto readFull).Takes S :=
  .bind hread.toIsPath (.readFullFrom hread 2) fun _ =>
    .bind hread.toIsPath (.of_eq hread.toIsPath fun _ _ => rfl) fun _ =>
      .of_eq hread.toIsPath fun _ _ => rfl

theorem readIPInto_takes (hread : readFull.Follows S) (size : ℕ) :
    (readIPInto readFull size).Takes S :=
  .bind hread.toIsPath (.readFullFrom hread size) fun _ =>
    .bind hread.toIsPath (.of_eq hread.toIsPath fun _ _ => rfl) fun _ =>
      .of_eq hread.toIsPath fun _ _ => rfl

theorem parseDomain_takes (hS : IsPath S) (domain : Bytes) :
    (parseDomain parseIP domain : Reading ι (Option Address)).Takes S := by
  refine .bind hS (.of_eq hS fun _ _ => rfl) fun first => ?_
  split_ifs <;> exact .of_eq hS fun _ _ => rfl

theorem readDomainInto_takes (hread : readFull.Follows S) :
    (readDomainInto parseIP readFull).Takes S := by
  have hS := hread.toIsPath
  refine .bind hS (.readFullFrom hread 1) fun _ => ?_
  refine .bind hS (.of_eq hS fun _ _ => rfl) fun _ => ?_
  refine .bind hS (.of_eq hS fun _ _ => rfl) fun domainLength => ?_
  refine .bind hS (.readFullFrom hread domainLength.toNat) fun _ => ?_
  exact .bind hS (.of_eq hS fun _ _ => rfl) (parseDomain_takes hS)

/-- The first byte is read before all else. -/
theorem readAddressInto_took {S' : ι → Bytes → ι → Prop}
    (htrans : ∀ {i i' i'' l l'}, S' i l i' → S i' l' i'' → S' i (l ++ l') i'')
    (hread : readFull.Follows S) {b : Buffer} {i : ι}
    (hfirst : Reading.Took S' (b, i) (Reading.readFullFrom readFull 1 b i).2) :
    Reading.Took S' (b, i) (p.readAddressInto parseIP readFull b i).2 := by
  have hS := hread.toIsPath
  refine .bind htrans hfirst fun _ => ?_
  refine .bind hS (.of_eq hS fun _ _ => rfl) fun _ => .bind hS (.of_eq hS fun _ _ => rfl) fun _ => ?_
  dsimp only
  split_ifs
  · exact .of_eq hS fun _ _ => rfl
  split
  · exact .of_eq hS fun _ _ => rfl
  · exact readIPInto_takes hread 4
  · exact readIPInto_takes hread 16
  · exact readDomainInto_takes hread

theorem readAddressInto_takes (hread : readFull.Follows S) :
    (p.readAddressInto parseIP readFull).Takes S :=
  fun b i => readAddressInto_took hread.trans hread (Reading.Takes.readFullFrom hread 1 b i)

/-- The decoder appends what it takes to the buffer, even where it fails. -/
theorem readBothInto_takes (hread : readFull.Follows S) :
    (p.readBothInto parseIP readFull).Takes S := by
  have hS := hread.toIsPath
  rw [readBothInto]
  split_ifs
  · exact .bind hS (readPortInto_takes hread) fun _ =>
      .bind hS (readAddressInto_takes hread) fun _ => .of_eq hS fun _ _ => rfl
  · exact .bind hS (readAddressInto_takes hread) fun _ =>
      .bind hS (readPortInto_takes hread) fun _ => .of_eq hS fun _ _ => rfl

/-- Where the address comes first, its first byte is read before all else. -/
theorem readBothInto_took {S' : ι → Bytes → ι → Prop}
    (htrans : ∀ {i i' i'' l l'}, S' i l i' → S i' l' i'' → S' i (l ++ l') i'')
    (hread : readFull.Follows S) (hlast : p.portFirst = false) {b : Buffer} {i : ι}
    (hfirst : Reading.Took S' (b, i) (Reading.readFullFrom readFull 1 b i).2) :
    Reading.Took S' (b, i) (p.readBothInto parseIP readFull b i).2 := by
  have hS := hread.toIsPath
  rw [readBothInto, if_neg (by simp [hlast])]
  exact .bind htrans (readAddressInto_took htrans hread hfirst) fun _ =>
    .bind hS (readPortInto_takes hread) fun _ => .of_eq hS fun _ _ => rfl

end

/-! ## The two decoders -/

/-- From a buffer and an input, the reading does as the function does that takes the content of the
    buffer and returns it with what was read. -/
def Agrees {ι α : Type} (m : Reading ι α) (f : Bytes → ι → Except Error (α × Bytes) × ι) : Prop :=
  ∀ (b : Buffer) (r : ι), b.start = 0 →
    (∃ e b' r', m b r = (.error e, b', r') ∧ f b.bytes r = (.error e, r')) ∨
    ∃ a b' r', m b r = (.ok a, b', r') ∧ f b.bytes r = (.ok (a, b'.bytes), r') ∧ b'.start = 0

section

variable {ι : Type} {readFull : ReadFull ι}

/-- A read fails or not. -/
theorem readFullFrom_cases (hfull : readFull.IsFull) {b : Buffer} (hb : b.start = 0) (r : ι) (n : ℕ) :
    (∃ e b' r', Reading.readFullFrom readFull n b r = (.error e, b', r') ∧
      readFullFrom readFull.full b.bytes r n = (.error e, r')) ∨
    ∃ l b' r', Reading.readFullFrom readFull n b r = (.ok (), b', r') ∧
      readFullFrom readFull.full b.bytes r n = (.ok (b.bytes ++ l), r') ∧
      b'.bytes = b.bytes ++ l ∧ b'.start = 0 ∧ l.length = n := by
  have hstop : b.stop = b.bytes.length := by rw [Buffer.stop, hb, Nat.zero_add]
  rw [Reading.readFullFrom, readFullFrom, hstop]
  split_ifs with hroom
  · exact .inl ⟨_, _, _, rfl, rfl⟩
  · obtain ⟨hle, hlength⟩ := hfull r n
    rw [ReadFull.full]
    rcases hread : readFull r n with ⟨l, - | e, r'⟩ <;> rw [hread] at hle hlength
    · exact .inr ⟨l, _, r', rfl, rfl, b.write_bytes (by dsimp only at hle; omega), hb, hlength rfl⟩
    · exact .inl ⟨e, _, r', rfl, rfl⟩

theorem readPort_agrees (hfull : readFull.IsFull) : Agrees (readPortInto readFull)
    (readPort readFull.full) := by
  intro b r hb
  rw [readPort]
  rcases readFullFrom_cases hfull hb r 2 with ⟨e, b', r', hnew, hold⟩ | ⟨l, b', r', hnew, hold, hl, hb', h2⟩
  · exact .inl ⟨e, b', r', Reading.bind_of_error hnew, by rw [hold]⟩
  · have hne : l ≠ [] := fun hnil => by rw [hnil] at h2; cases h2
    have hfrom : Reading.bytesFrom (-2) b' r' = (.ok l, b', r') := by
      rw [← Reading.bytesFrom_append hl hne, h2]
      rfl
    refine .inr ⟨UInt16.ofNat (ofBigEndian l), b', r',
      (Reading.bind_of_ok hnew).trans (Reading.bind_of_ok hfrom), ?_, hb'⟩
    rw [hold, hl, ← h2]
    dsimp only
    rw [bytesFromEnd_append _ _ hne]

theorem readIP_agrees (hfull : readFull.IsFull) {size : ℕ} (hsize : 0 < size) :
    Agrees (readIPInto readFull size) (readIP readFull.full size) := by
  intro b r hb
  rw [readIP]
  rcases readFullFrom_cases hfull hb r size with
    ⟨e, b', r', hnew, hold⟩ | ⟨l, b', r', hnew, hold, hl, hb', rfl⟩
  · exact .inl ⟨e, b', r', Reading.bind_of_error hnew, by rw [hold]⟩
  · have hne : l ≠ [] := List.length_pos_iff.1 hsize
    refine .inr ⟨ipAddress l, b', r',
      (Reading.bind_of_ok hnew).trans (Reading.bind_of_ok (Reading.bytesFrom_append hl hne)), ?_, hb'⟩
    rw [hold, hl]
    dsimp only
    rw [bytesFromEnd_append _ _ hne]

/-- The slice that starts as many bytes before the end. -/
theorem bytesFrom_eq {b : Buffer} {n : ℕ} (hn : n ≤ b.bytes.length) (r : ι) :
    Reading.bytesFrom (-(n : ℤ)) b r = (.ok (bytesFromEnd b.bytes n), b, r) := by
  rw [bytesFromEnd]
  split_ifs with hzero
  · rw [hzero]
    exact Reading.bytesFrom_start
  · have hdrop : (b.bytes.drop (b.bytes.length - n)).length = n := by
      rw [List.length_drop]
      omega
    have hfrom := Reading.bytesFrom_append (i := r)
      (List.take_append_drop (b.bytes.length - n) b.bytes).symm
      (List.length_pos_iff.1 (by omega))
    rwa [hdrop] at hfrom

/-- The text of a domain that is not empty. -/
theorem parseDomain_eq {name : Bytes} (hne : name ≠ []) (b : Buffer) (r : ι) :
    parseDomain parseIP name b r = match domainAddress parseIP name with
      | .ok a => (.ok (some a), b, r)
      | .error e => (.error e, b, r) := by
  obtain ⟨first, rest, rfl⟩ := List.exists_cons_of_ne_nil hne
  rw [domainAddress, isIPLiteral, List.headD_cons]
  have hfirst : (Reading.ofOption (first :: rest).head? : Reading ι UInt8) b r =
      (.ok first, b, r) := rfl
  rw [parseDomain, Reading.bind_of_ok hfirst]
  split_ifs <;> rfl

theorem readDomain_agrees (hfull : readFull.IsFull) :
    Agrees (readDomainInto parseIP readFull)
    (readDomain parseIP readFull.full) := by
  intro b r hb
  rw [readDomain]
  rcases readFullFrom_cases hfull hb r 1 with ⟨e, b₁, r₁, hnew, hold⟩ | ⟨l, b₁, r₁, hnew, hold, hl, hb₁, h1⟩
  · exact .inl ⟨e, b₁, r₁, Reading.bind_of_error hnew, by rw [hold]⟩
  obtain ⟨n, rfl⟩ := List.length_eq_one_iff.1 h1
  have hbyte : Reading.byte ((b₁.len : ℤ) - 1) b₁ r₁ = (.ok n, b₁, r₁) := Reading.byte_concat hl rfl
  have hnew₁ (f : ℤ → Reading ι (Option Address)) :
      (Reading.len >>= f) b₁ r₁ = f b₁.len b₁ r₁ := Reading.bind_of_ok rfl
  rw [hold]
  dsimp only
  rw [List.getLastD_concat, ← hl, readDomainInto, Reading.bind_of_ok hnew, hnew₁,
    Reading.bind_of_ok hbyte]
  rcases readFullFrom_cases hfull hb₁ r₁ n.toNat with
    ⟨e, b₂, r₂, hnew₂, hold₂⟩ | ⟨name, b₂, r₂, hnew₂, hold₂, hl₂, hb₂, hname⟩
  · exact .inl ⟨e, b₂, r₂, Reading.bind_of_error hnew₂, by rw [hold₂]⟩
  rw [hold₂, ← hl₂, Reading.bind_of_ok hnew₂]
  -- With a length of zero, both take the whole content.
  have hfrom : Reading.bytesFrom (-(n.toNat : ℤ)) b₂ r₂ =
      (.ok (bytesFromEnd b₂.bytes n.toNat), b₂, r₂) :=
    bytesFrom_eq (by rw [hl₂, List.length_append, hname]; exact Nat.le_add_left _ _) r₂
  have hne : bytesFromEnd b₂.bytes n.toNat ≠ [] := by
    rw [bytesFromEnd]
    split_ifs with hzero
    · rw [hl₂, hl]
      simp
    · rw [Ne, List.drop_eq_nil_iff, hl₂, List.length_append]
      omega
  rw [Reading.bind_of_ok hfrom, parseDomain_eq hne]
  dsimp only
  rcases domainAddress parseIP (bytesFromEnd b₂.bytes n.toNat) with e | a
  · exact .inl ⟨e, b₂, r₂, rfl, rfl⟩
  · exact .inr ⟨some a, b₂, r₂, rfl, rfl, hb₂⟩

theorem readAddress_agrees (hfull : readFull.IsFull) (p : AddressParser)
    (parseIP : Bytes → Option IPv6) : Agrees (p.readAddressInto parseIP readFull)
    (p.readAddress parseIP readFull.full) := by
  intro b r hb
  rw [readAddress]
  rcases readFullFrom_cases hfull hb r 1 with ⟨e, b₁, r₁, hnew, hold⟩ | ⟨l, b₁, r₁, hnew, hold, hl, hb₁, h1⟩
  · exact .inl ⟨e, b₁, r₁, Reading.bind_of_error hnew, by rw [hold]⟩
  obtain ⟨tb, rfl⟩ := List.length_eq_one_iff.1 h1
  have hbyte : Reading.byte ((b₁.len : ℤ) - 1) b₁ r₁ = (.ok tb, b₁, r₁) := Reading.byte_concat hl rfl
  have hnew₁ (f : ℤ → Reading ι (Option Address)) :
      (Reading.len >>= f) b₁ r₁ = f b₁.len b₁ r₁ := Reading.bind_of_ok rfl
  rw [hold]
  dsimp only
  rw [List.getLastD_concat, ← hl, readAddressInto, Reading.bind_of_ok hnew, hnew₁,
    Reading.bind_of_ok hbyte]
  by_cases hsmall : p.parseType tb ≥ 16
  · rw [if_pos hsmall, if_pos hsmall]
    exact .inl ⟨unknownAddressType, b₁, r₁, rfl, rfl⟩
  rw [if_neg hsmall, if_neg hsmall]
  rcases p.addrTypeMap (p.parseType tb) with - | - | - | -
  · exact .inl ⟨unknownAddressType, b₁, r₁, rfl, rfl⟩
  · exact readIP_agrees hfull (by decide) b₁ r₁ hb₁
  · exact readIP_agrees hfull (by decide) b₁ r₁ hb₁
  · exact readDomain_agrees hfull b₁ r₁ hb₁

/-- An address and its port, as a pair. -/
theorem readBothInto_agrees (hfull : readFull.IsFull) (p : AddressParser)
    (parseIP : Bytes → Option IPv6) : Agrees (p.readBothInto parseIP readFull) fun b r =>
      match p.readAddressPort parseIP readFull.full b r with
      | (.ok (addr, port, b), r) => (.ok ((addr, port), b), r)
      | (.error e, r) => (.error e, r) := by
  intro b r hb
  dsimp only
  rw [readAddressPort, readBothInto]
  split_ifs with hfirst
  · rcases readPort_agrees hfull b r hb with ⟨e, b₁, r₁, hnew, hold⟩ | ⟨port, b₁, r₁, hnew, hold, hb₁⟩
    · exact .inl ⟨e, b₁, r₁, Reading.bind_of_error hnew, by rw [hold]⟩
    rw [hold, Reading.bind_of_ok hnew]
    dsimp only
    rcases readAddress_agrees hfull p parseIP b₁ r₁ hb₁ with
      ⟨e, b₂, r₂, hnew₂, hold₂⟩ | ⟨addr, b₂, r₂, hnew₂, hold₂, hb₂⟩
    · exact .inl ⟨e, b₂, r₂, Reading.bind_of_error hnew₂, by rw [hold₂]⟩
    · exact .inr ⟨(addr, port), b₂, r₂, Reading.bind_of_ok hnew₂, by rw [hold₂], hb₂⟩
  · rcases readAddress_agrees hfull p parseIP b r hb with
      ⟨e, b₁, r₁, hnew, hold⟩ | ⟨addr, b₁, r₁, hnew, hold, hb₁⟩
    · exact .inl ⟨e, b₁, r₁, Reading.bind_of_error hnew, by rw [hold]⟩
    rw [hold, Reading.bind_of_ok hnew]
    dsimp only
    rcases readPort_agrees hfull b₁ r₁ hb₁ with
      ⟨e, b₂, r₂, hnew₂, hold₂⟩ | ⟨port, b₂, r₂, hnew₂, hold₂, hb₂⟩
    · exact .inl ⟨e, b₂, r₂, Reading.bind_of_error hnew₂, by rw [hold₂]⟩
    · exact .inr ⟨(addr, port), b₂, r₂, Reading.bind_of_ok hnew₂, by rw [hold₂], hb₂⟩

/-- From a buffer that starts at its array, both decoders do the same. -/
theorem readAddressPort_eq (hfull : readFull.IsFull) (p : AddressParser)
    (parseIP : Bytes → Option IPv6) {b : Buffer} (hb : b.start = 0) (r : ι) :
    p.readAddressPort parseIP readFull.full b.bytes r =
      match p.readAddressPortInto parseIP readFull (some b) r with
      | (.ok (addr, port), b', r') => (.ok (addr, port, b'.bytes), r')
      | (.error e, _, r') => (.error e, r')
      | (.panic, _, r') => (.error outOfBound, r') := by
  have hagrees := readBothInto_agrees hfull p parseIP b r hb
  dsimp only at hagrees
  rw [readAddressPortInto, Option.getD_some]
  generalize p.readAddressPort parseIP readFull.full b.bytes r = old at hagrees ⊢
  obtain ⟨e' | ⟨addr, port, b'⟩, r'⟩ := old
  · rcases hagrees with ⟨e, b₁, r₁, hnew, hold⟩ | ⟨a, b₁, r₁, -, hold, -⟩
    · rw [hnew]
      cases hold
      rfl
    · cases hold
  · rcases hagrees with ⟨e, b₁, r₁, -, hold⟩ | ⟨a, b₁, r₁, hnew, hold, -⟩
    · cases hold
    · rw [hnew]
      cases hold
      rfl

end

/-! ## Soundness -/

/-- Whatever is read, in whatever segments, and whatever is in the buffer: the decoder does not
    panic, and what it returns is what the bytes that it takes stand for. -/
theorem readAddressPortInto_sound (p : AddressParser) {parseIP : Bytes → Option IPv6}
    (hparse : ∀ text ip, parseIP text = some ip → 0 ∉ text) (buffer : Option Buffer)
    (r : BufferedReader) :
    (p.readAddressPortInto parseIP BufferedReader.readInto buffer r).1 ≠ .panic ∧
      ∀ addr port b' r', p.readAddressPortInto parseIP BufferedReader.readInto buffer r =
        (.ok (addr, port), b', r') →
          ∃ a bytes, addr = some a ∧ p.DenotesBoth parseIP a port bytes ∧
            r.bytes = bytes ++ r'.bytes := by
  obtain ⟨l, -, htaken, hpanic, hok⟩ :=
    readBothInto_yields (p := p) hparse BufferedReader.readInto_isLawful (buffer.getD .new) r rfl
  refine ⟨hpanic, fun addr port b' r' h => ?_⟩
  have hread : p.readBothInto parseIP BufferedReader.readInto (buffer.getD .new) r = _ := h
  rw [hread] at htaken hok
  obtain ⟨a, ha, hbytes⟩ := hok (addr, port) rfl
  exact ⟨a, l, ha, hbytes, htaken⟩

/-- A domain that starts with a digit and is no IP address. -/
theorem readAddressPortInto_sound_example :
    addrParser.readAddressPortInto (fun _ => none) BufferedReader.readInto none
      ⟨[], [[⟨0, [0, 80, 2, 2, 0x31], by decide⟩], [⟨0, [0x61, 9], by decide⟩]], .eof⟩ =
      (.ok (some (.domain [0x31, 0x61]), 80), ⟨0, [0, 80, 2, 2, 0x31, 0x61], by decide⟩,
        ⟨[⟨1, [9], by decide⟩], [], .eof⟩) ∧
    ∃ a bytes, some (.domain [0x31, 0x61]) = some a ∧
      addrParser.DenotesBoth (fun _ => none) a 80 bytes ∧ [0, 80, 2, 2, 0x31, 0x61, 9] = bytes ++ [9] := by
  have hread : addrParser.readAddressPortInto (fun _ => none) BufferedReader.readInto none
      ⟨[], [[⟨0, [0, 80, 2, 2, 0x31], by decide⟩], [⟨0, [0x61, 9], by decide⟩]], .eof⟩ =
      (.ok (some (.domain [0x31, 0x61]), 80), ⟨0, [0, 80, 2, 2, 0x31, 0x61], by decide⟩,
        ⟨[⟨1, [9], by decide⟩], [], .eof⟩) := by
    rfl
  exact ⟨hread, (@readAddressPortInto_sound addrParser (fun _ => none)
    (fun _ _ h => absurd h (by simp)) none _).2 _ _ _ _ hread⟩

end Gzv2ray.AddressParser
