import Gzv2ray.Net.Address

/-!
# Round trip of an address

What a parser writes, it reads back, the address in canonical form, from any
reader that `Feeds` the bytes; and it reads no byte behind them
(`AddressParser.readAddressPort_writeAddressPort`).

This takes a domain whose length fits in one byte. The writer lets one of 256
bytes through: it is written after a length of zero and is not read back
(`AddressParser.roundTrips_iff`).
-/

namespace Gzv2ray


section

variable {ι : Type} {readFull : ι → ℕ → Except Error Bytes × ι} {P : ι → Bytes → Prop}

/-- A reader of exact numbers of bytes, of which `P` tells the bytes to come. -/
def Feeds (readFull : ι → ℕ → Except Error Bytes × ι) (P : ι → Bytes → Prop) : Prop :=
  ∀ input b n, P input b → n ≤ b.length →
    ∃ input', readFull input n = (.ok (b.take n), input') ∧ P input' (b.drop n)

theorem feeds_bufferedReader (err : Error) :
    Feeds BufferedReader.readFull fun r b => r.bytes = b ∧ r.reader.err = err := by
  rintro r b n ⟨rfl, rfl⟩ hn
  obtain ⟨r', hread, hbytes, herr⟩ := r.readFull_ok hn
  exact ⟨r', hread, hbytes, herr⟩

theorem feeds_readFullBytes : Feeds readFullBytes Eq := by
  rintro input b n rfl hn
  exact ⟨_, by rw [readFullBytes, if_pos hn], rfl⟩

theorem feeds_buffer : Feeds Buffer.readFull fun b l => b.bytes = l := by
  rintro b _ n rfl hn
  rw [Buffer.readFull]
  split
  · rename_i h
    subst h
    exact ⟨b, rfl, rfl⟩
  · rw [if_pos (show n ≤ b.len from hn)]
    exact ⟨_, by rw [← Buffer.read_snd], Buffer.read_fst_bytes b n⟩

/-- As many bytes as come next are read. -/
theorem Feeds.append (hP : Feeds readFull P) {input : ι} {a rest : Bytes} {n : ℕ}
    (h : P input (a ++ rest)) (hn : a.length = n) :
    ∃ input', readFull input n = (.ok a, input') ∧ P input' rest := by
  obtain ⟨input', hread, hinput⟩ := hP input _ n h (by simp [← hn])
  rw [← hn, List.take_left] at hread
  rw [← hn, List.drop_left] at hinput
  exact ⟨input', hn ▸ hread, hinput⟩

/-- The bytes to come are read behind those in a buffer that has room for them. -/
theorem Feeds.readFullFrom (hP : Feeds readFull P) {input : ι} {b a rest : Bytes} {n : ℕ}
    (h : P input (a ++ rest)) (hn : a.length = n) (hroom : b.length + a.length ≤ bufSize) :
    ∃ input', readFullFrom readFull b input n = (.ok (b ++ a), input') ∧ P input' rest := by
  obtain ⟨input', hread, hinput⟩ := hP.append h hn
  rw [Gzv2ray.readFullFrom, if_neg (by omega), hread]
  exact ⟨input', rfl, hinput⟩

theorem bytesFromEnd_append (b a : Bytes) (h : a ≠ []) : bytesFromEnd (b ++ a) a.length = a := by
  rw [bytesFromEnd, if_neg (by simpa using h), List.length_append, Nat.add_sub_cancel,
    List.drop_left]

/-- The address is one that is read: a domain is an IP address in disguise or
    valid, and its length takes one byte. -/
def Address.IsReadable (parseIP : Bytes → Option IPv6) : Address → Prop
  | .domain name =>
    0 < name.length ∧ name.length ≤ 255 ∧ (isIPLiteral parseIP name ∨ isValidDomain name)
  | _ => True

namespace AddressParser

/-! ## Families -/

/-- The families are read from the bytes they are written as. -/
structure IsConsistent (p : AddressParser) : Prop where
  small {family tb} : p.addrByteMap family = some tb → tb < 16
  type {family tb} : p.addrByteMap family = some tb → p.addrTypeMap tb = some family
  plain {family tb} : p.addrByteMap family = some tb → p.parseType tb = tb

/-- The options give the families bytes of their own, which a parser of the types
    leaves as they are. -/
structure Registers (options : List AddressOption) : Prop where
  byte (f) : ∃ b h, .addressFamilyByte b h f ∈ options
  unique {b h f b' h' f'} : .addressFamilyByte b h f ∈ options →
    .addressFamilyByte b' h' f' ∈ options → (b = b' ↔ f = f')
  plain {atp b h f} : .withAddressTypeParser atp ∈ options →
    .addressFamilyByte b h f ∈ options → atp b = b

/-- A parser knows what some option told it. -/
theorem new_of_some (options : List AddressOption) :
    (∀ f b, (new options).addrByteMap f = some b → ∃ h, .addressFamilyByte b h f ∈ options) ∧
      (∀ b f, (new options).addrTypeMap b = some f → ∃ h, .addressFamilyByte b h f ∈ options) ∧
      ∀ atp, (new options).typeParser = some atp → .withAddressTypeParser atp ∈ options := by
  induction options using List.reverseRecOn with
  | nil => exact ⟨by simp [new], by simp [new], by simp [new]⟩
  | append_singleton options option ih =>
    obtain ⟨hbyte, htype, hatp⟩ := ih
    have hnew : new (options ++ [option]) = option.apply (new options) := by simp [new]
    simp only [hnew, List.mem_append, List.mem_singleton]
    cases option with
    | portThenAddress =>
      exact ⟨fun f b h => (hbyte f b h).imp fun _ => .inl, fun b f h => (htype b f h).imp fun _ => .inl,
        fun atp h => .inl (hatp atp h)⟩
    | addressFamilyByte b' h' f' =>
      refine ⟨fun f b h => ?_, fun b f h => ?_, fun atp h => .inl (hatp atp h)⟩
      · simp only [AddressOption.apply, Function.update_apply] at h
        split at h
        · rename_i hf; cases h; exact ⟨h', .inr (by rw [hf])⟩
        · exact (hbyte f b h).imp fun _ => .inl
      · simp only [AddressOption.apply, Function.update_apply] at h
        split at h
        · rename_i hb; cases h; exact ⟨hb ▸ h', .inr (by subst hb; rfl)⟩
        · exact (htype b f h).imp fun _ => .inl
    | withAddressTypeParser atp' =>
      refine ⟨fun f b h => (hbyte f b h).imp fun _ => .inl, fun b f h => (htype b f h).imp fun _ => .inl,
        fun atp h => .inr ?_⟩
      cases h
      rfl

/-- A parser knows the families and the bytes that options told it. -/
theorem new_of_mem {options : List AddressOption} {b : UInt8} {h : b < 16} {f : AddressFamily}
    (hmem : .addressFamilyByte b h f ∈ options) :
    ((new options).addrByteMap f).isSome ∧ ((new options).addrTypeMap b).isSome := by
  induction options using List.reverseRecOn with
  | nil => cases hmem
  | append_singleton options option ih =>
    have hnew : new (options ++ [option]) = option.apply (new options) := by simp [new]
    rw [hnew]
    rcases List.mem_append.1 hmem with hmem | hmem
    · obtain ⟨hbyte, htype⟩ := ih hmem
      cases option with
      | portThenAddress => exact ⟨hbyte, htype⟩
      | addressFamilyByte b' h' f' =>
        simp only [AddressOption.apply, Function.update_apply]
        exact ⟨by split <;> [rfl; exact hbyte], by split <;> [rfl; exact htype]⟩
      | withAddressTypeParser atp => exact ⟨hbyte, htype⟩
    · rw [← List.mem_singleton.1 hmem]
      simp [AddressOption.apply]

variable {options : List AddressOption}

/-- The byte that a registered family is written as. -/
theorem Registers.exists_byte (h : Registers options) (f : AddressFamily) :
    ∃ b, (new options).addrByteMap f = some b := by
  obtain ⟨b, hb, hmem⟩ := h.byte f
  exact Option.isSome_iff_exists.1 (new_of_mem hmem).1

theorem Registers.isConsistent (h : Registers options) : (new options).IsConsistent where
  small {f tb} htb := ((new_of_some options).1 f tb htb).1
  type {f tb} htb := by
    obtain ⟨hsmall, hmem⟩ := (new_of_some options).1 f tb htb
    obtain ⟨f', hf'⟩ := Option.isSome_iff_exists.1 (new_of_mem hmem).2
    obtain ⟨hsmall', hmem'⟩ := (new_of_some options).2.1 tb f' hf'
    rw [hf', (h.unique hmem hmem').1 rfl]
  plain {f tb} htb := by
    obtain ⟨hsmall, hmem⟩ := (new_of_some options).1 f tb htb
    rw [parseType]
    split
    · rename_i atp hatp
      exact h.plain ((new_of_some options).2.2 atp hatp) hmem
    · rfl

/-- Three options that give the families different bytes register them. -/
theorem registers_three {b₁ b₂ b₃ : UInt8} (h₁ : b₁ < 16) (h₂ : b₂ < 16) (h₃ : b₃ < 16)
    (h₁₂ : b₁ ≠ b₂) (h₁₃ : b₁ ≠ b₃) (h₂₃ : b₂ ≠ b₃) {options : List AddressOption}
    (hplain : ∀ atp, .withAddressTypeParser atp ∈ options → atp b₁ = b₁ ∧ atp b₂ = b₂ ∧ atp b₃ = b₃)
    (hother : ∀ b h f, .addressFamilyByte b h f ∉ options) :
    Registers (.addressFamilyByte b₁ h₁ .ipv4 :: .addressFamilyByte b₂ h₂ .domain ::
      .addressFamilyByte b₃ h₃ .ipv6 :: options) where
  byte f := by
    cases f with
    | ipv4 => exact ⟨b₁, h₁, by simp⟩
    | domain => exact ⟨b₂, h₂, by simp⟩
    | ipv6 => exact ⟨b₃, h₃, by simp⟩
  unique {b h f b' h' f'} hm hm' := by
    simp only [List.mem_cons, AddressOption.addressFamilyByte.injEq, hother, or_false] at hm hm'
    rcases hm with ⟨rfl, rfl⟩ | ⟨rfl, rfl⟩ | ⟨rfl, rfl⟩ <;>
      rcases hm' with ⟨rfl, rfl⟩ | ⟨rfl, rfl⟩ | ⟨rfl, rfl⟩ <;>
      simp [h₁₂, h₁₃, h₂₃, h₁₂.symm, h₁₃.symm, h₂₃.symm]
  plain {atp b h f} hatp hm := by
    simp only [List.mem_cons, AddressOption.addressFamilyByte.injEq, hother, or_false,
      reduceCtorEq, false_or] at hm hatp
    obtain ⟨hb₁, hb₂, hb₃⟩ := hplain atp hatp
    rcases hm with ⟨rfl, rfl⟩ | ⟨rfl, rfl⟩ | ⟨rfl, rfl⟩
    · exact hb₁
    · exact hb₂
    · exact hb₃

/-- The order of the options does not matter. -/
theorem Registers.perm {options' : List AddressOption} (h : Registers options)
    (hperm : options.Perm options') : Registers options' where
  byte f := by
    obtain ⟨b, hb, hmem⟩ := h.byte f
    exact ⟨b, hb, hperm.mem_iff.1 hmem⟩
  unique hm hm' := h.unique (hperm.mem_iff.2 hm) (hperm.mem_iff.2 hm')
  plain hm hm' := h.plain (hperm.mem_iff.2 hm) (hperm.mem_iff.2 hm')

/-- The families have the bytes of SOCKS. -/
theorem registers_socks
    (hplain : ∀ atp, .withAddressTypeParser atp ∈ options → atp 1 = 1 ∧ atp 3 = 3 ∧ atp 4 = 4)
    (hother : ∀ b h f, .addressFamilyByte b h f ∉ options) :
    Registers (.addressFamilyByte 0x01 AddressOption.one_lt .ipv4 ::
      .addressFamilyByte 0x04 AddressOption.four_lt .ipv6 ::
      .addressFamilyByte 0x03 AddressOption.three_lt .domain :: options) :=
  (registers_three _ _ _ (by decide) (by decide) (by decide) hplain hother).perm
    (.cons _ (.swap _ _ _))

theorem addrParser_registers : Registers [.addressFamilyByte 1 AddressOption.one_lt .ipv4,
    .addressFamilyByte 2 AddressOption.two_lt .domain,
    .addressFamilyByte 3 AddressOption.three_lt .ipv6, .portThenAddress] :=
  registers_three _ _ _ (by decide) (by decide) (by decide) (by simp) (by simp)

theorem addrParser_isConsistent : addrParser.IsConsistent := addrParser_registers.isConsistent

/-! ## What is written is read -/

variable {p : AddressParser} {parseIP : Bytes → Option IPv6}

theorem domainAddress_canonical {name : Bytes}
    (h : isIPLiteral parseIP name ∨ isValidDomain name) :
    domainAddress parseIP name = .ok ((Address.domain name).canonical parseIP) := by
  rw [domainAddress, Address.canonical]
  split
  · rfl
  · rename_i hliteral
    rw [h.resolve_left hliteral]
    rfl

theorem readIP_append (hP : Feeds readFull P) {input : ι} {b ip rest : Bytes} {addr : Address}
    (h : P input (ip ++ rest)) (hip : ipAddress ip = some addr) {n : ℕ} (hn : ip.length = n)
    (hpos : 0 < n) (hroom : b.length + ip.length ≤ bufSize) :
    ∃ input', readIP readFull n b input = (.ok (some addr, b ++ ip), input') ∧ P input' rest := by
  obtain ⟨input', hread, hinput⟩ := hP.readFullFrom h hn hroom
  have hne : ip ≠ [] := List.length_pos_iff.1 (hn ▸ hpos)
  rw [readIP, hread]
  dsimp only
  rw [← hn, bytesFromEnd_append _ _ hne, hip]
  exact ⟨input', rfl, hinput⟩

theorem readDomain_append (hP : Feeds readFull P) {input : ι} {b name rest : Bytes}
    (h : P input (UInt8.ofNat name.length :: name ++ rest)) (hpos : 0 < name.length)
    (hlen : name.length ≤ 255) (hname : isIPLiteral parseIP name ∨ isValidDomain name)
    (hroom : b.length + 1 + name.length ≤ bufSize) :
    ∃ input', readDomain parseIP readFull b input =
        (.ok (some ((Address.domain name).canonical parseIP),
          b ++ (UInt8.ofNat name.length :: name)), input') ∧
      P input' rest := by
  obtain ⟨input₁, hread₁, hinput₁⟩ := hP.readFullFrom (a := [UInt8.ofNat name.length]) (b := b)
    (n := 1) h rfl (by simp; omega)
  obtain ⟨input₂, hread₂, hinput₂⟩ := hP.readFullFrom (b := b ++ [UInt8.ofNat name.length]) hinput₁
    rfl (by simp; omega)
  have hlast : ((b ++ [UInt8.ofNat name.length]).getLastD 0).toNat = name.length := by
    rw [List.getLastD_concat, UInt8.toNat_ofNat_of_lt' (Nat.lt_succ_of_le hlen)]
  have hne : name ≠ [] := List.length_pos_iff.1 hpos
  refine ⟨input₂, ?_, hinput₂⟩
  rw [readDomain, hread₁]
  dsimp only
  rw [hlast, hread₂]
  dsimp only
  rw [bytesFromEnd_append _ _ hne, domainAddress_canonical hname]
  simp

/-- An address is read back in canonical form, and no byte behind it is read. -/
theorem readAddress_writeAddress (hp : p.IsConsistent) (hP : Feeds readFull P) {addr : Address}
    (haddr : addr.IsReadable parseIP) {input : ι} {b out rest : Bytes}
    (hout : p.writeAddress addr = .ok out) (h : P input (out ++ rest))
    (hroom : b.length + out.length ≤ bufSize) :
    ∃ input', p.readAddress parseIP readFull b input =
        (.ok (some (addr.canonical parseIP), b ++ out), input') ∧ P input' rest := by
  rw [writeAddress] at hout
  cases htb : p.addrByteMap addr.family with
  | none => simp [htb] at hout
  | some tb =>
    have hsmall : ¬ tb ≥ 16 := UInt8.not_le.2 (hp.small htb)
    have htype := hp.type htb
    -- every address starts with the byte of its family
    have hhead {a : Bytes} (ha : out = tb :: a) :
        ∃ input', readFullFrom readFull b input 1 = (.ok (b ++ [tb]), input') ∧
          P input' (a ++ rest) := by
      subst ha
      simp only [List.length_cons] at hroom
      exact hP.readFullFrom (a := [tb]) h rfl (by simp; omega)
    rw [htb] at hout
    cases addr with
    | ipv4 ip =>
      obtain rfl : tb :: ip.1 = out := Except.ok.inj hout
      obtain ⟨input₁, hread₁, hinput₁⟩ := hhead rfl
      obtain ⟨input₂, hread₂, hinput₂⟩ := readIP_append hP (b := b ++ [tb]) hinput₁
        (show ipAddress ip.1 = some (.ipv4 ip) by rw [ipAddress, dif_pos ip.2]) ip.2 (by omega)
        (by simpa [add_assoc, add_comm 1] using hroom)
      refine ⟨input₂, ?_, hinput₂⟩
      simp only [readAddress, hread₁, List.getLastD_concat, hp.plain htb, hsmall, if_false, htype,
        Address.family, hread₂, Address.canonical, List.append_assoc, List.singleton_append]
    | ipv6 ip =>
      obtain rfl : tb :: ip.1 = out := Except.ok.inj hout
      obtain ⟨input₁, hread₁, hinput₁⟩ := hhead rfl
      obtain ⟨input₂, hread₂, hinput₂⟩ := readIP_append hP (b := b ++ [tb]) hinput₁
        (show ipAddress ip.1 = some (.ofIPv6 ip) by
          rw [ipAddress, dif_neg (by rw [ip.2]; decide), dif_pos ip.2]) ip.2 (by omega)
        (by simpa [add_assoc, add_comm 1] using hroom)
      refine ⟨input₂, ?_, hinput₂⟩
      simp only [readAddress, hread₁, List.getLastD_concat, hp.plain htb, hsmall, if_false, htype,
        Address.family, hread₂, Address.canonical, List.append_assoc, List.singleton_append]
    | domain name =>
      obtain ⟨hpos, hlen, hname⟩ := haddr
      have hshort : ¬ isDomainTooLong name := by simp [isDomainTooLong]; omega
      dsimp only at hout
      rw [if_neg hshort] at hout
      obtain rfl : tb :: UInt8.ofNat name.length :: name = out := Except.ok.inj hout
      obtain ⟨input₁, hread₁, hinput₁⟩ := hhead rfl
      simp only [List.length_cons] at hroom
      obtain ⟨input₂, hread₂, hinput₂⟩ := readDomain_append hP (b := b ++ [tb]) hinput₁ hpos hlen
        hname (by simp; omega)
      refine ⟨input₂, ?_, hinput₂⟩
      simp only [readAddress, hread₁, List.getLastD_concat, hp.plain htb, hsmall, if_false, htype,
        Address.family, hread₂, List.append_assoc, List.singleton_append]

theorem readPort_writePort (hP : Feeds readFull P) {port : UInt16} {input : ι} {b rest : Bytes}
    (h : P input (writePort port ++ rest)) (hroom : b.length + 2 ≤ bufSize) :
    ∃ input', readPort readFull b input = (.ok (port, b ++ writePort port), input') ∧
      P input' rest := by
  have hlen : (writePort port).length = 2 := length_bigEndian _ _
  obtain ⟨input', hread, hinput⟩ := hP.readFullFrom (b := b) h hlen (by rw [hlen]; exact hroom)
  have hne : writePort port ≠ [] := List.length_pos_iff.1 (by omega)
  refine ⟨input', ?_, hinput⟩
  rw [readPort, hread]
  dsimp only
  rw [← hlen, bytesFromEnd_append _ _ hne, writePort, ofBigEndian_bigEndian port.toNat_lt,
    UInt16.ofNat_toNat]

/-- An address and a port are read back, the address in canonical form, and no
    byte behind them is read. -/
theorem readAddressPort_writeAddressPort (hp : p.IsConsistent) (hP : Feeds readFull P)
    {addr : Address} (haddr : addr.IsReadable parseIP) {port : UInt16} {input : ι}
    {b out rest : Bytes} (hout : p.writeAddressPort addr port = .ok out)
    (h : P input (out ++ rest)) (hroom : b.length + out.length ≤ bufSize) :
    ∃ input', p.readAddressPort parseIP readFull b input =
        (.ok (some (addr.canonical parseIP), port, b ++ out), input') ∧ P input' rest := by
  rw [writeAddressPort] at hout
  cases ha : p.writeAddress addr with
  | error e => simp [ha] at hout
  | ok a =>
    rw [ha] at hout
    replace hout := Except.ok.inj hout
    have hlen : (writePort port).length = 2 := length_bigEndian _ _
    rw [readAddressPort]
    cases hfirst : p.portFirst with
    | true =>
      rw [hfirst, if_pos rfl] at hout
      subst hout
      rw [List.length_append, hlen] at hroom
      rw [List.append_assoc] at h
      obtain ⟨input₁, hread₁, hinput₁⟩ := readPort_writePort hP (b := b) h (by omega)
      obtain ⟨input₂, hread₂, hinput₂⟩ := readAddress_writeAddress hp hP haddr
        (b := b ++ writePort port) ha hinput₁ (by rw [List.length_append, hlen]; omega)
      exact ⟨input₂, by simp [hread₁, hread₂], hinput₂⟩
    | false =>
      rw [hfirst, if_neg Bool.false_ne_true] at hout
      subst hout
      rw [List.length_append, hlen] at hroom
      rw [List.append_assoc] at h
      obtain ⟨input₁, hread₁, hinput₁⟩ := readAddress_writeAddress hp hP haddr (b := b) ha h
        (by omega)
      obtain ⟨input₂, hread₂, hinput₂⟩ := readPort_writePort hP (b := b ++ a) hinput₁
        (by rw [List.length_append]; omega)
      exact ⟨input₂, by simp [hread₁, hread₂], hinput₂⟩

/-- A domain whose length takes one byte is written. -/
theorem writeAddress_ok {addr : Address} (haddr : addr.IsReadable parseIP) {tb : UInt8}
    (htb : p.addrByteMap addr.family = some tb) :
    ∃ out, p.writeAddress addr = .ok out ∧ 1 ≤ out.length ∧ out.length ≤ 257 := by
  rw [writeAddress, htb]
  cases addr with
  | ipv4 ip => exact ⟨_, rfl, by simp, by simp [ip.2]⟩
  | ipv6 ip => exact ⟨_, rfl, by simp, by simp [ip.2]⟩
  | domain name =>
    obtain ⟨-, hlen, -⟩ := haddr
    have hshort : ¬ isDomainTooLong name := by simp [isDomainTooLong]; omega
    exact ⟨tb :: UInt8.ofNat name.length :: name, by dsimp only; rw [if_neg hshort], by simp,
      by simp only [List.length_cons]; omega⟩

/-! ## Long domains -/

variable (parseIP) in
/-- A domain of length zero is read without the bytes behind its length. -/
theorem readAddress_zero (hp : p.IsConsistent) (hP : Feeds readFull P) {tb : UInt8}
    (htb : p.addrByteMap .domain = some tb) {input : ι} {b rest : Bytes}
    (h : P input (tb :: 0 :: rest)) (hroom : b.length + 2 ≤ bufSize) :
    ∃ out input', p.readAddress parseIP readFull b input = (out, input') ∧ P input' rest ∧
      ∀ addr b', out = .ok (addr, b') → b'.length = b.length + 2 := by
  have hsmall : ¬ tb ≥ 16 := UInt8.not_le.2 (hp.small htb)
  obtain ⟨input₁, hread₁, hinput₁⟩ := hP.readFullFrom (a := [tb]) (b := b) (n := 1) h rfl
    (by simp; omega)
  obtain ⟨input₂, hread₂, hinput₂⟩ := hP.readFullFrom (a := [0]) (b := b ++ [tb]) (n := 1) hinput₁
    rfl (by simp; omega)
  obtain ⟨input₃, hread₃, hinput₃⟩ := hP.readFullFrom (a := []) (b := b ++ [tb] ++ [0]) (n := 0)
    hinput₂ rfl (by simp; omega)
  cases hdomain : domainAddress parseIP (bytesFromEnd (b ++ [tb] ++ [0] ++ []) 0) with
  | ok addr =>
    refine ⟨.ok (some addr, b ++ [tb] ++ [0] ++ []), input₃, ?_, hinput₃, ?_⟩
    · simp only [readAddress, hread₁, List.getLastD_concat, hp.plain htb, hsmall, if_false,
        hp.type htb, readDomain, hread₂, UInt8.toNat_zero, hread₃, hdomain]
    · rintro addr' b' hb'
      cases hb'
      simp
  | error e =>
    refine ⟨.error e, input₃, ?_, hinput₃, fun _ _ hb' => nomatch hb'⟩
    simp only [readAddress, hread₁, List.getLastD_concat, hp.plain htb, hsmall, if_false,
      hp.type htb, readDomain, hread₂, UInt8.toNat_zero, hread₃, hdomain]

/-- A domain of length zero is not read into an empty buffer. -/
theorem domainAddress_type {tb : UInt8} (htb : tb < 16) :
    domainAddress parseIP [tb, 0] = .error invalidDomainName := by
  have hliteral : isIPLiteral parseIP [tb, 0] = false := by
    have hdigit : maybeIPPrefix tb = false := by
      rw [maybeIPPrefix, Bool.or_eq_false_iff, Bool.and_eq_false_iff]
      refine ⟨?_, .inl ?_⟩
      · rw [beq_eq_false_iff_ne]
        rintro rfl
        exact absurd htb (by decide)
      · rw [decide_eq_false_iff_not, UInt8.not_le]
        exact UInt8.lt_trans htb (by decide)
    rw [isIPLiteral, List.headD_cons, hdigit, Bool.false_and]
  have hvalid : isValidDomain [tb, 0] = false := by
    rw [isValidDomain, List.all_cons, List.all_cons, show isDomainChar 0 = false by decide,
      Bool.false_and, Bool.and_false]
  rw [domainAddress, hliteral, hvalid]
  rfl

/-- What is written of an address and a port is read back, whatever follows and
    wherever it is read to. -/
def RoundTrips (p : AddressParser) (parseIP : Bytes → Option IPv6) (addr : Address)
    (port : UInt16) : Prop :=
  ∀ out, p.writeAddressPort addr port = .ok out → ∀ (b rest : Bytes) (r : BufferedReader),
    b.length + out.length ≤ bufSize → r.bytes = out ++ rest →
      ∃ b' r', p.readAddressPort parseIP BufferedReader.readFull b r =
          (.ok (some addr, port, b'), r') ∧ r'.bytes = rest

variable (parseIP) in
/-- Behind an address whose length is written as zero, bytes are left, whatever is
    read. -/
theorem readAddressPort_zero (hp : p.IsConsistent) (hP : Feeds readFull P) {tb : UInt8}
    (htb : p.addrByteMap .domain = some tb) {name : Bytes} (hname : name ≠ []) {port : UInt16}
    {input : ι}
    (h : P input (if p.portFirst then writePort port ++ tb :: 0 :: name
      else tb :: 0 :: name ++ writePort port)) :
    ∃ rest, rest ≠ [] ∧ P (p.readAddressPort parseIP readFull [] input).2 rest := by
  have hport : (writePort port).length = 2 := length_bigEndian _ _
  rw [readAddressPort]
  cases hfirst : p.portFirst with
  | true =>
    rw [hfirst] at h
    obtain ⟨input₁, hread₁, hinput₁⟩ := readPort_writePort hP (b := []) h (by decide)
    obtain ⟨out, input₂, hread₂, hinput₂, -⟩ := readAddress_zero parseIP hp hP htb
      (b := [] ++ writePort port) hinput₁ (by rw [List.nil_append, hport]; decide)
    refine ⟨name, hname, ?_⟩
    rw [if_pos rfl, hread₁]
    dsimp only
    rw [hread₂]
    cases out <;> exact hinput₂
  | false =>
    rw [hfirst] at h
    obtain ⟨out, input₁, hread₁, hinput₁, hlen⟩ := readAddress_zero parseIP hp hP htb
      (b := []) (show P input (tb :: 0 :: (name ++ writePort port)) from h) (by decide)
    rw [if_neg Bool.false_ne_true, hread₁]
    rcases out with e | ⟨addr, b₁⟩
    · exact ⟨name ++ writePort port, by simp [hname], hinput₁⟩
    · -- the port is read from the name
      have hb₁ := hlen addr b₁ rfl
      have hlong : 2 ≤ (name ++ writePort port).length := by rw [List.length_append, hport]; omega
      rw [← List.take_append_drop 2 (name ++ writePort port)] at hinput₁
      obtain ⟨input₂, hread₂, hinput₂⟩ := hP.readFullFrom (b := b₁) (n := 2) hinput₁
        (List.length_take_of_le hlong)
        (by rw [hb₁, List.length_take_of_le hlong]; decide)
      refine ⟨(name ++ writePort port).drop 2, ?_, ?_⟩
      · have := List.length_pos_iff.2 hname
        rw [ne_eq, List.drop_eq_nil_iff, List.length_append, hport]
        omega
      · dsimp only
        rw [readPort, hread₂]
        exact hinput₂

/-- A domain of 256 bytes is written, but it is not read. -/
theorem not_roundTrips_of_length (hp : p.IsConsistent) {tb : UInt8}
    (htb : p.addrByteMap .domain = some tb) {name : Bytes} (hname : name.length = 256)
    (port : UInt16) : ¬ p.RoundTrips parseIP (.domain name) port := by
  intro h
  have hwrite : p.writeAddress (.domain name) = .ok (tb :: 0 :: name) := by
    simp [writeAddress, Address.family, htb, isDomainTooLong, hname]
  have hport : (writePort port).length = 2 := length_bigEndian _ _
  rw [RoundTrips, writeAddressPort, hwrite] at h
  dsimp only at h
  generalize hout : (if p.portFirst then writePort port ++ tb :: 0 :: name
    else tb :: 0 :: name ++ writePort port) = out at h
  have hlen : out.length = 260 := by
    rw [← hout]
    split <;> simp [hname, hport]
  let r : BufferedReader := ⟨[], ⟨[MultiBuffer.mergeBytes [] out], .eof⟩⟩
  have hr : r.bytes = out := by simp [r, BufferedReader.bytes, Source.bytes]
  obtain ⟨b', r', hread, hbytes⟩ := h out rfl [] [] r
    (by rw [hlen]; decide) (by rw [hr, List.append_nil])
  have hne : name ≠ [] := by rintro rfl; cases hname
  obtain ⟨rest, hrest, hleft, -⟩ := readAddressPort_zero parseIP hp (feeds_bufferedReader .eof) htb
    hne ⟨show r.bytes = _ from hr.trans hout.symm, rfl⟩
  rw [hread] at hleft
  exact hrest (hleft.symm.trans hbytes)

end AddressParser

/-- An address that is what it looks like: no IPv4 address mapped to an IPv6 address,
    and no domain that is an IP address in disguise. -/
def Address.IsPlain (parseIP : Bytes → Option IPv6) : Address → Prop
  | .ipv4 _ => True
  | .ipv6 ip => ¬ IsMapped ip
  | .domain name =>
    name ≠ [] ∧ isValidDomain name ∧ (parseAddress parseIP name).family = .domain

/-- The length of a domain that wraps around on one byte. -/
def Address.Wraps : Address → Prop
  | .domain name => name.length = 256
  | _ => False

namespace Address

variable {parseIP : Bytes → Option IPv6} {addr : Address}

theorem IsPlain.canonical (h : addr.IsPlain parseIP) : addr.canonical parseIP = addr := by
  cases addr with
  | ipv4 ip => rfl
  | ipv6 ip => exact if_neg h
  | domain name =>
    obtain ⟨-, -, hfamily⟩ := h
    rw [Address.canonical, isIPLiteral, hfamily]
    simp

theorem IsPlain.isReadable (h : addr.IsPlain parseIP)
    (hlen : ∀ name, addr = .domain name → name.length ≤ 255) : addr.IsReadable parseIP := by
  cases addr with
  | ipv4 ip => trivial
  | ipv6 ip => trivial
  | domain name => exact ⟨List.length_pos_iff.2 h.1, hlen name rfl, .inr h.2.1⟩

/-- An address that is written is read, if its length does not wrap around. -/
theorem IsPlain.isReadable_of_writeAddress (h : addr.IsPlain parseIP) (hwraps : ¬ addr.Wraps)
    {p : AddressParser} {out : Bytes} (hout : p.writeAddress addr = .ok out) :
    addr.IsReadable parseIP := by
  refine h.isReadable ?_
  rintro name rfl
  have hne : name.length ≠ 256 := hwraps
  have hle : ¬ name.length > 256 := by
    intro hlong
    rw [AddressParser.writeAddress] at hout
    split at hout
    · cases hout
    · simp [AddressParser.isDomainTooLong, hlong] at hout
  omega

end Address

namespace AddressParser

variable {parseIP : Bytes → Option IPv6} {options : List AddressOption}

/-- An address and a port are read back where they were written, but for a domain of
    256 bytes. -/
theorem roundTrips_iff (h : Registers options) {addr : Address} (haddr : addr.IsPlain parseIP)
    (port : UInt16) : (new options).RoundTrips parseIP addr port ↔ ¬ addr.Wraps := by
  constructor
  · intro hround hwraps
    cases addr with
    | ipv4 ip => exact hwraps
    | ipv6 ip => exact hwraps
    | domain name =>
      obtain ⟨tb, htb⟩ := h.exists_byte .domain
      exact not_roundTrips_of_length h.isConsistent htb hwraps port hround
  · intro hwraps out hout b rest r hroom hr
    have hreadable : addr.IsReadable parseIP := by
      rw [writeAddressPort] at hout
      cases ha : (new options).writeAddress addr with
      | error e => simp [ha] at hout
      | ok a => exact haddr.isReadable_of_writeAddress hwraps ha
    obtain ⟨r', hread, hr', -⟩ := readAddressPort_writeAddressPort h.isConsistent
      (feeds_bufferedReader r.reader.err) hreadable hout ⟨hr, rfl⟩ hroom
    rw [haddr.canonical] at hread
    exact ⟨_, r', hread, hr'⟩

/-- A domain of three letters is read back. -/
theorem roundTrips_iff_short : addrParser.RoundTrips (fun _ => none) (.domain [0x61, 0x2e, 0x62]) 80 ↔
    ¬ (Address.domain [0x61, 0x2e, 0x62]).Wraps :=
  roundTrips_iff addrParser_registers
    (show Address.IsPlain (fun _ => none) (.domain [0x61, 0x2e, 0x62]) from
      ⟨by decide, by decide, by decide⟩) 80

/-- A domain of 256 letters is not. -/
theorem not_roundTrips_wrapping :
    (Address.domain (List.replicate 256 0x61)).IsPlain (fun _ => none) ∧
      ¬ addrParser.RoundTrips (fun _ => none) (.domain (List.replicate 256 0x61)) 80 := by
  refine ⟨⟨List.cons_ne_nil _ _, ?_, rfl⟩,
    not_roundTrips_of_length addrParser_isConsistent (show addrParser.addrByteMap .domain = some 2
      from rfl) List.length_replicate 80⟩
  rw [isValidDomain, List.all_replicate]
  rfl

end AddressParser

end

end Gzv2ray
