import Gzv2ray.Net.AddressRoundTrip

/-!
# What is read as an address

An address that a parser returns was read from an encoding of it
(`AddressParser.readAddressPort_eq_ok`), but not always from the one that is
written: an IP address may have been spelled out as a domain. Such an encoding
is not found within the one that is written (`AddressParser.Encodes.not_within`), as
the text of an IP address is not found within its bytes (`SpellsOut`).
-/

namespace Gzv2ray

variable {parseIP : Bytes → Option IPv6}

/-- The bytes are those of an address, behind its type. -/
inductive AddressParser.Encodes (p : AddressParser) (parseIP : Bytes → Option IPv6) :
    Address → Bytes → Prop
  | ipv4 {tb : UInt8} (ip : IPv4) : p.addrTypeMap tb = some .ipv4 →
    Encodes p parseIP (.ipv4 ip) (tb :: ip.1)
  | ipv6 {tb : UInt8} (ip : IPv6) : p.addrTypeMap tb = some .ipv6 →
    Encodes p parseIP (.ofIPv6 ip) (tb :: ip.1)
  | domain {addr : Address} {tb n : UInt8} {name : Bytes} : p.addrTypeMap tb = some .domain →
    name ≠ [] → n.toNat = name.length → domainAddress parseIP name = .ok addr →
    Encodes p parseIP addr (tb :: n :: name)

/-! ## Reading -/

theorem readFullFrom_eq_ok {b b' : Bytes} {r r' : BufferedReader} {n : ℕ}
    (h : readFullFrom BufferedReader.readFull b r n = (.ok b', r')) :
    ∃ a, a.length = n ∧ b' = b ++ a ∧ r.bytes = a ++ r'.bytes := by
  rw [readFullFrom] at h
  split at h
  · cases h
  · cases hread : r.readFull n with
    | mk out r₁ =>
      rw [hread] at h
      cases out with
      | error e => cases h
      | ok p =>
        cases h
        obtain ⟨hlen, hbytes, -⟩ := r.readFull_eq_ok hread
        exact ⟨p, hlen, rfl, hbytes⟩

namespace AddressParser

variable {p : AddressParser} {r r' : BufferedReader}

theorem readIP_eq_ok {size : ℕ} {b b' : Bytes} {addr : Option Address}
    (hsize : 0 < size) (h : readIP BufferedReader.readFull size b r = (.ok (addr, b'), r')) :
    ∃ ip, ip.length = size ∧ addr = ipAddress ip ∧ b' = b ++ ip ∧ r.bytes = ip ++ r'.bytes := by
  rw [readIP] at h
  cases hread : readFullFrom BufferedReader.readFull b r size with
  | mk out r₁ =>
    rw [hread] at h
    cases out with
    | error e => cases h
    | ok b₁ =>
      cases h
      obtain ⟨ip, hlen, rfl, hbytes⟩ := readFullFrom_eq_ok hread
      refine ⟨ip, hlen, ?_, rfl, hbytes⟩
      rw [← hlen, bytesFromEnd_append]
      rintro rfl
      exact hsize.ne' hlen.symm

theorem readDomain_eq_ok {tb : UInt8} (htb : tb < 16) {b' : Bytes} {addr : Option Address}
    (h : readDomain parseIP BufferedReader.readFull [tb] r = (.ok (addr, b'), r')) :
    ∃ a n name, addr = some a ∧ name ≠ [] ∧ n.toNat = name.length ∧
      domainAddress parseIP name = .ok a ∧ b' = tb :: n :: name ∧
      r.bytes = n :: name ++ r'.bytes := by
  rw [readDomain] at h
  cases hread₁ : readFullFrom BufferedReader.readFull [tb] r 1 with
  | mk out r₁ =>
    rw [hread₁] at h
    cases out with
    | error e => cases h
    | ok b₁ =>
      obtain ⟨l, hl, rfl, hbytes₁⟩ := readFullFrom_eq_ok hread₁
      obtain ⟨n, rfl⟩ := List.length_eq_one_iff.1 hl
      dsimp only at h
      rw [List.getLastD_concat] at h
      cases hread₂ : readFullFrom BufferedReader.readFull ([tb] ++ [n]) r₁ n.toNat with
      | mk out r₂ =>
        rw [hread₂] at h
        cases out with
        | error e => cases h
        | ok b₂ =>
          obtain ⟨name, hname, rfl, hbytes₂⟩ := readFullFrom_eq_ok hread₂
          dsimp only at h
          cases hdomain : domainAddress parseIP (bytesFromEnd ([tb] ++ [n] ++ name) n.toNat) with
          | error e =>
            rw [hdomain] at h
            cases h
          | ok a =>
            rw [hdomain] at h
            cases h
            -- with a length of zero, the bytes read so far are the domain
            have hne : name ≠ [] := by
              rintro rfl
              obtain rfl : n = 0 := UInt8.toNat_inj.1 hname.symm
              have hzero : bytesFromEnd ([tb] ++ [0] ++ []) (UInt8.toNat 0) = [tb, 0] := rfl
              rw [hzero, domainAddress_type htb] at hdomain
              cases hdomain
            rw [← hname, bytesFromEnd_append _ _ hne] at hdomain
            exact ⟨a, n, name, rfl, hne, hname.symm, hdomain, rfl, by rw [hbytes₁, hbytes₂]; rfl⟩

/-- An address is read from an encoding of it. -/
theorem readAddress_eq_ok (hp : p.typeParser = none) {b' : Bytes} {addr : Option Address}
    (h : p.readAddress parseIP BufferedReader.readFull [] r = (.ok (addr, b'), r')) :
    ∃ a, addr = some a ∧ p.Encodes parseIP a b' ∧ r.bytes = b' ++ r'.bytes := by
  rw [readAddress] at h
  cases hread : readFullFrom BufferedReader.readFull [] r 1 with
  | mk out r₁ =>
    rw [hread] at h
    cases out with
    | error e => cases h
    | ok b₁ =>
      obtain ⟨l, hl, rfl, hbytes⟩ := readFullFrom_eq_ok hread
      obtain ⟨tb, rfl⟩ := List.length_eq_one_iff.1 hl
      have htype : p.parseType ([tb].getLastD 0) = tb := by rw [parseType, hp]; rfl
      dsimp only at h
      rw [htype] at h
      split at h
      · cases h
      rename_i htb
      have htb' : tb < 16 := UInt8.not_le.1 htb
      cases hfamily : p.addrTypeMap tb with
      | none =>
        rw [hfamily] at h
        cases h
      | some family =>
        rw [hfamily] at h
        cases family with
        | ipv4 =>
          obtain ⟨ip, hlen, rfl, rfl, hip⟩ := readIP_eq_ok (by decide) h
          exact ⟨.ipv4 ⟨ip, hlen⟩, dif_pos hlen, .ipv4 ⟨ip, hlen⟩ hfamily,
            by rw [hbytes, hip]; rfl⟩
        | ipv6 =>
          obtain ⟨ip, hlen, rfl, rfl, hip⟩ := readIP_eq_ok (by decide) h
          refine ⟨.ofIPv6 ⟨ip, hlen⟩, ?_, .ipv6 ⟨ip, hlen⟩ hfamily, by rw [hbytes, hip]; rfl⟩
          rw [ipAddress, dif_neg (by rw [hlen]; decide), dif_pos hlen]
        | domain =>
          obtain ⟨a, n, name, rfl, hne, hn, hname, rfl, hbytes'⟩ := readDomain_eq_ok htb' h
          exact ⟨a, rfl, .domain hfamily hne hn hname, by rw [hbytes, hbytes']; rfl⟩

/-- An address and a port are read from an encoding of them. -/
theorem readAddressPort_eq_ok (hp : p.typeParser = none) (hlast : p.portFirst = false)
    {b' : Bytes} {addr : Option Address} {port : UInt16}
    (h : p.readAddressPort parseIP BufferedReader.readFull [] r = (.ok (addr, port, b'), r')) :
    ∃ a b, addr = some a ∧ p.Encodes parseIP a b ∧
      r.bytes = b ++ writePort port ++ r'.bytes := by
  rw [readAddressPort, hlast, if_neg Bool.false_ne_true] at h
  cases hread : p.readAddress parseIP BufferedReader.readFull [] r with
  | mk out r₁ =>
    rw [hread] at h
    rcases out with e | ⟨addr₁, b₁⟩
    · cases h
    · obtain ⟨a, rfl, henc, hbytes⟩ := readAddress_eq_ok hp hread
      dsimp only at h
      rw [readPort] at h
      cases hread₂ : readFullFrom BufferedReader.readFull b₁ r₁ 2 with
      | mk out r₂ =>
        rw [hread₂] at h
        cases out with
        | error e => cases h
        | ok b₂ =>
          obtain ⟨l, hl, rfl, hbytes₂⟩ := readFullFrom_eq_ok hread₂
          cases h
          refine ⟨a, b₁, rfl, henc, ?_⟩
          have hlt : ofBigEndian l < 2 ^ 16 := (ofBigEndian_lt l).trans_le (by rw [hl]; decide)
          rw [← hl, bytesFromEnd_append _ _ (by rintro rfl; cases hl), writePort,
            UInt16.toNat_ofNat_of_lt' hlt, ← hl, bigEndian_ofBigEndian, hbytes, hbytes₂,
            List.append_assoc]

end AddressParser

/-! ## The lengths of addresses -/

namespace Address

variable {p : AddressParser} {addr : Address} {out : Bytes}

/-- The domain is too long to be written. -/
def IsRefused (addr : Address) : Prop :=
  ∃ name, addr = .domain name ∧ AddressParser.isDomainTooLong name

/-- The number of bytes that an address is written in. -/
def encodedLength : Address → ℕ
  | .ipv4 _ => 5
  | .ipv6 _ => 17
  | .domain name => name.length + 2

theorem length_writeAddress (hout : p.writeAddress addr = .ok out) :
    out.length = addr.encodedLength := by
  rw [AddressParser.writeAddress] at hout
  cases htb : p.addrByteMap addr.family with
  | none => simp [htb] at hout
  | some tb =>
    rw [htb] at hout
    cases addr with
    | ipv4 ip => cases hout; simp [ip.2, encodedLength]
    | ipv6 ip => cases hout; simp [ip.2, encodedLength]
    | domain name =>
      dsimp only at hout
      split at hout
      · cases hout
      · cases hout; simp [encodedLength]

theorem encodedLength_le (h : ¬ addr.IsRefused) : addr.encodedLength ≤ 258 := by
  cases addr with
  | ipv4 ip => exact show 5 ≤ 258 by decide
  | ipv6 ip => exact show 17 ≤ 258 by decide
  | domain name =>
    have hle : ¬ name.length > 256 := fun hlong => h ⟨name, rfl, decide_eq_true hlong⟩
    rw [encodedLength]
    omega

theorem two_le_encodedLength : 2 ≤ addr.encodedLength := by
  cases addr with
  | ipv4 ip => exact show 2 ≤ 5 by decide
  | ipv6 ip => exact show 2 ≤ 17 by decide
  | domain name => exact Nat.le_add_left 2 _

end Address

namespace AddressParser

variable {options : List AddressOption} {addr : Address}

/-- An address that is not refused is written. -/
theorem Registers.writeAddress_ok (h : Registers options) (hrefused : ¬ addr.IsRefused) :
    ∃ a, (new options).writeAddress addr = .ok a := by
  obtain ⟨tb, htb⟩ := h.exists_byte addr.family
  rw [writeAddress, htb]
  cases addr with
  | ipv4 ip => exact ⟨_, rfl⟩
  | ipv6 ip => exact ⟨_, rfl⟩
  | domain name =>
    dsimp only
    rw [if_neg fun hlong => hrefused ⟨name, rfl, hlong⟩]
    exact ⟨_, rfl⟩

theorem Registers.writeAddressPort_refused (h : Registers options) (hrefused : addr.IsRefused)
    (port : UInt16) : (new options).writeAddressPort addr port = .error superLongDomain := by
  obtain ⟨name, rfl, hlong⟩ := hrefused
  obtain ⟨tb, htb⟩ := h.exists_byte .domain
  rw [writeAddressPort, writeAddress, Address.family, htb]
  dsimp only
  rw [if_pos hlong]

end AddressParser

/-! ## Written addresses -/

namespace AddressParser

variable {p : AddressParser} {addr : Address} {out : Bytes}

/-- What is written of an address starts with the byte of its family. -/
theorem writeAddress_eq_cons (h : p.writeAddress addr = .ok out) :
    ∃ tb a, p.addrByteMap addr.family = some tb ∧ out = tb :: a := by
  rw [writeAddress] at h
  cases htb : p.addrByteMap addr.family with
  | none => simp [htb] at h
  | some tb =>
    rw [htb] at h
    cases addr with
    | ipv4 ip => cases h; exact ⟨tb, _, rfl, rfl⟩
    | ipv6 ip => cases h; exact ⟨tb, _, rfl, rfl⟩
    | domain name =>
      dsimp only at h
      split at h
      · cases h
      · cases h
        exact ⟨tb, _, rfl, rfl⟩

/-- A domain whose length wraps around is not read behind what is no domain with its start. -/
theorem readAddress_wraps (parseIP : Bytes → Option IPv6) (hp : p.IsConsistent) {ι : Type}
    {readFull : ι → ℕ → Except Error Bytes × ι} {P : ι → Bytes → Prop} (hP : Feeds readFull P)
    (hwraps : addr.Wraps) (hout : p.writeAddress addr = .ok out) {b : Bytes}
    (hdomain : ∀ tb, p.addrByteMap .domain = some tb →
      domainAddress parseIP (b ++ [tb, 0]) = .error invalidDomainName)
    (hroom : b.length + 2 ≤ bufSize) {input : ι} {rest : Bytes} (h : P input (out.take 2 ++ rest)) :
    (p.readAddress parseIP readFull b input).1 = .error invalidDomainName := by
  cases addr with
  | ipv4 ip => exact hwraps.elim
  | ipv6 ip => exact hwraps.elim
  | domain name =>
    obtain ⟨tb, a, htb, rfl⟩ := writeAddress_eq_cons hout
    have hlen : name.length = 256 := hwraps
    obtain rfl : 0 :: name = a := by
      have hshort : ¬ isDomainTooLong name := by simp [isDomainTooLong, hlen]
      rw [writeAddress, htb] at hout
      dsimp only at hout
      rw [if_neg hshort, hlen] at hout
      exact (List.cons.inj (Except.ok.inj hout)).2
    have hsmall : ¬ tb ≥ 16 := UInt8.not_le.2 (hp.small htb)
    obtain ⟨input₁, hread₁, hinput₁⟩ := hP.readFullFrom (a := [tb]) (b := b) (n := 1) h rfl
      (by simp; omega)
    obtain ⟨input₂, hread₂, hinput₂⟩ := hP.readFullFrom (a := [0]) (b := b ++ [tb]) (n := 1) hinput₁
      rfl (by simp; omega)
    obtain ⟨input₃, hread₃, -⟩ := hP.readFullFrom (a := []) (b := b ++ [tb] ++ [0]) (n := 0)
      hinput₂ rfl (by simp; omega)
    have hsplit : b ++ [tb] ++ [0] ++ [] = b ++ [tb, 0] := by simp
    simp only [readAddress, hread₁, List.getLastD_concat, hp.plain htb, hsmall, if_false, hp.type htb,
      Address.family, readDomain, hread₂, UInt8.toNat_zero, hread₃, bytesFromEnd, if_true, hsplit,
      hdomain tb htb]

/-- A domain whose length wraps around is not read, where the address comes first. -/
theorem readAddressPort_wraps (parseIP : Bytes → Option IPv6) (hp : p.IsConsistent)
    (hlast : p.portFirst = false) {ι : Type}
    {readFull : ι → ℕ → Except Error Bytes × ι} {P : ι → Bytes → Prop} (hP : Feeds readFull P)
    (hwraps : addr.Wraps) (hout : p.writeAddress addr = .ok out) {input : ι} {rest : Bytes}
    (h : P input (out.take 2 ++ rest)) :
    (p.readAddressPort parseIP readFull [] input).1 = .error invalidDomainName := by
  have hread := readAddress_wraps parseIP hp hP hwraps hout (b := [])
    (fun tb htb => domainAddress_type (hp.small htb)) (by decide) h
  rw [readAddressPort, hlast, if_neg Bool.false_ne_true]
  rcases hout' : p.readAddress parseIP readFull [] input with ⟨e | both, input'⟩ <;> rw [hout'] at hread
  · cases hread
    rfl
  · cases hread

end AddressParser

/-! ## Encodings of IP addresses as texts -/

/-- The text of an IP address is not found within its bytes: they are written in
    digits, of which a byte other than a control character takes two at least. -/
def SpellsOut (parseIP : Bytes → Option IPv6) : Prop :=
  ∀ text ip, parseIP text = some ip → ¬ text <:+: ip.1

theorem trimLeft_suffix (chars : List Bytes) (fuel : ℕ) (s : Bytes) : trimLeft chars fuel s <:+ s := by
  induction fuel generalizing s with
  | zero => exact List.suffix_rfl
  | succ fuel ih =>
    rw [trimLeft]
    split
    · exact List.suffix_rfl
    · exact (ih _).trans (List.drop_suffix _ _)

theorem trimSpace_infix (s : Bytes) : trimSpace s <:+: s := by
  have h := trimLeft_suffix (spaces.map List.reverse) (trimLeft spaces s.length s).length
    (trimLeft spaces s.length s).reverse
  rw [trimSpace]
  refine List.IsInfix.trans ?_ (trimLeft_suffix spaces s.length s).isInfix
  rw [← List.reverse_infix, List.reverse_reverse]
  exact h.isInfix

/-- An IP address that a string stands for is that of a text within it. -/
theorem parseAddress_of_family {name : Bytes} (h : (parseAddress parseIP name).family ≠ .domain) :
    ∃ text ip, text <:+: name ∧ parseIP text = some ip ∧ parseAddress parseIP name = .ofIPv6 ip := by
  rw [parseAddress] at h ⊢
  generalize htext : (if name.head? == some 0x5b && name.getLast? == some 0x5d then
    name.tail.dropLast else name) = text at h ⊢
  have hinfix : text <:+: name := by
    rw [← htext]
    split
    · exact (List.dropLast_prefix _).isInfix.trans (List.tail_suffix _).isInfix
    · exact List.infix_rfl
  generalize htrim : (if !text.isEmpty && (!isAlphaNum (text.headD 0) || !isAlphaNum (text.getLastD 0))
    then trimSpace text else text) = text' at h ⊢
  have hinfix' : text' <:+: text := by
    rw [← htrim]
    split
    · exact trimSpace_infix text
    · exact List.infix_rfl
  cases hip : parseIP text' with
  | none =>
    rw [hip] at h
    exact absurd rfl h
  | some ip => exact ⟨text', ip, hinfix'.trans hinfix, hip, rfl⟩

namespace Address

variable {p : AddressParser} {addr : Address}

/-- The bytes of an IP address are found within those it is mapped to. -/
theorem writeAddress_ofIPv6 {ip : IPv6} {out : Bytes}
    (hout : p.writeAddress (.ofIPv6 ip) = .ok out) : ∃ tb bytes, out = tb :: bytes ∧ bytes <:+ ip.1 := by
  by_cases hmapped : IsMapped ip
  · rw [ofIPv6, if_pos hmapped, AddressParser.writeAddress] at hout
    split at hout
    · cases hout
    · cases hout
      exact ⟨_, _, rfl, List.drop_suffix _ _⟩
  · rw [ofIPv6, if_neg hmapped, AddressParser.writeAddress] at hout
    split at hout
    · cases hout
    · cases hout
      exact ⟨_, _, rfl, List.suffix_rfl⟩

end Address

namespace AddressParser

variable {p : AddressParser} {addr : Address}

/-- An encoding of an address is not found within the one that is written, but at its
    start. -/
theorem Encodes.not_within (hparse : SpellsOut parseIP) {enc out x y : Bytes}
    (henc : p.Encodes parseIP addr enc) (hout : p.writeAddress addr = .ok out) (hx : x ≠ []) :
    out ≠ x ++ enc ++ y := by
  rintro rfl
  have hpos := List.length_pos_iff.2 hx
  have hlen := Address.length_writeAddress hout
  simp only [List.length_append] at hlen
  cases henc with
  | ipv4 ip => simp only [List.length_cons, ip.2, Address.encodedLength] at hlen; omega
  | ipv6 ip =>
    by_cases hmapped : Address.IsMapped ip
    · rw [show Address.ofIPv6 ip = _ from if_pos hmapped] at hlen
      simp only [List.length_cons, ip.2, Address.encodedLength] at hlen
      omega
    · rw [show Address.ofIPv6 ip = _ from if_neg hmapped] at hlen
      simp only [List.length_cons, ip.2, Address.encodedLength] at hlen
      omega
  | @domain _ tb n name _ _ _ hname =>
    rw [domainAddress] at hname
    split at hname
    · rename_i hliteral
      rw [isIPLiteral, Bool.and_eq_true, bne_iff_ne] at hliteral
      obtain ⟨text, ip, htext, hip, haddr⟩ := parseAddress_of_family hliteral.2
      obtain rfl := Except.ok.inj hname
      rw [haddr] at hout
      obtain ⟨tb', bytes, hbytes, hsuffix⟩ := Address.writeAddress_ofIPv6 hout
      obtain ⟨b, x, rfl⟩ := List.exists_cons_of_ne_nil hx
      -- the text would be found within the bytes of the address
      have hwithin : name <:+: bytes :=
        ⟨x ++ [tb, n], y, by simpa using (List.cons.inj hbytes).2⟩
      exact hparse text ip hip (htext.trans (hwithin.trans hsuffix.isInfix))
    · split at hname
      · cases hname
      · obtain rfl := Except.ok.inj hname
        simp only [List.length_cons, Address.encodedLength] at hlen
        omega

/-- No address is read whose length wraps around on its byte. -/
theorem Encodes.not_wraps {enc : Bytes} (h : p.Encodes parseIP addr enc) : ¬ addr.Wraps := by
  cases h with
  | ipv4 ip => exact id
  | ipv6 ip =>
    by_cases hmapped : Address.IsMapped ip
    · rw [show Address.ofIPv6 ip = _ from if_pos hmapped]
      exact id
    · rw [show Address.ofIPv6 ip = _ from if_neg hmapped]
      exact id
  | @domain _ tb n name _ _ hn hname =>
    intro hwraps
    rw [domainAddress] at hname
    split at hname
    · rename_i hliteral
      rw [isIPLiteral, Bool.and_eq_true, bne_iff_ne] at hliteral
      obtain rfl := Except.ok.inj hname
      cases haddr : parseAddress parseIP name with
      | ipv4 ip => rw [haddr] at hwraps; exact hwraps
      | ipv6 ip => rw [haddr] at hwraps; exact hwraps
      | domain name' => exact hliteral.2 (by rw [haddr]; rfl)
    · split at hname
      · cases hname
      · obtain rfl := Except.ok.inj hname
        have hlt := n.toNat_lt
        rw [hn, show name.length = 256 from hwraps] at hlt
        exact absurd hlt (by decide)

/-- Where an address was written, an encoding that is read has the same length. -/
theorem Encodes.length_eq (hp : p.IsConsistent) {written : Address} {enc out rest rest' : Bytes}
    (henc : p.Encodes parseIP addr enc) (hout : p.writeAddress written = .ok out)
    (h : enc ++ rest = out ++ rest') : enc.length = out.length := by
  rw [Address.length_writeAddress hout]
  rw [writeAddress] at hout
  cases htb : p.addrByteMap written.family with
  | none => simp [htb] at hout
  | some tb =>
    have htype := hp.type htb
    rw [htb] at hout
    cases written with
    | ipv4 ip =>
      cases hout
      cases henc with
      | ipv4 ip' => simp [ip'.2, Address.encodedLength]
      | ipv6 ip' hfamily => cases (List.cons.inj h).1; simp [htype, Address.family] at hfamily
      | domain hfamily => cases (List.cons.inj h).1; simp [htype, Address.family] at hfamily
    | ipv6 ip =>
      cases hout
      cases henc with
      | ipv4 ip' hfamily => cases (List.cons.inj h).1; simp [htype, Address.family] at hfamily
      | ipv6 ip' => simp [ip'.2, Address.encodedLength]
      | domain hfamily => cases (List.cons.inj h).1; simp [htype, Address.family] at hfamily
    | domain name' =>
      dsimp only at hout
      split at hout
      · cases hout
      rename_i hshort
      cases hout
      cases henc with
      | ipv4 ip' hfamily => cases (List.cons.inj h).1; simp [htype, Address.family] at hfamily
      | ipv6 ip' hfamily => cases (List.cons.inj h).1; simp [htype, Address.family] at hfamily
      | @domain _ tb' n name hfamily hne hn =>
        -- a length that wraps around is that of no domain
        obtain rfl : n = UInt8.ofNat name'.length := (List.cons.inj (List.cons.inj h).2).1
        have hpos := List.length_pos_iff.2 hne
        have hle : name'.length ≤ 256 := not_lt.1 fun hlong => hshort (decide_eq_true hlong)
        rw [UInt8.toNat_ofNat'] at hn
        rw [Address.encodedLength, List.length_cons, List.length_cons]
        omega

/-- Reading an address and a port where others were written, if it succeeds, takes the
    bytes of those. -/
theorem readAddressPort_rest (hp : p.IsConsistent) (htype : p.typeParser = none)
    (hlast : p.portFirst = false) {written : Address} {port : UInt16} {out rest : Bytes}
    (hout : p.writeAddressPort written port = .ok out) {r r' : BufferedReader}
    (h : r.bytes = out ++ rest) {a : Option Address × UInt16 × Bytes}
    (hread : p.readAddressPort parseIP BufferedReader.readFull [] r = (.ok a, r')) :
    r'.bytes = rest := by
  obtain ⟨addr, port', b⟩ := a
  obtain ⟨a, b, -, henc, hbytes⟩ := readAddressPort_eq_ok htype hlast hread
  rw [writeAddressPort, hlast] at hout
  cases ha : p.writeAddress written with
  | error e => simp [ha] at hout
  | ok a' =>
    rw [ha] at hout
    obtain rfl : a' ++ writePort port = out := Except.ok.inj hout
    rw [h, List.append_assoc, List.append_assoc] at hbytes
    have hlen := henc.length_eq hp ha hbytes.symm
    have hport : (writePort port).length = (writePort port').length := by
      rw [writePort, writePort, length_bigEndian, length_bigEndian]
    exact (List.append_inj (List.append_inj hbytes hlen.symm).2 hport).2.symm

end AddressParser

end Gzv2ray
