import Gzv2ray.Net.AddressDecoder

/-!
# The length of a destination

How many bytes the decoder takes of an input that does not come to its end
(`AddressParser.readBothInto_length`): those of the destination that the input starts
with, or of the part of it up to where it is refused.
-/

namespace Gzv2ray.AddressParser

variable (p : AddressParser) (parseIP : Bytes → Option IPv6)

/-- The name of a domain is accepted, or it is cut out of the wrong bytes where it is empty. -/
def acceptsDomain (tb n : UInt8) (b : Bytes) : Bool :=
  match domainAddress parseIP (bytesFromEnd (tb :: n :: b.take n.toNat) n.toNat) with
  | .ok _ => true
  | .error _ => false

/-- The bytes of a domain and the port, behind its type. -/
def domainLen (tb : UInt8) : Bytes → ℕ
  | [] => 1
  | n :: b => if acceptsDomain parseIP tb n b then 2 + n.toNat + 2 else 2 + n.toNat

/-- The bytes of the address and the port that the input starts with, or up to where the address is
    refused. -/
def destinationLen : Bytes → ℕ
  | [] => 0
  | tb :: b =>
    if p.parseType tb ≥ 16 then 1
    else
      match p.addrTypeMap (p.parseType tb) with
      | none => 1
      | some .ipv4 => 1 + 4 + 2
      | some .ipv6 => 1 + 16 + 2
      | some .domain => domainLen parseIP tb b

variable {p parseIP} {ι : Type} {readFull : ReadFull ι} {P : ι → Bytes → Prop} {ended : ι → Prop}

/-- What comes of an address: the end is met, or it is refused, or it is read with room for more. -/
def Ends (ended : ι → Prop) (P : ι → Bytes → Prop) (size : ℕ) {α : Type}
    (out : Outcome α × Buffer × ι) : Prop :=
  (∃ e b i, out = (.error e, b, i) ∧ ended i) ∨ (∃ e b i, out = (.error e, b, i) ∧ b.len = size) ∨
    ∃ a b i input, out = (.ok a, b, i) ∧ b.len + 2 = size ∧ b.stop + 2 ≤ bufSize ∧ P i input

theorem readIPInto_ends (h : readFull.Supplies P ended) {b : Buffer} {i : ι} {input : Bytes}
    (hi : P i input) (size : ℕ) (hpos : 0 < size) (hroom : b.stop + size + 2 ≤ bufSize) :
    Ends ended P (b.len + size + 2) (readIPInto readFull size b i) := by
  rcases Reading.readFullFrom_supplies h hi (b := b) (n := size) (by omega) with
    ⟨e, b', i', hread, hended⟩ | ⟨hn, b', i', hread, hbytes, hstop, hi'⟩
  · exact .inl ⟨e, b', i', Reading.bind_of_error hread, hended⟩
  have hlength : (input.take size).length = size := List.length_take_of_le hn
  have hfrom := Reading.bytesFrom_append (i := i') hbytes
    (List.length_pos_iff.1 (hlength.symm ▸ hpos))
  rw [hlength] at hfrom
  refine .inr (.inr ⟨_, b', i', _, (Reading.bind_of_ok hread).trans (Reading.bind_of_ok hfrom), ?_,
    by omega, hi'⟩)
  rw [Buffer.len, hbytes, List.length_append, hlength]
  rfl

theorem readDomainInto_ends (h : readFull.Supplies P ended) {b : Buffer} {i : ι} {tb n : UInt8}
    {input : Bytes} (hb : b.bytes = [tb]) (hstop : b.stop = 1) (hi : P i (n :: input)) :
    Ends ended P (if acceptsDomain parseIP tb n input then 2 + n.toNat + 2 else 2 + n.toNat)
      (readDomainInto parseIP readFull b i) := by
  have hsize := n.toNat_lt
  rcases Reading.readFullFrom_supplies h hi (b := b) (n := 1) (by rw [hstop]; decide) with
    ⟨e, b', i', hread, hended⟩ | ⟨-, b', i', hread, hbytes, hstop', hi'⟩
  · exact .inl ⟨e, b', i', Reading.bind_of_error hread, hended⟩
  rw [hb] at hbytes
  have hbyte : Reading.byte ((b'.len : ℤ) - 1) b' i' = (.ok n, b', i') :=
    Reading.byte_concat hbytes rfl
  have hlen (f : ℤ → Reading ι (Option Address)) :
      (Reading.len >>= f) b' i' = f b'.len b' i' := Reading.bind_of_ok rfl
  rw [readDomainInto, Reading.bind_of_ok hread, hlen, Reading.bind_of_ok hbyte]
  rcases Reading.readFullFrom_supplies h hi' (b := b') (n := n.toNat)
    (by rw [bufSize]; omega) with
    ⟨e, b'', i'', hread', hended⟩ | ⟨hn, b'', i'', hread', hbytes', hstop'', hi''⟩
  · exact .inl ⟨e, b'', i'', Reading.bind_of_error hread', hended⟩
  have hcontent : b''.bytes = tb :: n :: input.take n.toNat := by rw [hbytes', hbytes]; rfl
  have hlength : b''.len = 2 + n.toNat := by
    have htake : (input.take n.toNat).length = n.toNat := List.length_take_of_le hn
    rw [Buffer.len, hcontent, List.length_cons, List.length_cons, htake]
    omega
  have hfrom : Reading.bytesFrom (-(n.toNat : ℤ)) b'' i'' =
      (.ok (bytesFromEnd b''.bytes n.toNat), b'', i'') :=
    bytesFrom_eq (by rw [← Buffer.len, hlength]; omega) i''
  have hne : bytesFromEnd b''.bytes n.toNat ≠ [] := by
    rw [bytesFromEnd]
    split_ifs with hzero
    · simp [hcontent]
    · rw [Ne, List.drop_eq_nil_iff, ← Buffer.len, hlength]
      omega
  rw [Reading.bind_of_ok hread', Reading.bind_of_ok hfrom, parseDomain_eq hne, acceptsDomain,
    ← hcontent]
  rcases domainAddress parseIP (bytesFromEnd b''.bytes n.toNat) with e | a
  · exact .inr (.inl ⟨e, b'', i'', rfl, hlength⟩)
  · exact .inr (.inr ⟨some a, b'', i'', _, rfl, by rw [hlength]; rfl, by rw [bufSize]; omega, hi''⟩)

theorem readAddressInto_ends (h : readFull.Supplies P ended) {i : ι} {input : Bytes}
    (hi : P i input) :
    Ends ended P (p.destinationLen parseIP input) (p.readAddressInto parseIP readFull .new i) := by
  rcases Reading.readFullFrom_supplies h hi (b := .new) (n := 1) (by decide) with
    ⟨e, b, i', hread, hended⟩ | ⟨hn, b, i', hread, hbytes, hstop, hi'⟩
  · exact .inl ⟨e, b, i', Reading.bind_of_error hread, hended⟩
  obtain ⟨tb, input, rfl⟩ : ∃ tb rest, input = tb :: rest :=
    List.exists_cons_of_length_pos hn
  have hbyte : Reading.byte ((b.len : ℤ) - 1) b i' = (.ok tb, b, i') :=
    Reading.byte_concat (show b.bytes = [] ++ [tb] from hbytes) rfl
  have hlen (f : ℤ → Reading ι (Option Address)) :
      (Reading.len >>= f) b i' = f b.len b i' := Reading.bind_of_ok rfl
  have hone : b.len = 1 := congrArg List.length hbytes
  rw [readAddressInto, Reading.bind_of_ok hread, hlen, Reading.bind_of_ok hbyte, destinationLen]
  split_ifs with hbig
  · exact .inr (.inl ⟨_, b, i', rfl, hone⟩)
  rcases p.addrTypeMap (p.parseType tb) with - | - | - | -
  · exact .inr (.inl ⟨_, b, i', rfl, hone⟩)
  · have hends := readIPInto_ends h hi' (b := b) 4 (by decide) (by rw [hstop]; decide)
    rwa [hone] at hends
  · have hends := readIPInto_ends h hi' (b := b) 16 (by decide) (by rw [hstop]; decide)
    rwa [hone] at hends
  · rcases input with - | ⟨n, input⟩
    · -- There is no length left to be read.
      rcases Reading.readFullFrom_supplies h hi' (b := b) (n := 1) (by rw [hstop]; decide) with
        ⟨e, b', i'', hread', hended⟩ | ⟨hn', -⟩
      · exact .inl ⟨e, b', i'', Reading.bind_of_error hread', hended⟩
      · exact absurd hn' (by simp)
    · exact readDomainInto_ends h hbytes hstop hi'

/-- The decoder takes the bytes of the destination, or meets the end. -/
theorem readBothInto_length (hlast : p.portFirst = false) (h : readFull.Supplies P ended) {i : ι}
    {input : Bytes} (hi : P i input) :
    ended (p.readBothInto parseIP readFull .new i).2.2 ∨
      (p.readBothInto parseIP readFull .new i).2.1.len = p.destinationLen parseIP input := by
  rw [readBothInto, if_neg (by simp [hlast])]
  rcases (readAddressInto_ends h hi :
      Ends ended P _ (p.readAddressInto parseIP readFull .new i)) with
    ⟨e, b, i', hread, hended⟩ | ⟨e, b, i', hread, hlen⟩ | ⟨a, b, i', rest, hread, hlen, hroom, hi'⟩
  · exact .inl (by rw [Reading.bind_of_error hread]; exact hended)
  · exact .inr (by rw [Reading.bind_of_error hread]; exact hlen)
  rw [Reading.bind_of_ok hread, readPortInto]
  rcases Reading.readFullFrom_supplies h hi' (b := b) (n := 2) hroom with
    ⟨e, b', i'', hread', hended⟩ | ⟨hn, b', i'', hread', hbytes, -⟩
  · exact .inl (by
      rw [Reading.bind_of_error (Reading.bind_of_error hread')]
      exact hended)
  · have hlength : (rest.take 2).length = 2 := List.length_take_of_le hn
    have hfrom := Reading.bytesFrom_append (i := i'') hbytes
      (List.length_pos_iff.1 (by rw [hlength]; decide))
    rw [hlength] at hfrom
    refine .inr ?_
    rw [Reading.bind_of_ok ((Reading.bind_of_ok hread').trans (Reading.bind_of_ok hfrom))]
    exact (congrArg List.length hbytes).trans (by rw [List.length_append, hlength]; exact hlen)

end Gzv2ray.AddressParser
