import Gzv2ray.Buf.Reader

/-!
# Reading into a buffer

What a decoder does that reads from an input behind the content of a buffer
(`Reading`), indexes this content and slices it. Outside of the content, an
index or a slice is a panic.

`Reading.Yields` is the triple of such a decoder: it does not panic, what it
takes from the input is found behind the content, whether it succeeds or not,
and where it succeeds, its value and what it took satisfy a condition. There is
a rule for each step, and one for a sequence (`Reading.Yields.bind`).
-/

namespace Gzv2ray

/-- What there is room for is written whole. -/
theorem Buffer.write_bytes (b : Buffer) {data : Bytes} (h : b.stop + data.length ≤ bufSize) :
    (b.write data).1.bytes = b.bytes ++ data := by
  change b.bytes ++ data.take (min (bufSize - b.stop) data.length) = _
  rw [Nat.min_eq_right (by omega), List.take_length]

/-- Whatever reads from an input of the type behind the content of a buffer. -/
def Reading (ι α : Type) := Buffer → ι → Outcome α × Buffer × ι

/-- How much a read takes, its error, and the input that is left. -/
abbrev ReadFull (ι : Type) := ι → ℕ → Bytes × Option Error × ι

/-- A read takes as many bytes as asked for, or fewer and fails. -/
def ReadFull.IsFull {ι : Type} (readFull : ReadFull ι) : Prop :=
  ∀ i n, (readFull i n).1.length ≤ n ∧ ((readFull i n).2.1 = none → (readFull i n).1.length = n)

/-- The bytes that a read takes are the first of those to come, which `toBytes` tells. -/
def ReadFull.IsLawful {ι : Type} (readFull : ReadFull ι) (toBytes : ι → Bytes) : Prop :=
  ∀ i n, toBytes i = (readFull i n).1 ++ toBytes (readFull i n).2.2 ∧ (readFull i n).1.length ≤ n ∧
    ((readFull i n).2.1 = none → (readFull i n).1.length = n)

/-- The reads without what they took before an error. -/
def ReadFull.full {ι : Type} (readFull : ReadFull ι) (i : ι) (n : ℕ) : Except Error Bytes × ι :=
  match readFull i n with
  | (out, none, i) => (.ok out, i)
  | (_, some e, i) => (.error e, i)

theorem ReadFull.IsLawful.isFull {ι : Type} {readFull : ReadFull ι} {toBytes : ι → Bytes}
    (h : readFull.IsLawful toBytes) : readFull.IsFull :=
  fun i n => (h i n).2

/-- The relation says what input remains when some bytes are taken, and then others. -/
structure IsPath {ι : Type} (S : ι → Bytes → ι → Prop) : Prop where
  refl (i) : S i [] i
  trans {i i' i'' l l'} : S i l i' → S i' l' i'' → S i (l ++ l') i''

/-- It says so of each read. -/
structure ReadFull.Follows {ι : Type} (readFull : ReadFull ι) (S : ι → Bytes → ι → Prop) : Prop
    extends IsPath S where
  le (i n) : (readFull i n).1.length ≤ n
  read (i n) : S i (readFull i n).1 (readFull i n).2.2

/-- A read takes the next bytes, which are those that `P` tells, or it fails at an end. -/
def ReadFull.Supplies {ι : Type} (readFull : ReadFull ι) (P : ι → Bytes → Prop) (ended : ι → Prop) :
    Prop :=
  ∀ i b n, P i b → (∃ p e i', readFull i n = (p, some e, i') ∧ ended i') ∨
    n ≤ b.length ∧ ∃ i', readFull i n = (b.take n, none, i') ∧ P i' (b.drop n)

/-- A read of bytes that are to come, as `P` tells, takes them. -/
def ReadFull.Serves {ι : Type} (readFull : ReadFull ι) (P : ι → Bytes → Prop) : Prop :=
  ∀ i a rest, P i (a ++ rest) → ∃ i', readFull i a.length = (a, none, i') ∧ P i' rest

namespace Reading

variable {ι α β : Type}

instance : Monad (Reading ι) where
  pure a b i := (.ok a, b, i)
  bind m f b i :=
    match m b i with
    | (.ok a, b, i) => f a b i
    | (.error e, b, i) => (.error e, b, i)
    | (.panic, b, i) => (.panic, b, i)

def error (e : Error) : Reading ι α := fun b i => (.error e, b, i)

/-- The value, if there is one: there is a panic otherwise. -/
def ofOption (a : Option α) : Reading ι α := fun b i =>
  (match a with | some a => .ok a | none => .panic, b, i)

/-- The length of the content. -/
def len : Reading ι ℤ := fun b i => (.ok b.len, b, i)

/-- `Byte`: the byte of the content at an index. -/
def byte (index : ℤ) : Reading ι UInt8 := fun b i =>
  (if index < 0 then .panic
    else match b.bytes[index.toNat]? with | some c => .ok c | none => .panic, b, i)

/-- `BytesFrom`: the content from an index on, or from as many bytes before its end. -/
def bytesFrom (start : ℤ) : Reading ι Bytes := fun b i =>
  let start := if start < 0 then start + b.len else start
  (if start < 0 ∨ b.len < start then .panic else .ok (b.bytes.drop start.toNat), b, i)

/-- `BytesRange`: the content between two indices, which may be counted from its end. -/
def bytesRange (start stop : ℤ) : Reading ι Bytes := fun b i =>
  let start := if start < 0 then start + b.len else start
  let stop := if stop < 0 then stop + b.len else stop
  (if start < 0 ∨ stop < start ∨ b.len < stop then .panic
    else .ok ((b.bytes.take stop.toNat).drop start.toNat), b, i)

/-- `BytesTo`: the content up to an index. -/
def bytesTo (stop : ℤ) : Reading ι Bytes := bytesRange 0 stop

def outOfBound : Error := .new (ascii "out of bound: ")

/-- `ReadFullFrom`: reads as many bytes, if there is room. What is read remains, even if it is less. -/
def readFullFrom (readFull : ReadFull ι) (size : ℕ) : Reading ι Unit := fun b i =>
  if b.stop + size > bufSize then (.error outOfBound, b, i)
  else
    let (p, err, i) := readFull i size
    (match err with | none => .ok () | some e => .error e, (b.write p).1, i)

theorem bind_apply (m : Reading ι α) (f : α → Reading ι β) (b : Buffer) (i : ι) :
    (m >>= f) b i = match m b i with
      | (.ok a, b, i) => f a b i
      | (.error e, b, i) => (.error e, b, i)
      | (.panic, b, i) => (.panic, b, i) := rfl

theorem bind_of_ok {m : Reading ι α} {f : α → Reading ι β} {b b' : Buffer} {i i' : ι} {a : α}
    (h : m b i = (.ok a, b', i')) : (m >>= f) b i = f a b' i' := by
  rw [bind_apply, h]

theorem bind_of_error {m : Reading ι α} {f : α → Reading ι β} {b b' : Buffer} {i i' : ι} {e : Error}
    (h : m b i = (.error e, b', i')) : (m >>= f) b i = (.error e, b', i') := by
  rw [bind_apply, h]

/-! ## The triple -/

variable (toBytes : ι → Bytes)

/-- From any buffer with the content. -/
def Yields (m : Reading ι α) (c : Bytes) (Q : α → Bytes → Prop) : Prop :=
  ∀ b i, b.bytes = c → ∃ l, (m b i).2.1.bytes = c ++ l ∧ toBytes i = l ++ toBytes (m b i).2.2 ∧
    (m b i).1 ≠ .panic ∧ ∀ a, (m b i).1 = .ok a → Q a l

variable {toBytes} {m : Reading ι α} {f : α → Reading ι β} {c : Bytes} {Q Q' : α → Bytes → Prop}
  {R : β → Bytes → Prop}

/-- Nothing is taken. -/
theorem Yields.of_eq {o : Outcome α} (h : ∀ b i, b.bytes = c → m b i = (o, b, i))
    (hpanic : o ≠ .panic) (hok : ∀ a, o = .ok a → Q a []) : m.Yields toBytes c Q := by
  intro b i hb
  rw [h b i hb]
  exact ⟨[], by rw [List.append_nil]; exact hb, rfl, hpanic, hok⟩

theorem Yields.pure {a : α} (h : Q a []) : (pure a : Reading ι α).Yields toBytes c Q :=
  .of_eq (o := .ok a) (fun _ _ _ => rfl) (by simp) (by rintro _ ⟨⟩; exact h)

theorem Yields.error {e : Error} : (error e : Reading ι α).Yields toBytes c Q :=
  .of_eq (o := .error e) (fun _ _ _ => rfl) (by simp) (by rintro _ ⟨⟩)

theorem Yields.ofOption {a : α} (h : Q a []) : (ofOption (some a) : Reading ι α).Yields toBytes c Q :=
  .of_eq (o := .ok a) (fun _ _ _ => rfl) (by simp) (by rintro _ ⟨⟩; exact h)

theorem Yields.mono (h : m.Yields toBytes c Q) (hQ : ∀ a l, Q a l → Q' a l) :
    m.Yields toBytes c Q' := by
  intro b i hb
  obtain ⟨l, hcontent, htaken, hpanic, hok⟩ := h b i hb
  exact ⟨l, hcontent, htaken, hpanic, fun a ha => hQ a l (hok a ha)⟩

/-- A sequence: the second part starts with what the first one took. -/
theorem Yields.bind (hm : m.Yields toBytes c Q)
    (hf : ∀ a l, Q a l → (f a).Yields toBytes (c ++ l) fun x l' => R x (l ++ l')) :
    (m >>= f).Yields toBytes c R := by
  intro b i hb
  obtain ⟨l, hcontent, htaken, hpanic, hok⟩ := hm b i hb
  rw [bind_apply]
  rcases hout : m b i with ⟨a | e | -, b', i'⟩ <;> rw [hout] at hcontent htaken hpanic hok
  · obtain ⟨l', hcontent', htaken', hpanic', hok'⟩ := hf a l (hok a rfl) b' i' hcontent
    refine ⟨l ++ l', by rw [hcontent', List.append_assoc], ?_, hpanic', hok'⟩
    rw [htaken, htaken', List.append_assoc]
  · exact ⟨l, hcontent, htaken, by simp, by rintro _ ⟨⟩⟩
  · exact absurd rfl hpanic

theorem Yields.len {Q : ℤ → Bytes → Prop} (h : Q c.length []) : (len : Reading ι ℤ).Yields toBytes c Q :=
  .of_eq (o := .ok (c.length : ℤ)) (fun b _ hb => by rw [← hb]; rfl) (by simp)
    (by rintro _ ⟨⟩; exact h)

theorem byte_concat {b : Buffer} {i : ι} {c' : Bytes} {x : UInt8} {index : ℤ}
    (hb : b.bytes = c' ++ [x]) (hindex : index = b.bytes.length - 1) :
    byte index b i = (.ok x, b, i) := by
  have hlen : b.bytes.length = c'.length + 1 := by
    rw [hb, List.length_append, List.length_singleton]
  have htoNat : index.toNat = c'.length := by omega
  rw [byte, if_neg (by omega), htoNat, hb, List.getElem?_concat_length]

/-- The last byte of the content. -/
theorem Yields.byte_last {c' : Bytes} {x : UInt8} {index : ℤ} (hc : c = c' ++ [x])
    (hindex : index = c.length - 1) {Q : UInt8 → Bytes → Prop} (h : Q x []) :
    (byte index : Reading ι UInt8).Yields toBytes c Q :=
  .of_eq (o := .ok x) (fun _ _ hb => byte_concat (hb.trans hc) (hb ▸ hindex)) (by simp)
    (by rintro _ ⟨⟩; exact h)

theorem bytesFrom_append {b : Buffer} {i : ι} {c' p : Bytes} (hb : b.bytes = c' ++ p)
    (hp : p ≠ []) : bytesFrom (-(p.length : ℤ)) b i = (.ok p, b, i) := by
  have hpos := List.length_pos_iff.2 hp
  have hlen : (b.len : ℤ) = c'.length + p.length := by
    rw [Buffer.len, hb, List.length_append]
    rfl
  have hstart : (if -(p.length : ℤ) < 0 then -(p.length : ℤ) + b.len else -(p.length : ℤ)) =
      c'.length := by
    rw [if_pos (by omega)]
    omega
  rw [bytesFrom, hstart, if_neg (by omega), hb, Int.toNat_natCast, List.drop_left]

/-- The last bytes of the content, as many as were taken. -/
theorem Yields.bytesFrom_last {c' p : Bytes} (hc : c = c' ++ p) (hp : p ≠ [])
    {Q : Bytes → Bytes → Prop} (h : Q p []) :
    (bytesFrom (-(p.length : ℤ)) : Reading ι Bytes).Yields toBytes c Q :=
  .of_eq (o := .ok p) (fun _ _ hb => bytesFrom_append (hb.trans hc) hp) (by simp)
    (by rintro _ ⟨⟩; exact h)

theorem bytesFrom_start {b : Buffer} {i : ι} : bytesFrom 0 b i = (.ok b.bytes, b, i) := by
  rw [bytesFrom, if_neg (lt_irrefl 0), if_neg (by simp)]
  rfl

/-- From the start, all of it. -/
theorem Yields.bytesFrom_zero {Q : Bytes → Bytes → Prop} (h : Q c []) :
    (bytesFrom 0 : Reading ι Bytes).Yields toBytes c Q :=
  .of_eq (o := .ok c) (fun _ _ hb => hb ▸ bytesFrom_start) (by simp)
    (by rintro _ ⟨⟩; exact h)

/-- What a read takes is found behind the content. -/
theorem Yields.readFullFrom {readFull : ReadFull ι} (hread : readFull.IsLawful toBytes) {size : ℕ}
    {Q : Unit → Bytes → Prop} (h : ∀ l : Bytes, l.length = size → Q () l) :
    (readFullFrom readFull size).Yields toBytes c Q := by
  intro b i hb
  rw [Reading.readFullFrom]
  split_ifs with hroom
  · exact ⟨[], by rw [List.append_nil]; exact hb, rfl, by simp, by rintro _ ⟨⟩⟩
  · obtain ⟨htaken, hle, hfull⟩ := hread i size
    rcases hout : readFull i size with ⟨p, err, i'⟩
    rw [hout] at htaken hle hfull
    dsimp only at htaken hle hfull ⊢
    have hwrite : (b.write p).1.bytes = c ++ p := by rw [b.write_bytes (by omega), hb]
    refine ⟨p, hwrite, htaken, ?_, ?_⟩
    · rcases err with - | e <;> simp
    · rcases err with - | e
      · rintro ⟨⟩ -
        exact h p (hfull rfl)
      · rintro _ ⟨⟩

/-! ## What is taken -/

variable (S : ι → Bytes → ι → Prop)

/-- From one state to another, whatever is taken is appended to the content, and takes the input
    from one state to the other. -/
def Took (x y : Buffer × ι) : Prop := ∃ l, y.1.bytes = x.1.bytes ++ l ∧ S x.2 l y.2

/-- Whatever comes of it. -/
def Takes (m : Reading ι α) : Prop := ∀ b i, Took S (b, i) (m b i).2

variable {S} {readFull : ReadFull ι}

theorem Took.refl (hS : IsPath S) (x : Buffer × ι) : Took S x x :=
  ⟨[], (List.append_nil _).symm, hS.refl x.2⟩

theorem Took.trans (hS : IsPath S) {x y z : Buffer × ι} (h : Took S x y) (h' : Took S y z) :
    Took S x z := by
  obtain ⟨l, hcontent, htaken⟩ := h
  obtain ⟨l', hcontent', htaken'⟩ := h'
  exact ⟨l ++ l', by rw [hcontent', hcontent, List.append_assoc], hS.trans htaken htaken'⟩

/-- From an empty buffer on, what is taken is what is in the buffer. -/
theorem Took.of_new {i : ι} {y : Buffer × ι} (h : Took S (.new, i) y) : S i y.1.bytes y.2 := by
  obtain ⟨l, hcontent, htaken⟩ := h
  rwa [hcontent]

theorem Takes.of_eq (hS : IsPath S) (h : ∀ b i, (m b i).2 = (b, i)) : m.Takes S :=
  fun b i => (h b i).symm ▸ .refl hS (b, i)

/-- What the first part of a sequence does may be more than what the second does. -/
theorem Took.bind {S' : ι → Bytes → ι → Prop} {b : Buffer} {i : ι}
    (htrans : ∀ {i i' i'' l l'}, S' i l i' → S i' l' i'' → S' i (l ++ l') i'')
    (hm : Took S' (b, i) (m b i).2) (hf : ∀ a, (f a).Takes S) : Took S' (b, i) ((m >>= f) b i).2 := by
  rw [bind_apply]
  rcases hout : m b i with ⟨a | e | -, b', i'⟩ <;> rw [hout] at hm
  · obtain ⟨l, hcontent, htaken⟩ := hm
    obtain ⟨l', hcontent', htaken'⟩ := hf a b' i'
    dsimp only at hcontent hcontent' ⊢
    exact ⟨l ++ l', by rw [hcontent', hcontent, List.append_assoc], htrans htaken htaken'⟩
  · exact hm
  · exact hm

theorem Takes.bind (hS : IsPath S) (hm : m.Takes S) (hf : ∀ a, (f a).Takes S) :
    (m >>= f).Takes S :=
  fun b i => .bind hS.trans (hm b i) hf

theorem Takes.readFullFrom (hread : readFull.Follows S) (size : ℕ) :
    (readFullFrom readFull size).Takes S := by
  intro b i
  rw [Reading.readFullFrom]
  split_ifs with hroom
  · exact .refl hread.toIsPath _
  · exact ⟨(readFull i size).1, b.write_bytes (by have := hread.le i size; omega), hread.read i size⟩

/-- With room for it, as much is read as asked for, or the end is met. -/
theorem readFullFrom_supplies {P : ι → Bytes → Prop} {ended : ι → Prop}
    (h : readFull.Supplies P ended) {b : Buffer} {i : ι} {input : Bytes} (hi : P i input) {n : ℕ}
    (hroom : b.stop + n ≤ bufSize) :
    (∃ e b' i', Reading.readFullFrom readFull n b i = (.error e, b', i') ∧ ended i') ∨
    n ≤ input.length ∧ ∃ b' i', Reading.readFullFrom readFull n b i = (.ok (), b', i') ∧
      b'.bytes = b.bytes ++ input.take n ∧ b'.stop = b.stop + n ∧ P i' (input.drop n) := by
  rw [Reading.readFullFrom, if_neg (by omega)]
  rcases h i input n hi with ⟨p, e, i', hread, hended⟩ | ⟨hn, i', hread, hi'⟩ <;> rw [hread]
  · exact .inl ⟨e, _, i', rfl, hended⟩
  · have hlength : (input.take n).length = n := List.length_take_of_le hn
    have hbytes : (b.write (input.take n)).1.bytes = _ := b.write_bytes (by omega)
    refine .inr ⟨hn, _, i', rfl, hbytes, ?_, hi'⟩
    rw [Buffer.stop, hbytes, List.length_append, hlength, Buffer.stop, Nat.add_assoc]
    rfl

/-- With room for them, the bytes that come first are read. -/
theorem readFullFrom_serves {P : ι → Bytes → Prop} (h : readFull.Serves P) {b : Buffer} {i : ι}
    {a rest : Bytes} (hi : P i (a ++ rest)) (hroom : b.stop + a.length ≤ bufSize) :
    ∃ i', Reading.readFullFrom readFull a.length b i = (.ok (), (b.write a).1, i') ∧ P i' rest := by
  obtain ⟨i', hread, hi'⟩ := h i a rest hi
  exact ⟨i', by rw [Reading.readFullFrom, if_neg (by omega), hread], hi'⟩

end Reading

/-- With bytes at hand, some of them are read. -/
theorem BufferedReader.read_ne_nil {r r' : BufferedReader} {n : ℕ}
    (h : MultiBuffer.bytes r.buffer ≠ []) (hn : 0 < n) : r.read n ≠ (.ok [], r') := by
  intro hr
  rw [read, (MultiBuffer.isEmpty_eq_false_iff _).2 h, Bool.not_false, if_pos rfl] at hr
  have hout : (MultiBuffer.bytes r.buffer).take n = [] := by simpa using congrArg Prod.fst hr
  exact (List.take_eq_nil_iff.1 hout).elim hn.ne' h

/-- A read takes bytes, or uses a segment up that was empty. -/
theorem BufferedReader.read_less (r : BufferedReader) {r' : BufferedReader} {n : ℕ} {out : Bytes}
    (hn : 0 < n) (h : r.read n = (.ok out, r')) :
    r'.reader.segments.length + r'.bytes.length < r.reader.segments.length + r.bytes.length := by
  rcases r.read_cases n with ⟨_, _, hr, hbytes, -, -, hsegs, hshort⟩ | ⟨hr, -, -⟩
  · obtain ⟨hout, rfl⟩ := Prod.mk.inj (h.symm.trans hr)
    obtain rfl := Except.ok.inj hout
    rw [← hbytes, List.length_append]
    rcases out with - | ⟨x, out⟩
    · obtain ⟨-, hfewer⟩ := hshort hn
      have hless := hfewer (by_contra fun hne => read_ne_nil hne hn h)
      rw [List.length_nil]
      omega
    · rw [List.length_cons]
      omega
  · exact absurd (congrArg Prod.fst (h.symm.trans hr)) (by simp)

/-- `io.ReadFull` from a transport, with what it read. -/
def BufferedReader.readInto : ReadFull BufferedReader := fun r n =>
  match readFullLoop (r.reader.segments.length + 2) r n with
  | (out, some .eof, r) => (out, some (if out.isEmpty then .eof else .unexpectedEOF), r)
  | out => out

/-- What it reads are the next bytes, whatever the segments. -/
theorem BufferedReader.readInto_eq (r : BufferedReader) (n : ℕ) : ∃ r',
    r'.bytes = r.bytes.drop n ∧ r'.reader.err = r.reader.err ∧ r.readInto n = (r.bytes.take n,
      if n ≤ r.bytes.length then none else some (shortError r.bytes r.reader.err), r') := by
  obtain ⟨r', hbytes, herr, -, hloop⟩ := readFullLoop_spec (r.reader.segments.length + 2) r n
    (by split <;> omega)
  refine ⟨r', hbytes, herr, ?_⟩
  rw [readInto, hloop]
  split_ifs with hn
  · rfl
  · rw [List.take_of_length_le (by omega), shortError]
    cases r.reader.err <;> simp

/-- `readFull` is the same without what was read before an error. -/
theorem BufferedReader.readFull_eq : readFull = readInto.full := by
  funext r n
  rw [readFull, ReadFull.full, readInto]
  rcases readFullLoop (r.reader.segments.length + 2) r n with ⟨out, - | e, r'⟩
  · rfl
  · rcases e <;> rfl

theorem BufferedReader.readInto_isLawful : readInto.IsLawful bytes := by
  intro r n
  obtain ⟨r', hbytes, -, hread⟩ := r.readInto_eq n
  rw [hread]
  refine ⟨by rw [hbytes, List.take_append_drop], List.length_take_le n _, fun hnone => ?_⟩
  split_ifs at hnone with hn
  exact List.length_take_of_le hn

theorem BufferedReader.readInto_serves : readInto.Serves fun r b => r.bytes = b := by
  intro r a rest hr
  obtain ⟨r', hbytes, -, hread⟩ := r.readInto_eq a.length
  rw [hr, List.take_left, if_pos (by simp)] at hread
  exact ⟨r', hread, hbytes.trans (by rw [hr, List.drop_left])⟩

end Gzv2ray
