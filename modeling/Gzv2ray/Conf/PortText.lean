import Gzv2ray.Conf.Port

/-!
# What the text of ports says

* `Writes`, `Reads`: the interval that a text says, itself or by a variable of the environment;
* `Lawful`: a decoder gives ranges in order, of ports, that stand for what the value says, however
  a number is written;
* `PortList.IsSound`: where the decoder of lists does, which checks less than that of ranges.

`unmarshalJSON_lawful_iff` is about both.
-/

namespace Gzv2ray

namespace Conf

open Decimal (IsNumeral extend)

/-! ## Numbers -/

theorem digitValue_of_isDigit {c : UInt8} (h : Decimal.isDigit c = true) :
    digitValue c = some (Decimal.digit c) ∧ Decimal.digit c < 10 := by
  simp only [Decimal.isDigit, Bool.and_eq_true, decide_eq_true_eq] at h
  refine ⟨if_pos h, ?_⟩
  simp only [UInt8.le_iff_toNat_le, UInt8.reduceToNat] at h
  rw [Decimal.digit]
  omega

theorem le_digitValue {c : UInt8} {d : ℕ} (h : Decimal.isDigit c = false)
    (hd : digitValue c = some d) : 10 ≤ d := by
  simp only [Decimal.isDigit, Bool.and_eq_false_iff, decide_eq_false_iff_not] at h
  rw [digitValue, if_neg (by tauto)] at hd
  split at hd
  · cases hd
    exact Nat.le_add_left _ _
  · cases hd

/-- The digits are read, up to a number that is too large. -/
theorem parseDigits_eq_ok {num s : Bytes} {maxVal n m : ℕ} (hn : n ≤ maxVal) (hs : 0x5f ∉ s) :
    parseDigits num 10 maxVal n s = .ok m ↔
      (∀ c ∈ s, Decimal.isDigit c = true) ∧ extend s n = m ∧ m ≤ maxVal := by
  induction s generalizing n with
  | nil =>
    rw [parseDigits, extend]
    constructor
    · rintro ⟨⟩
      exact ⟨fun _ h => absurd h List.not_mem_nil, rfl, hn⟩
    · rintro ⟨-, rfl, -⟩
      rfl
  | cons c s ih =>
    obtain ⟨hc, hs⟩ := not_or.1 (List.mem_cons.not.1 hs)
    rw [parseDigits, if_neg (Ne.symm hc), extend, List.forall_mem_cons]
    cases hdigit : Decimal.isDigit c with
    | false =>
      refine iff_of_false (fun h => ?_) fun h => Bool.false_ne_true h.1.1
      cases hvalue : digitValue c with
      | none =>
        rw [hvalue] at h
        cases h
      | some d =>
        rw [hvalue] at h
        dsimp only at h
        rw [if_pos (le_digitValue hdigit hvalue)] at h
        cases h
    | true =>
      obtain ⟨hvalue, hlt⟩ := digitValue_of_isDigit hdigit
      rw [hvalue]
      dsimp only
      rw [if_neg (not_le.2 hlt)]
      split
      · rename_i hlarge
        -- what comes behind does not make it smaller
        refine iff_of_false (fun h => by cases h) fun h => ?_
        obtain ⟨-, h, hle⟩ := h
        have := Decimal.le_extend s (n * 10 + Decimal.digit c)
        omega
      · rename_i hsmall
        rw [ih (not_lt.1 hsmall) hs]
        simp

theorem parseUint10_eq_some {s : Bytes} {bitSize n : ℕ} :
    parseUint10 s bitSize = some n ↔ IsNumeral s n ∧ n < 2 ^ bitSize := by
  have hpos : 0 < 2 ^ bitSize := Nat.two_pow_pos _
  rw [parseUint10]
  split
  · rename_i h
    refine iff_of_false (fun h => by cases h) fun ⟨hs, _⟩ => ?_
    exact h.elim hs.ne_nil (hs.notMem rfl)
  · rename_i h
    obtain ⟨hne, hs⟩ := not_or.1 h
    have hok : ∀ out : Except NumError ℕ, out.toOption = some n ↔ out = .ok n := by
      rintro (e | m)
      · simp [Except.toOption]
      · simp [Except.toOption]
    rw [hok, parseDigits_eq_ok (Nat.zero_le _) hs]
    constructor
    · rintro ⟨hdigits, hvalue, hle⟩
      exact ⟨⟨hne, hdigits, hvalue⟩, by omega⟩
    · rintro ⟨h, hlt⟩
      exact ⟨h.digits, h.value, by omega⟩

theorem portFromInt_eq_ok {val : UInt32} {port : UInt16} :
    portFromInt val = .ok port ↔ val.toNat = port.toNat := by
  have hport := port.toNat_lt
  rw [portFromInt]
  split
  · rename_i h
    have hlarge : 65535 < val.toNat := UInt32.lt_iff_toNat_lt.1 h
    exact iff_of_false (fun h => by cases h) (by omega)
  · rename_i h
    have hsmall : ¬ 65535 < val.toNat := fun h' => h (UInt32.lt_iff_toNat_lt.2 h')
    have hmod : val.toUInt16.toNat = val.toNat := by
      rw [UInt32.toNat_toUInt16, Nat.mod_eq_of_lt (by omega)]
    constructor
    · rintro ⟨⟩
      exact hmod.symm
    · exact fun h => congrArg Except.ok (UInt16.toNat_inj.1 (hmod.trans h))

theorem portFromString_eq_ok {s : Bytes} {port : UInt16} :
    portFromString s = .ok port ↔ IsNumeral s port.toNat := by
  have hport := port.toNat_lt
  rw [portFromString]
  cases hval : parseUint10 s 32 with
  | none =>
    refine iff_of_false (fun h => by cases h) fun h => ?_
    have := parseUint10_eq_some.2 ⟨h, show port.toNat < 2 ^ 32 by omega⟩
    rw [hval] at this
    cases this
  | some val =>
    obtain ⟨hs, hlt⟩ := parseUint10_eq_some.1 hval
    dsimp only
    rw [portFromInt_eq_ok, UInt32.toNat_ofNat_of_lt' hlt]
    exact ⟨fun h => h ▸ hs, fun h => hs.unique h⟩

theorem JsonValue.asUint32_eq_some {literal : Bytes} {valid : isValidNumber literal = true}
    {val : UInt32} : (number literal valid).asUint32 = some val ↔ IsNumeral literal val.toNat := by
  have hlt := val.toNat_lt
  rw [asUint32]
  cases hn : parseUint10 literal 64 with
  | none =>
    refine iff_of_false (fun h => by cases h) fun h => ?_
    have := parseUint10_eq_some.2 ⟨h, show val.toNat < 2 ^ 64 by omega⟩
    rw [hn] at this
    cases this
  | some n =>
    obtain ⟨hs, -⟩ := parseUint10_eq_some.1 hn
    dsimp only
    split
    · rename_i hn
      rw [Option.some_inj, ← UInt32.toNat_inj, UInt32.toNat_ofNat_of_lt' hn]
      exact ⟨fun h => h ▸ hs, fun h => hs.unique h⟩
    · rename_i hn
      refine iff_of_false (fun h => by cases h) fun h => ?_
      rw [hs.unique h] at hn
      exact hn hlt

theorem parseIntPort_number {literal : Bytes} {valid : isValidNumber literal = true}
    {port : UInt16} :
    parseIntPort (.number literal valid) = .ok port ↔ IsNumeral literal port.toNat := by
  have hport := port.toNat_lt
  rw [parseIntPort]
  cases hval : (JsonValue.number literal valid).asUint32 with
  | none =>
    refine iff_of_false (fun h => by cases h) fun h => ?_
    have hnat : (UInt32.ofNat port.toNat).toNat = port.toNat :=
      UInt32.toNat_ofNat_of_lt' (show port.toNat < 2 ^ 32 by omega)
    have := (@JsonValue.asUint32_eq_some literal valid _).2 (hnat.symm ▸ h)
    rw [hval] at this
    cases this
  | some val =>
    have hs := JsonValue.asUint32_eq_some.1 hval
    dsimp only
    rw [portFromInt_eq_ok]
    exact ⟨fun h => h ▸ hs, fun h => hs.unique h⟩

/-! ## Texts -/

/-- A text writes a number, or an interval. -/
inductive Writes : Bytes → ℕ → ℕ → Prop
  | number {s : Bytes} {n : ℕ} (h : IsNumeral s n) : Writes s n n
  | interval {s t : Bytes} {a b : ℕ} (hs : IsNumeral s a) (ht : IsNumeral t b) :
    Writes (s ++ 0x2d :: t) a b

variable (getenv : Bytes → Bytes)

/-- A text says an interval: it writes it, or a variable of the environment does that it names. -/
def Reads (s : Bytes) (a b : ℕ) : Prop :=
  Writes (if ascii "env:" <+: s then getenv (s.drop 4) else s) a b

variable {getenv} {s t : Bytes} {a b a' b' : ℕ}

theorem writes_of_notMem (hs : 0x2d ∉ s) : Writes s a b ↔ IsNumeral s a ∧ a = b := by
  constructor
  · rintro (h | ⟨-, -⟩)
    · exact ⟨h, rfl⟩
    · exact absurd (List.mem_append_right _ List.mem_cons_self) hs
  · rintro ⟨h, rfl⟩
    exact .number h

theorem writes_append :
    Writes (s ++ 0x2d :: t) a b ↔ IsNumeral s a ∧ IsNumeral t b := by
  constructor
  · intro h
    generalize htext : s ++ 0x2d :: t = text at h
    cases h with
    | number h =>
      exact absurd (htext ▸ List.mem_append_right _ List.mem_cons_self) (h.notMem (c := 0x2d) rfl)
    | interval hs' ht' =>
      obtain ⟨rfl, -, rfl⟩ :=
        (List.append_cons_inj_of_notMem (hs'.notMem rfl) (ht'.notMem rfl)).1 htext.symm
      exact ⟨hs', ht'⟩
  · exact fun ⟨hs, ht⟩ => .interval hs ht

theorem Writes.unique (h : Writes s a b) (h' : Writes s a' b') : a = a' ∧ b = b' := by
  by_cases hs : 0x2d ∈ s
  · obtain ⟨s, t, rfl, -⟩ := List.eq_append_cons_of_mem hs
    rw [writes_append] at h h'
    exact ⟨h.1.unique h'.1, h.2.unique h'.2⟩
  · rw [writes_of_notMem hs] at h h'
    obtain ⟨h, rfl⟩ := h
    obtain ⟨h', rfl⟩ := h'
    exact ⟨h.unique h', h.unique h'⟩

theorem splitPair_append (hs : 0x2d ∉ s) : splitPair (s ++ 0x2d :: t) = (s, some t) := by
  have hidx : (s ++ 0x2d :: t).idxOf 0x2d = s.length := by
    rw [List.idxOf_append_of_notMem hs, List.idxOf_cons_self, Nat.add_zero]
  rw [splitPair, if_pos (List.mem_append_right _ List.mem_cons_self), hidx, List.take_left,
    ← List.drop_drop, List.drop_left]
  rfl

theorem parseStringPort_eq_ok {fromPort toPort : UInt16} :
    parseStringPort getenv s = .ok (fromPort, toPort) ↔
      Reads getenv s fromPort.toNat toPort.toNat := by
  rw [parseStringPort, Reads]
  generalize (if ascii "env:" <+: s then getenv (s.drop 4) else s) = text
  by_cases htext : 0x2d ∈ text
  · obtain ⟨s, t, rfl, hs⟩ := List.eq_append_cons_of_mem htext
    rw [splitPair_append hs, writes_append, ← portFromString_eq_ok, ← portFromString_eq_ok]
    dsimp only
    cases portFromString s with
    | error e => simp
    | ok a => cases portFromString t <;> simp
  · rw [splitPair, if_neg htext, writes_of_notMem htext, ← portFromString_eq_ok]
    dsimp only
    cases portFromString text with
    | error e => simp
    | ok a =>
      rw [Except.ok.injEq, Prod.mk.injEq, Except.ok.injEq, UInt16.toNat_inj]
      exact and_congr_right fun h => by rw [h]

theorem not_env_of_digits (hs : ∀ c ∈ s, Decimal.isDigit c = true) : ¬ ascii "env:" <+: s :=
  fun h => absurd (hs _ (h.mem List.mem_cons_self)) (by decide)

theorem reads_of_isNumeral {n : ℕ} (h : IsNumeral s n) : Reads getenv s n n := by
  rw [Reads, if_neg (not_env_of_digits h.digits)]
  exact .number h

theorem Reads.unique (h : Reads getenv s a b) (h' : Reads getenv s a' b') : a = a' ∧ b = b' :=
  Writes.unique h h'

/-- The word that JSON has for nothing says no interval. -/
theorem not_reads_null : ¬ Reads getenv (ascii "null") a b := fun h => by
  rw [Reads, if_neg (by decide), writes_of_notMem (by decide)] at h
  exact absurd (h.1.digits 0x6e (by decide)) (by decide)

/-! ## The texts of a list -/

section

variable (getenv)

/-- The texts of a list, without white space around them. -/
def trimmedTexts (rangelist : List Bytes) : List Bytes :=
  (rangelist.map trimSpace).filter fun t => t.length > 0

/-- The texts between commas. -/
def texts (s : Bytes) : List Bytes := trimmedTexts (s.splitOn 0x2c)

/-- The text is one of a list: a word, or a number as JSON has it, or with a hyphen in it. -/
def IsAccepted (t : Bytes) : Prop :=
  if 0x2d ∈ t then ∃ a b, Reads getenv t a b ∧ a ≤ 65535 ∧ b ≤ 65535
  else t = ascii "null" ∨ isValidNumber t = true ∧ ∃ n ≤ 65535, IsNumeral t n

end

theorem trimmedTexts_cons (rangeStr : Bytes) (rangelist : List Bytes) :
    trimmedTexts (rangeStr :: rangelist) =
      if (trimSpace rangeStr).length > 0 then trimSpace rangeStr :: trimmedTexts rangelist
      else trimmedTexts rangelist := by
  rw [trimmedTexts, List.map_cons, List.filter_cons]
  simp only [decide_eq_true_eq]
  rfl

theorem exists_port {n : ℕ} (h : n ≤ 65535) : ∃ port : UInt16, port.toNat = n :=
  ⟨UInt16.ofNat n, UInt16.toNat_ofNat_of_lt' (show n < 2 ^ 16 by omega)⟩

/-- A text that is decoded says the range, or nothing. -/
theorem unmarshalText_eq_ok {r : PortRange} (h : PortList.unmarshalText getenv t = .ok r) :
    IsAccepted getenv t ∧ ((t = ascii "null" ∧ r = .ofPorts 0 0) ∨
      ∃ a b : UInt16, r = .ofPorts a b ∧ Reads getenv t a.toNat b.toNat) := by
  rw [PortList.unmarshalText] at h
  rw [IsAccepted]
  split at h
  · rename_i hmem
    rw [if_pos hmem]
    cases hparse : parseStringPort getenv t with
    | error e =>
      rw [hparse] at h
      cases h
    | ok pair =>
      obtain ⟨a, b⟩ := pair
      rw [hparse] at h
      cases h
      have hreads := parseStringPort_eq_ok.1 hparse
      have ha := a.toNat_lt
      have hb := b.toNat_lt
      exact ⟨⟨_, _, hreads, by omega, by omega⟩, .inr ⟨a, b, rfl, hreads⟩⟩
  · rename_i hmem
    rw [if_neg hmem]
    cases hparse : parseIntPort (textValue t) with
    | error e =>
      rw [hparse] at h
      cases h
    | ok port =>
      rw [hparse] at h
      cases h
      rw [textValue] at hparse
      split at hparse
      · rename_i hnull
        cases hparse
        exact ⟨.inl hnull, .inl ⟨hnull, rfl⟩⟩
      · split at hparse
        · rename_i hvalid
          have hs := parseIntPort_number.1 hparse
          have hport := port.toNat_lt
          exact ⟨.inr ⟨hvalid, _, by omega, hs⟩, .inr ⟨port, port, rfl, reads_of_isNumeral hs⟩⟩
        · cases hparse

theorem exists_unmarshalText (h : IsAccepted getenv t) :
    ∃ r, PortList.unmarshalText getenv t = .ok r := by
  rw [IsAccepted] at h
  rw [PortList.unmarshalText]
  split at h
  · rename_i hmem
    obtain ⟨a, b, hreads, ha, hb⟩ := h
    obtain ⟨a, rfl⟩ := exists_port ha
    obtain ⟨b, rfl⟩ := exists_port hb
    rw [if_pos hmem, parseStringPort_eq_ok.2 hreads]
    exact ⟨_, rfl⟩
  · rename_i hmem
    rw [if_neg hmem, textValue]
    obtain rfl | ⟨hvalid, n, hn, hs⟩ := h
    · exact ⟨_, rfl⟩
    · obtain ⟨port, rfl⟩ := exists_port hn
      have hnull : t ≠ ascii "null" := by
        rintro rfl
        exact absurd (hs.digits 0x6e (by decide)) (by decide)
      rw [if_neg hnull, dif_pos hvalid, parseIntPort_number.2 hs]
      exact ⟨_, rfl⟩

/-- What is decoded from texts: a range from each of them. -/
structure Decoded (getenv : Bytes → Bytes) (ts : List Bytes) (l : List PortRange) : Prop where
  range : ∀ t ∈ ts, ∃ r ∈ l, PortList.unmarshalText getenv t = .ok r
  text : ∀ r ∈ l, ∃ t ∈ ts, PortList.unmarshalText getenv t = .ok r

theorem unmarshalTexts_eq_none {list list' : PortList} {rangelist : List Bytes}
    (h : PortList.unmarshalTexts getenv list rangelist = (none, list')) :
    ∃ l, list'.range = list.range ++ l ∧
      Decoded getenv (trimmedTexts rangelist) l := by
  induction rangelist generalizing list with
  | nil =>
    cases h
    exact ⟨[], (List.append_nil _).symm, ⟨fun _ h => absurd h List.not_mem_nil,
      fun _ h => absurd h List.not_mem_nil⟩⟩
  | cons rangeStr rangelist ih =>
    rw [PortList.unmarshalTexts] at h
    rw [trimmedTexts_cons]
    split at h
    · rename_i hpos
      cases htext : PortList.unmarshalText getenv (trimSpace rangeStr) with
      | error e =>
        rw [htext] at h
        cases h
      | ok r =>
        rw [htext] at h
        obtain ⟨l, hl, hdecoded⟩ := ih h
        refine ⟨r :: l, by rw [hl, List.append_assoc]; rfl, ?_⟩
        rw [if_pos hpos]
        constructor
        · intro t ht
          rcases List.mem_cons.1 ht with rfl | ht
          · exact ⟨r, List.mem_cons_self, htext⟩
          · obtain ⟨r', hr', h⟩ := hdecoded.range t ht
            exact ⟨r', List.mem_cons_of_mem _ hr', h⟩
        · intro r' hr'
          rcases List.mem_cons.1 hr' with rfl | hr'
          · exact ⟨_, List.mem_cons_self, htext⟩
          · obtain ⟨t, ht, h⟩ := hdecoded.text r' hr'
            exact ⟨t, List.mem_cons_of_mem _ ht, h⟩
    · rename_i hzero
      rw [if_neg hzero]
      exact ih h

theorem exists_unmarshalTexts (list : PortList) {rangelist : List Bytes}
    (h : ∀ t ∈ trimmedTexts rangelist, IsAccepted getenv t) :
    ∃ list', PortList.unmarshalTexts getenv list rangelist = (none, list') := by
  induction rangelist generalizing list with
  | nil => exact ⟨list, rfl⟩
  | cons rangeStr rangelist ih =>
    rw [PortList.unmarshalTexts]
    rw [trimmedTexts_cons] at h
    split
    · rename_i hpos
      rw [if_pos hpos, List.forall_mem_cons] at h
      obtain ⟨r, hr⟩ := exists_unmarshalText h.1
      rw [hr]
      exact ih _ h.2
    · rename_i hzero
      rw [if_neg hzero] at h
      exact ih _ h

/-! ## Lawful decoders -/

/-- The ports that ranges stand for. -/
def ports (l : List PortRange) : Set UInt16 := {port | (portListFromProto l).contains port = true}

theorem mem_ports {l : List PortRange} {port : UInt16} :
    port ∈ ports l ↔ ∃ r ∈ l, r.fromPort.toUInt16 ≤ port ∧ port ≤ r.toPort.toUInt16 := by
  simp [ports, portListFromProto, MemoryPortList.contains, MemoryPortRange.contains]

/-- A decoder of ranges is lawful at a value: the ranges are in order and of ports, they stand for
    what the value says, and a number is the same ports as its digits in a string, and as the
    interval from it to itself. -/
structure Lawful (decode : JsonValue → Option (List PortRange)) (Has : JsonValue → ℕ → Prop)
    (v : JsonValue) : Prop where
  ordered : ∀ l, decode v = some l → ∀ r ∈ l, r.fromPort ≤ r.toPort ∧ r.toPort.toNat ≤ 65535
  denotes : ∀ l, decode v = some l → ∀ port, port ∈ ports l ↔ Has v port.toNat
  forms : ∀ literal valid, v = .number literal valid →
    (∀ c ∈ literal, Decimal.isDigit c = true) →
    (decode v).map ports = (decode (.string literal)).map ports ∧
      (decode v).map ports = (decode (.string (literal ++ 0x2d :: literal))).map ports

variable (getenv)

/-- The ranges that a value is decoded into. -/
def PortList.decode (v : JsonValue) : Option (List PortRange) :=
  match unmarshalJSON getenv {} v with
  | (none, list) => some list.range
  | (some _, _) => none

/-- The range that a value is decoded into. -/
def PortRange.decode (v : JsonValue) : Option (List PortRange) :=
  match unmarshalJSON getenv v with
  | .ok r => some [r]
  | .error _ => none

/-- The value has the port in a number or an interval of a list. -/
def PortList.Has : JsonValue → ℕ → Prop
  | .number literal _, n => IsNumeral literal n
  | .string s, n => ∃ t ∈ texts s, ∃ a b, Reads getenv t a b ∧ a ≤ n ∧ n ≤ b
  | _, _ => False

/-- The value has the port in its number or its interval. -/
def PortRange.Has : JsonValue → ℕ → Prop
  | .number literal _, n => IsNumeral literal n
  | .string s, n => ∃ a b, Reads getenv s a b ∧ a ≤ n ∧ n ≤ b
  | _, _ => False

/-- A list of ports is unambiguous: a number of 32 bits is a port other than zero. Of a string of
    which all texts are accepted, none says nothing, unless another has the port zero, and none
    says an interval the wrong way round. -/
def PortList.IsSound : JsonValue → Prop
  | .number literal _ => ∀ n, IsNumeral literal n → 1 ≤ n ∧ n ≤ 65535 ∨ 2 ^ 32 ≤ n
  | .string s => (∀ t ∈ texts s, IsAccepted getenv t) →
    (ascii "null" ∈ texts s → Has getenv (.string s) 0) ∧
      ∀ t ∈ texts s, ∀ a b, Reads getenv t a b → a ≤ b
  | _ => True

variable {getenv} {v : JsonValue} {l : List PortRange}

theorem PortList.decoded_of_decode {s : Bytes} (h : decode getenv (.string s) = some l) :
    Decoded getenv (texts s) l := by
  rw [decode, unmarshalJSON, JsonValue.asString] at h
  dsimp only at h
  rcases hout : unmarshalTexts getenv {} (s.splitOn 0x2c) with ⟨- | e, list'⟩ <;> rw [hout] at h
  · obtain ⟨l', hl', hdecoded⟩ := unmarshalTexts_eq_none hout
    cases h
    rw [hl']
    exact hdecoded
  · cases h

theorem PortList.exists_decode {s : Bytes} (h : ∀ t ∈ texts s, IsAccepted getenv t) :
    ∃ l, decode getenv (.string s) = some l := by
  obtain ⟨list', hout⟩ := exists_unmarshalTexts {} h
  refine ⟨list'.range, ?_⟩
  rw [decode, unmarshalJSON, JsonValue.asString]
  dsimp only
  rw [hout]

theorem ofPorts_bounds (a b port : UInt16) :
    ((PortRange.ofPorts a b).fromPort.toUInt16 ≤ port ∧
        port ≤ (PortRange.ofPorts a b).toPort.toUInt16) ↔
      a.toNat ≤ port.toNat ∧ port.toNat ≤ b.toNat := by
  rw [PortRange.ofPorts, UInt16.toUInt16_toUInt32, UInt16.toUInt16_toUInt32,
    UInt16.le_iff_toNat_le, UInt16.le_iff_toNat_le]

theorem ofPorts_ordered (a b : UInt16) :
    ((PortRange.ofPorts a b).fromPort ≤ (PortRange.ofPorts a b).toPort ∧
      (PortRange.ofPorts a b).toPort.toNat ≤ 65535) ↔ a.toNat ≤ b.toNat := by
  have hb := b.toNat_lt
  rw [PortRange.ofPorts, UInt32.le_iff_toNat_le, UInt16.toNat_toUInt32, UInt16.toNat_toUInt32]
  omega

/-- A string is decoded lawfully exactly if it is sound. -/
theorem PortList.lawful_string (s : Bytes) :
    Lawful (decode getenv) (Has getenv) (.string s) ↔ IsSound getenv (.string s) := by
  constructor
  · intro h haccepted
    obtain ⟨l, hl⟩ := exists_decode haccepted
    have hdecoded := decoded_of_decode hl
    refine ⟨fun hnull => ?_, fun t ht a b hreads => ?_⟩
    · obtain ⟨r, hr, htext⟩ := hdecoded.range _ hnull
      obtain ⟨-, ⟨-, rfl⟩ | ⟨a, b, -, hreads⟩⟩ := unmarshalText_eq_ok htext
      · refine (h.denotes l hl 0).1 (mem_ports.2 ⟨_, hr, ?_⟩)
        rw [ofPorts_bounds]
        exact ⟨le_rfl, le_rfl⟩
      · exact absurd hreads not_reads_null
    · obtain ⟨r, hr, htext⟩ := hdecoded.range t ht
      obtain ⟨-, ⟨rfl, -⟩ | ⟨a', b', rfl, hreads'⟩⟩ := unmarshalText_eq_ok htext
      · exact absurd hreads not_reads_null
      · obtain ⟨rfl, rfl⟩ := hreads.unique hreads'
        exact (ofPorts_ordered a' b').1 (h.ordered l hl _ hr)
  · intro h
    refine ⟨fun l hl r hr => ?_, fun l hl port => ?_, fun _ _ h => by cases h⟩
    all_goals
      have hdecoded := decoded_of_decode hl
      obtain ⟨hnull, hordered⟩ := h fun t ht => by
        obtain ⟨r, -, htext⟩ := hdecoded.range t ht
        exact (unmarshalText_eq_ok htext).1
    · obtain ⟨t, ht, htext⟩ := hdecoded.text r hr
      obtain ⟨-, ⟨-, rfl⟩ | ⟨a, b, rfl, hreads⟩⟩ := unmarshalText_eq_ok htext
      · exact (ofPorts_ordered 0 0).2 le_rfl
      · exact (ofPorts_ordered a b).2 (hordered t ht _ _ hreads)
    · rw [mem_ports]
      constructor
      · rintro ⟨r, hr, hport⟩
        obtain ⟨t, ht, htext⟩ := hdecoded.text r hr
        obtain ⟨-, ⟨rfl, rfl⟩ | ⟨a, b, rfl, hreads⟩⟩ := unmarshalText_eq_ok htext
        · rw [ofPorts_bounds] at hport
          have hzero : port.toNat = 0 := Nat.le_zero.1 hport.2
          rw [hzero]
          exact hnull ht
        · exact ⟨t, ht, _, _, hreads, (ofPorts_bounds a b port).1 hport⟩
      · rintro ⟨t, ht, a, b, hreads, hport⟩
        obtain ⟨r, hr, htext⟩ := hdecoded.range t ht
        obtain ⟨-, ⟨rfl, -⟩ | ⟨a', b', rfl, hreads'⟩⟩ := unmarshalText_eq_ok htext
        · exact absurd hreads not_reads_null
        · obtain ⟨rfl, rfl⟩ := hreads.unique hreads'
          exact ⟨_, hr, (ofPorts_bounds a' b' port).2 hport⟩

/-! ## Numbers and their digits -/

/-- The value is decoded into the port that the digits write, if there is one. -/
def IsForm (decode : JsonValue → Option (List PortRange)) (literal : Bytes) (v : JsonValue) :
    Prop :=
  ∀ l, decode v = some l ↔ ∃ port, l = [.ofPorts port port] ∧ IsNumeral literal port.toNat

theorem IsForm.eq {decode : JsonValue → Option (List PortRange)} {literal : Bytes}
    {v' : JsonValue} (h : IsForm decode literal v) (h' : IsForm decode literal v') :
    decode v = decode v' :=
  Option.ext fun l => (h l).trans (h' l).symm

/-- Of an interval from a number to itself, both ends are the number. -/
theorem reads_digits {literal : Bytes} (hdigits : ∀ c ∈ literal, Decimal.isDigit c = true) :
    (Reads getenv literal a b ↔ IsNumeral literal a ∧ a = b) ∧
      (Reads getenv (literal ++ 0x2d :: literal) a b ↔ IsNumeral literal a ∧ a = b) := by
  have hnot : 0x2d ∉ literal := fun h => absurd (hdigits _ h) (by decide)
  have henv : ¬ ascii "env:" <+: literal ++ 0x2d :: literal := fun h => by
    have hmem : 0x65 ∈ literal ++ 0x2d :: literal := h.mem List.mem_cons_self
    rcases List.mem_append.1 hmem with h | h
    · exact absurd (hdigits _ h) (by decide)
    · exact absurd (hdigits _ ((List.mem_cons.1 h).resolve_left (by decide))) (by decide)
  rw [Reads, Reads, if_neg (not_env_of_digits hdigits), if_neg henv, writes_of_notMem hnot,
    writes_append]
  refine ⟨Iff.rfl, ⟨fun ⟨ha, hb⟩ => ⟨ha, ha.unique hb⟩, ?_⟩⟩
  rintro ⟨h, rfl⟩
  exact ⟨h, h⟩

/-- A character of a number or of an interval. -/
def isPortChar (c : UInt8) : Bool := Decimal.isDigit c || c == 0x2d

theorem head_spaces_port : ∀ s ∈ spaces ++ spaces.map List.reverse, ∃ c, s.head? = some c ∧
    isPortChar c = false := by decide

theorem PortList.decode_single (hne : s ≠ []) (hs : ∀ c ∈ s, isPortChar c = true) :
    decode getenv (.string s) = some l ↔ ∃ r, l = [r] ∧ unmarshalText getenv s = .ok r := by
  have hcomma : 0x2c ∉ s := fun h => absurd (hs _ h) (by decide)
  rw [decode, unmarshalJSON, JsonValue.asString]
  dsimp only
  rw [List.splitOn_eq_singleton hcomma, unmarshalTexts, trimSpace_of_forall head_spaces_port hs]
  dsimp only
  rw [if_pos (List.length_pos_iff.2 hne)]
  cases unmarshalText getenv s with
  | error e => simp
  | ok r => simp [unmarshalTexts, eq_comm]

section

variable {literal : Bytes}

theorem parseStringPort_digits (hdigits : ∀ c ∈ literal, Decimal.isDigit c = true)
    {fromPort toPort : UInt16} :
    (parseStringPort getenv literal = .ok (fromPort, toPort) ↔
        IsNumeral literal fromPort.toNat ∧ fromPort = toPort) ∧
      (parseStringPort getenv (literal ++ 0x2d :: literal) = .ok (fromPort, toPort) ↔
        IsNumeral literal fromPort.toNat ∧ fromPort = toPort) := by
  obtain ⟨hliteral, hinterval⟩ := @reads_digits getenv fromPort.toNat toPort.toNat literal hdigits
  rw [UInt16.toNat_inj] at hliteral hinterval
  exact ⟨parseStringPort_eq_ok.trans hliteral, parseStringPort_eq_ok.trans hinterval⟩

/-- The digits of a number, and the interval from it to itself, are forms of it in a list. -/
theorem PortList.isForm_string (hvalid : isValidNumber literal = true)
    (hdigits : ∀ c ∈ literal, Decimal.isDigit c = true) :
    IsForm (decode getenv) literal (.string literal) ∧
      IsForm (decode getenv) literal (.string (literal ++ 0x2d :: literal)) := by
  have hne : literal ≠ [] := by
    rintro rfl
    cases hvalid
  have hnot : 0x2d ∉ literal := fun h => absurd (hdigits _ h) (by decide)
  have hnull : literal ≠ ascii "null" := by
    rintro rfl
    exact absurd (hdigits 0x6e (by decide)) (by decide)
  have hchars : ∀ c ∈ literal, isPortChar c = true := fun c hc => by
    rw [isPortChar, hdigits c hc, Bool.true_or]
  have hchars' : ∀ c ∈ literal ++ 0x2d :: literal, isPortChar c = true := fun c hc => by
    rcases List.mem_append.1 hc with h | h
    · exact hchars c h
    · rcases List.mem_cons.1 h with rfl | h
      · rfl
      · exact hchars c h
  constructor
  · intro l
    rw [decode_single hne hchars, unmarshalText, if_neg hnot, textValue, if_neg hnull,
      dif_pos hvalid]
    simp only [← @parseIntPort_number literal hvalid]
    cases parseIntPort (.number literal hvalid) with
    | error e => simp
    | ok port => simp [eq_comm]
  · intro l
    rw [decode_single (by simp) hchars', unmarshalText,
      if_pos (List.mem_append_right _ List.mem_cons_self)]
    constructor
    · rintro ⟨r, rfl, h⟩
      rcases hparse : parseStringPort getenv (literal ++ 0x2d :: literal) with e | ⟨a, b⟩ <;>
        rw [hparse] at h
      · cases h
      · cases h
        obtain ⟨ha, rfl⟩ := (parseStringPort_digits hdigits).2.1 hparse
        exact ⟨a, rfl, ha⟩
    · rintro ⟨port, rfl, h⟩
      refine ⟨_, rfl, ?_⟩
      rw [(parseStringPort_digits hdigits).2.2 ⟨h, rfl⟩]

/-- A number of 32 bits is decoded into itself, unless it is zero. -/
theorem PortList.decode_number {valid : isValidNumber literal = true} :
    decode getenv (.number literal valid) =
      (JsonValue.number literal valid).asUint32.map fun number =>
        if number ≠ 0 then [⟨number, number⟩] else [] := by
  have htexts : unmarshalTexts getenv {} [[]] = (none, {}) := rfl
  have hstring : (JsonValue.number literal valid).asString = none := rfl
  rw [decode, unmarshalJSON, hstring]
  dsimp only
  cases (JsonValue.number literal valid).asUint32 with
  | none => rfl
  | some number =>
    rw [htexts]
    dsimp only [Option.map_some]
    split <;> rfl

/-- A number that is decoded into its port is so lawfully. -/
theorem lawful_of_isForm {decode : JsonValue → Option (List PortRange)}
    {Has : JsonValue → ℕ → Prop} {valid : isValidNumber literal = true}
    (h : IsForm decode literal (.number literal valid))
    (hhas : ∀ n, Has (.number literal valid) n ↔ IsNumeral literal n)
    (hforms : (∀ c ∈ literal, Decimal.isDigit c = true) → IsForm decode literal (.string literal) ∧
      IsForm decode literal (.string (literal ++ 0x2d :: literal))) :
    Lawful decode Has (.number literal valid) := by
  refine ⟨fun l hl r hr => ?_, fun l hl port => ?_, ?_⟩
  · obtain ⟨port, rfl, -⟩ := (h l).1 hl
    obtain rfl := List.mem_singleton.1 hr
    exact (ofPorts_ordered port port).2 le_rfl
  · obtain ⟨port', rfl, hnumeral⟩ := (h l).1 hl
    rw [mem_ports, hhas]
    constructor
    · rintro ⟨r, hr, hport⟩
      obtain rfl := List.mem_singleton.1 hr
      obtain ⟨hle, hge⟩ := (ofPorts_bounds port' port' port).1 hport
      rwa [le_antisymm hge hle]
    · intro hport
      refine ⟨_, List.mem_singleton_self _, (ofPorts_bounds port' port' port).2 ?_⟩
      rw [hnumeral.unique hport]
      exact ⟨le_rfl, le_rfl⟩
  · rintro _ _ ⟨⟩ hdigits
    obtain ⟨hstring, hinterval⟩ := hforms hdigits
    exact ⟨congrArg _ (h.eq hstring), congrArg _ (h.eq hinterval)⟩

/-- A number is decoded lawfully exactly if it is a port other than zero, or has no 32 bits. -/
theorem PortList.lawful_number (valid : isValidNumber literal = true) :
    Lawful (decode getenv) (Has getenv) (.number literal valid) ↔
      IsSound getenv (.number literal valid) := by
  have hval {n : ℕ} (hn : IsNumeral literal n) (hlt : n < 2 ^ 32) :
      decode getenv (.number literal valid) =
        some (if UInt32.ofNat n ≠ 0 then [⟨UInt32.ofNat n, UInt32.ofNat n⟩] else []) := by
    have hnat : (UInt32.ofNat n).toNat = n := UInt32.toNat_ofNat_of_lt' hlt
    rw [decode_number, JsonValue.asUint32_eq_some.2 (hnat.symm ▸ hn), Option.map_some]
  constructor
  · -- A number that is not sound is zero, which denotes no port, or lies above the ports.
    intro h n hn
    by_contra hcond
    have hlt : n < 2 ^ 32 := by omega
    have hnat : (UInt32.ofNat n).toNat = n := UInt32.toNat_ofNat_of_lt' hlt
    rcases Nat.eq_zero_or_pos n with rfl | hpos
    · have hport := (h.denotes [] (hval hn hlt) 0).2 hn
      obtain ⟨r, hr, -⟩ := mem_ports.1 hport
      cases hr
    · have hne : UInt32.ofNat n ≠ 0 := fun h0 => by
        rw [h0] at hnat
        exact hpos.ne hnat
      have hdecode := hval hn hlt
      rw [if_pos hne] at hdecode
      have hle := (h.ordered _ hdecode _ List.mem_cons_self).2
      dsimp only at hle
      omega
  · intro hsound
    refine lawful_of_isForm (fun l => ?_) (fun _ => Iff.rfl) (isForm_string valid)
    rw [decode_number, Option.map_eq_some_iff]
    constructor
    · rintro ⟨number, hnumber, rfl⟩
      have hn := JsonValue.asUint32_eq_some.1 hnumber
      have hlt := number.toNat_lt
      have hcond := (hsound _ hn).resolve_right (by omega)
      obtain ⟨port, hport⟩ := exists_port hcond.2
      obtain rfl : port.toUInt32 = number := UInt32.toNat_inj.1 hport
      have hne : port.toUInt32 ≠ 0 := fun h0 => by
        rw [h0] at hcond
        exact absurd hcond.1 (by decide)
      exact ⟨port, by rw [if_pos hne]; rfl, hn⟩
    · rintro ⟨port, rfl, hn⟩
      have hlt := port.toNat_lt
      have hcond := (hsound _ hn).resolve_right (by omega)
      have hne : port.toUInt32 ≠ 0 := fun h0 => by
        have hzero : port.toUInt32.toNat = 0 := congrArg UInt32.toNat h0
        rw [UInt16.toNat_toUInt32] at hzero
        omega
      exact ⟨port.toUInt32, JsonValue.asUint32_eq_some.2 (by rwa [UInt16.toNat_toUInt32]),
        by rw [if_pos hne]; rfl⟩

theorem PortList.lawful_value_iff (v : JsonValue) :
    Lawful (decode getenv) (Has getenv) v ↔ IsSound getenv v := by
  cases v with
  | number literal valid => exact lawful_number valid
  | string s => exact lawful_string s
  | null =>
    refine iff_of_true ⟨fun l hl r hr => ?_, fun l hl port => ?_, fun _ _ h => by cases h⟩ trivial
    all_goals obtain rfl : [] = l := Option.some.inj hl
    · cases hr
    · exact iff_of_false (fun h => by obtain ⟨r, hr, -⟩ := mem_ports.1 h; cases hr) id
  | other =>
    refine iff_of_true ⟨fun l hl => ?_, fun l hl => ?_, fun _ _ h => by cases h⟩ trivial
    all_goals cases hl

/-! ## Ranges -/

theorem PortRange.decode_string {s : Bytes} : decode getenv (.string s) = some l ↔
    ∃ a b : UInt16, l = [.ofPorts a b] ∧ Reads getenv s a.toNat b.toNat ∧ a.toNat ≤ b.toNat := by
  have hint : parseIntPort (.string s) = .error unmarshalError := rfl
  rw [decode, unmarshalJSON, hint]
  dsimp only
  rw [parseJSONStringPort, JsonValue.asString]
  dsimp only
  constructor
  · intro h
    rcases hparse : parseStringPort getenv s with e | ⟨a, b⟩ <;> rw [hparse] at h
    · cases h
    · dsimp only at h
      split at h
      · rename_i r hr
        split at hr
        · cases hr
        · rename_i hle
          cases hr
          cases h
          refine ⟨a, b, rfl, parseStringPort_eq_ok.1 hparse, ?_⟩
          exact ((ofPorts_ordered a b).1 ⟨UInt32.not_lt.1 hle, by
            have := b.toNat_lt
            rw [ofPorts, UInt16.toNat_toUInt32]
            omega⟩)
      · cases h
  · rintro ⟨a, b, rfl, hreads, hle⟩
    rw [parseStringPort_eq_ok.2 hreads]
    dsimp only
    rw [if_neg (UInt32.not_lt.2 ((ofPorts_ordered a b).2 hle).1)]

theorem exists_form {P : ℕ → ℕ → Prop} (h : ∀ a b, P a b ↔ IsNumeral literal a ∧ a = b) :
    (∃ a b : UInt16, l = [.ofPorts a b] ∧ P a.toNat b.toNat ∧ a.toNat ≤ b.toNat) ↔
      ∃ port, l = [.ofPorts port port] ∧ IsNumeral literal port.toNat := by
  constructor
  · rintro ⟨a, b, rfl, hP, -⟩
    obtain ⟨ha, hab⟩ := (h _ _).1 hP
    obtain rfl := UInt16.toNat_inj.1 hab
    exact ⟨a, rfl, ha⟩
  · rintro ⟨port, rfl, hport⟩
    exact ⟨port, port, rfl, (h _ _).2 ⟨hport, rfl⟩, le_rfl⟩

theorem PortRange.isForm_string (hdigits : ∀ c ∈ literal, Decimal.isDigit c = true) :
    IsForm (decode getenv) literal (.string literal) ∧
      IsForm (decode getenv) literal (.string (literal ++ 0x2d :: literal)) :=
  ⟨fun _ => decode_string.trans (exists_form fun _ _ => (reads_digits hdigits).1),
    fun _ => decode_string.trans (exists_form fun _ _ => (reads_digits hdigits).2)⟩

theorem PortRange.isForm_number (valid : isValidNumber literal = true) :
    IsForm (decode getenv) literal (.number literal valid) := by
  intro l
  have hstring : parseJSONStringPort getenv (.number literal valid) = .error unmarshalError := rfl
  simp only [← @parseIntPort_number literal valid]
  rw [decode, unmarshalJSON, hstring]
  cases parseIntPort (.number literal valid) with
  | error e => simp
  | ok port => simp [eq_comm]

theorem PortRange.lawful_value_iff (v : JsonValue) :
    Lawful (decode getenv) (Has getenv) v ↔ v ≠ .null := by
  cases v with
  | number literal valid =>
    exact iff_of_true (lawful_of_isForm (isForm_number valid) (fun _ => Iff.rfl) isForm_string)
      JsonValue.noConfusion
  | string s =>
    refine iff_of_true ⟨fun l hl r hr => ?_, fun l hl port => ?_, fun _ _ h => by cases h⟩
      JsonValue.noConfusion
    all_goals obtain ⟨a, b, rfl, hreads, hle⟩ := decode_string.1 hl
    · obtain rfl := List.mem_singleton.1 hr
      exact (ofPorts_ordered a b).2 hle
    · rw [mem_ports]
      constructor
      · rintro ⟨r, hr, hport⟩
        obtain rfl := List.mem_singleton.1 hr
        exact ⟨_, _, hreads, (ofPorts_bounds a b port).1 hport⟩
      · rintro ⟨a', b', hreads', hport⟩
        obtain ⟨rfl, rfl⟩ := hreads'.unique hreads
        exact ⟨_, List.mem_singleton_self _, (ofPorts_bounds a b port).2 hport⟩
  | null =>
    refine iff_of_false (fun h => ?_) fun h => h rfl
    -- null is decoded into the port zero
    refine (h.denotes [.ofPorts 0 0] rfl 0).1 (mem_ports.2 ⟨_, List.mem_singleton_self _, ?_⟩)
    exact (ofPorts_bounds 0 0 0).2 ⟨le_rfl, le_rfl⟩
  | other =>
    refine iff_of_true ⟨fun l hl => ?_, fun l hl => ?_, fun _ _ h => by cases h⟩
      JsonValue.noConfusion
    all_goals cases hl

end

/-- Lists of ports are decoded lawfully exactly if they are sound, and ranges unless they are
    null. -/
theorem unmarshalJSON_lawful_iff (getenv : Bytes → Bytes) (v : JsonValue) :
    (Lawful (PortList.decode getenv) (PortList.Has getenv) v ↔ PortList.IsSound getenv v) ∧
      (Lawful (PortRange.decode getenv) (PortRange.Has getenv) v ↔ v ≠ .null) :=
  ⟨PortList.lawful_value_iff v, PortRange.lawful_value_iff v⟩

/-- A number that is no port, and an interval the wrong way round. -/
theorem not_lawful_portList :
    ¬ Lawful (PortList.decode fun _ => []) (PortList.Has fun _ => [])
        (.number (ascii "70000") (by decide)) ∧
      ¬ Lawful (PortList.decode fun _ => []) (PortList.Has fun _ => [])
        (.string (ascii "5-3")) :=
  ⟨fun h => absurd (h.ordered [⟨70000, 70000⟩] (by decide) _ List.mem_cons_self).2 (by decide),
    fun h => absurd (h.ordered [⟨5, 3⟩] (by decide) _ List.mem_cons_self).1 (by decide)⟩

end Conf

end Gzv2ray
