import Gzv2ray.Buf.Reader
import Gzv2ray.Lib.Hex

/-!
# UUIDs and their texts

The text of a UUID is five groups of digits with a dash between them. The parser takes a dash
before any group, or none, and has looked at the length of the whole text only: a group may
reach behind the end of the text, and text may be left behind the last group.

* `UUID.string`, `UUID.parseString`: the code;
* `Grouped`: texts that begin with groups of digits, which are what is parsed
  (`parseGroups_of_grouped`, `grouped_of_parseGroups`);
* `parseString_readsText_iff`: exactly which texts are parsed as they should be.
-/

namespace Gzv2ray

/-- Sixteen bytes. -/
structure UUID where
  bytes : Bytes
  length_bytes : bytes.length = 16
  deriving DecidableEq

namespace UUID

/-! ## Texts -/

def byteGroups : List ℕ := [8, 4, 4, 4, 12]

theorem length_copied (b : Bytes) : ((b ++ List.replicate 16 0).take 16).length = 16 := by
  rw [List.length_take, List.length_append, List.length_replicate]
  omega

/-- The UUID that bytes are copied into. -/
def ofBytes (b : Bytes) : UUID := ⟨(b ++ List.replicate 16 0).take 16, length_copied b⟩

def invalidUUID : Error := .new (ascii "invalid UUID: ")

def parseBytes (b : Bytes) : Outcome UUID :=
  if b.length ≠ 16 then .error invalidUUID else .ok (ofBytes b)

/-- The groups that begin at a byte, each after a dash. -/
def stringFrom (bytes : Bytes) : ℕ → List ℕ → Bytes
  | _, [] => []
  | start, byteGroup :: groups =>
    ascii "-" ++ Hex.encode ((bytes.drop start).take (byteGroup / 2)) ++
      stringFrom bytes (start + byteGroup / 2) groups

def string (u : UUID) : Bytes :=
  Hex.encode (u.bytes.take (8 / 2)) ++ stringFrom u.bytes (8 / 2) byteGroups.tail

/-- A byte as `%#U` prints it. -/
def formatByte (c : UInt8) : Bytes :=
  let upper (n : UInt8) : UInt8 := if n < 10 then 0x30 + n else 0x41 + (n - 10)
  let printed : Bytes := if c < 0x80 then [c] else [(0xc0 : UInt8) ||| (c >>> 6), (0x80 : UInt8) ||| (c &&& 0x3f)]
  let isPrint := (0x20 ≤ c ∧ c < 0x7f) ∨ (0xa1 ≤ c ∧ c ≠ 0xad)
  ascii "U+00" ++ [upper (c >>> 4), upper (c &&& 0x0f)] ++
    if isPrint then ascii " '" ++ printed ++ ascii "'" else []

/-- The text of what `hex.Decode` refuses. -/
def hexError : Hex.DecodeError → Error
  | .invalidByte c => .new (ascii "encoding/hex: invalid byte: " ++ formatByte c)
  | .length => newError "encoding/hex" "odd length hex string"

/-! ## Parsing -/

/-- A text without the dash it begins with, if it begins with one. -/
def skipDash : Bytes → Bytes
  | [] => []
  | c :: text => if c = 0x2d then text else c :: text

/-- Reads one group of digits, of a text whose slice has `spare` bytes of zero behind its end:
    the bytes they stand for, and the text behind them. -/
def readGroup (spare byteGroup : ℕ) (text : Bytes) : Outcome (Bytes × Bytes) :=
  if text = [] then .panic
  else
    let text := skipDash text
    if text.length + spare < byteGroup then .panic
    else
      match Hex.decode ((text ++ List.replicate spare 0).take byteGroup) with
      | .error e => .error (hexError e)
      | .ok b => if text.length < byteGroup then .panic else .ok (b, text.drop byteGroup)

/-- Reads a group after the other. -/
def parseGroups (spare : ℕ) : List ℕ → Bytes → Outcome Bytes
  | [], _ => .ok []
  | byteGroup :: groups, text =>
    readGroup spare byteGroup text >>= fun (b, text) => (parseGroups spare groups text).map (b ++ ·)

/-- Parses a text. A copy of it has a capacity that depends on its length. -/
def parseString (capacity : ℕ → ℕ) (str : Bytes) : Outcome UUID :=
  if str.length < 32 then .error invalidUUID
  else (parseGroups (capacity str.length - str.length) byteGroups str).map ofBytes

/-! ## Texts that begin with groups of digits -/

/-- A text that begins with groups of so many digits, some after a dash: the digits, and what is
    left behind them. -/
inductive Grouped : List ℕ → Bytes → Bytes → Bytes → Prop
  | nil (rest : Bytes) : Grouped [] rest [] rest
  | cons {groups : List ℕ} {text digits rest dash group : Bytes} (hdash : dash = [] ∨ dash = [0x2d])
    (hgroup : ∀ c ∈ group, Hex.IsDigit c) (h : Grouped groups text digits rest) :
    Grouped (group.length :: groups) (dash ++ (group ++ text)) (group ++ digits) rest

theorem not_isDigit_dash : ¬ Hex.IsDigit 0x2d := by decide

/-- A dash is skipped, and a digit is not. -/
theorem skipDash_append {dash group text : Bytes} (hdash : dash = [] ∨ dash = [0x2d])
    (hgroup : ∀ c ∈ group, Hex.IsDigit c) (hpos : 0 < group.length) :
    skipDash (dash ++ (group ++ text)) = group ++ text := by
  rcases hdash with rfl | rfl
  · cases group with
    | nil => exact absurd hpos (lt_irrefl 0)
    | cons c group =>
      have hc : c ≠ 0x2d := fun h => not_isDigit_dash (h ▸ hgroup c List.mem_cons_self)
      rw [List.nil_append, List.cons_append, skipDash, if_neg hc]
  · rfl

/-- A text is a dash or none, and what follows it. -/
theorem exists_dash (text : Bytes) : ∃ dash, (dash = [] ∨ dash = [0x2d]) ∧ text = dash ++ skipDash text := by
  cases text with
  | nil => exact ⟨[], .inl rfl, rfl⟩
  | cons c text =>
    by_cases hc : c = 0x2d
    · exact ⟨[0x2d], .inr rfl, by rw [skipDash, if_pos hc, hc]; rfl⟩
    · exact ⟨[], .inl rfl, by rw [skipDash, if_neg hc]; rfl⟩

theorem length_le_skipDash (text : Bytes) : text.length ≤ (skipDash text).length + 1 := by
  obtain ⟨dash, hdash, htext⟩ := exists_dash text
  have hlen : dash.length ≤ 1 := by rcases hdash with rfl | rfl <;> decide
  have := congrArg List.length htext
  rw [List.length_append] at this
  omega

/-! ### One group -/

variable {spare byteGroup : ℕ} {text : Bytes}

/-- A group of an even number of digits is read. -/
theorem readGroup_ok (spare : ℕ) {dash group text : Bytes} (hdash : dash = [] ∨ dash = [0x2d])
    (hgroup : ∀ c ∈ group, Hex.IsDigit c) (hpos : 0 < group.length) (heven : Even group.length) :
    ∃ b, Hex.nibbles b = group.map Hex.value ∧
      readGroup spare group.length (dash ++ (group ++ text)) = .ok (b, text) := by
  obtain ⟨n, hn⟩ := heven
  obtain ⟨b, hb⟩ := Hex.decode_ok (hn.trans (two_mul n).symm) hgroup
  refine ⟨b, (Hex.decode_eq_ok hb).2, ?_⟩
  have hne : dash ++ (group ++ text) ≠ [] := by
    intro h
    rw [List.append_eq_nil_iff, List.append_eq_nil_iff] at h
    rw [h.2.1] at hpos
    exact lt_irrefl 0 hpos
  have hlen : group.length ≤ (group ++ text).length := by rw [List.length_append]; omega
  rw [readGroup, if_neg hne]
  dsimp only
  rw [skipDash_append hdash hgroup hpos, if_neg (by omega), List.append_assoc, List.take_left' rfl, hb]
  dsimp only
  rw [if_neg (by omega), List.drop_left' rfl]

/-- What is read is a group of digits: the zeros behind the end of the text are none. -/
theorem readGroup_eq_ok {b rest : Bytes} (h : readGroup spare byteGroup text = .ok (b, rest)) :
    ∃ dash group, (dash = [] ∨ dash = [0x2d]) ∧ (∀ c ∈ group, Hex.IsDigit c) ∧
      group.length = byteGroup ∧ text = dash ++ (group ++ rest) ∧
      Hex.nibbles b = group.map Hex.value := by
  obtain ⟨dash, hdash, htext⟩ := exists_dash text
  unfold readGroup at h
  split at h
  · cases h
  dsimp only at h
  split at h
  · cases h
  split at h
  · cases h
  rename_i b' hb
  split at h
  · cases h
  rename_i hlen
  cases h
  obtain ⟨hdigits, hnibbles⟩ := Hex.decode_eq_ok hb
  rw [List.take_append_of_le_length (by omega)] at hdigits hnibbles
  refine ⟨dash, (skipDash text).take byteGroup, hdash, hdigits, ?_, ?_, hnibbles⟩
  · rw [List.length_take]
    omega
  · rw [List.take_append_drop]
    exact htext

/-- Reading panics when the group reaches behind the capacity, or when there is no text. -/
theorem readGroup_eq_panic :
    readGroup spare byteGroup text = .panic ↔
      text = [] ∨ (skipDash text).length + spare < byteGroup := by
  unfold readGroup
  split
  · rename_i hnil
    exact iff_of_true rfl (.inl hnil)
  rename_i hne
  dsimp only
  split
  · rename_i hlt
    exact iff_of_true rfl (.inr hlt)
  rename_i hge
  refine iff_of_false ?_ (not_or.2 ⟨hne, hge⟩)
  split
  · exact nofun
  rename_i b hb
  -- A group that ends behind the text has a zero in it, which is no digit.
  have hlen : ¬ (skipDash text).length < byteGroup := by
    intro hlt
    refine Hex.not_isDigit_zero ((Hex.decode_eq_ok hb).1 0 ?_)
    rw [List.take_append, List.mem_append, List.take_replicate, List.mem_replicate]
    exact .inr ⟨by omega, rfl⟩
  rw [if_neg hlen]
  exact nofun

/-! ### All groups -/

/-- The groups a text begins with are read, and then those that follow. -/
theorem parseGroups_of_grouped (spare : ℕ) {groups : List ℕ} {digits rest : Bytes}
    (h : Grouped groups text digits rest) (hgroups : ∀ n ∈ groups, 0 < n ∧ Even n) :
    ∃ b, Hex.nibbles b = digits.map Hex.value ∧
      ∀ more, parseGroups spare (groups ++ more) text = (parseGroups spare more rest).map (b ++ ·) := by
  induction h with
  | nil rest =>
    refine ⟨[], rfl, fun more => ?_⟩
    rw [List.nil_append]
    rcases parseGroups spare more rest with _ | _ | _ <;> rfl
  | cons hdash hgroup h ih =>
    rename_i groups text digits rest dash group
    obtain ⟨hpos, heven⟩ := hgroups group.length List.mem_cons_self
    obtain ⟨b₁, hb₁, hread⟩ := readGroup_ok spare hdash hgroup hpos heven
    obtain ⟨b₂, hb₂, hparse⟩ := ih fun n hn => hgroups n (List.mem_cons_of_mem _ hn)
    refine ⟨b₁ ++ b₂, by rw [Hex.nibbles_append, hb₁, hb₂, List.map_append], fun more => ?_⟩
    rw [List.cons_append, parseGroups, hread, Outcome.bind_ok]
    dsimp only
    rw [hparse]
    rcases parseGroups spare more rest with b | e | -
    · exact congrArg Outcome.ok (List.append_assoc b₁ b₂ b).symm
    · rfl
    · rfl

/-- What is read are the groups a text begins with. -/
theorem grouped_of_parseGroups {groups : List ℕ} {b : Bytes}
    (h : parseGroups spare groups text = .ok b) :
    ∃ digits rest, Grouped groups text digits rest ∧ Hex.nibbles b = digits.map Hex.value := by
  induction groups generalizing text b with
  | nil =>
    cases h
    exact ⟨[], text, .nil text, rfl⟩
  | cons byteGroup groups ih =>
    rw [parseGroups] at h
    rcases hread : readGroup spare byteGroup text with ⟨b₁, rest⟩ | e | -
    · rw [hread, Outcome.bind_ok] at h
      obtain ⟨b₂, hparse, hb⟩ := Outcome.map_eq_ok.1 h
      obtain ⟨dash, group, hdash, hgroup, rfl, rfl, hb₁⟩ := readGroup_eq_ok hread
      obtain ⟨digits, rest', hgrouped, hb₂⟩ := ih hparse
      refine ⟨group ++ digits, rest', .cons hdash hgroup hgrouped, ?_⟩
      rw [← hb, Hex.nibbles_append, hb₁, hb₂, List.map_append]
    · rw [hread] at h
      cases h
    · rw [hread] at h
      cases h

/-- Parsing panics at one of the groups, behind those that were read. -/
theorem parseGroups_eq_panic {groups : List ℕ} (h : parseGroups spare groups text = .panic) :
    ∃ done byteGroup more digits rest, groups = done ++ byteGroup :: more ∧
      Grouped done text digits rest ∧ readGroup spare byteGroup rest = .panic := by
  induction groups generalizing text with
  | nil => cases h
  | cons byteGroup groups ih =>
    rw [parseGroups] at h
    rcases hread : readGroup spare byteGroup text with ⟨b₁, rest⟩ | e | -
    · rw [hread, Outcome.bind_ok] at h
      obtain ⟨dash, group, hdash, hgroup, rfl, rfl, -⟩ := readGroup_eq_ok hread
      have hpanic : parseGroups spare groups rest = .panic := by
        dsimp only at h
        rcases hparse : parseGroups spare groups rest with _ | _ | _
        · rw [hparse] at h; cases h
        · rw [hparse] at h; cases h
        · rfl
      obtain ⟨done, byteGroup, more, digits, rest', rfl, hgrouped, hstop⟩ := ih hpanic
      exact ⟨group.length :: done, byteGroup, more, group ++ digits, rest', rfl,
        .cons hdash hgroup hgrouped, hstop⟩
    · rw [hread] at h
      cases h
    · exact ⟨[], byteGroup, groups, [], text, rfl, .nil text, hread⟩

/-! ## What the groups say of the text -/

/-- The digits of the groups and at most one dash for each are what is read of a text. -/
theorem Grouped.length {groups : List ℕ} {digits rest : Bytes} (h : Grouped groups text digits rest) :
    digits.length = groups.sum ∧ digits.length + rest.length ≤ text.length ∧
      text.length ≤ digits.length + groups.length + rest.length := by
  induction h with
  | nil rest => simp
  | cons hdash hgroup h ih =>
    rename_i dash group
    have hlen : dash.length ≤ 1 := by rcases hdash with rfl | rfl <;> decide
    simp only [List.length_append, List.sum_cons, List.length_cons]
    omega

/-- Without its dashes, a text is the digits of the groups and what is left behind them. -/
theorem Grouped.filter {groups : List ℕ} {digits rest : Bytes} (h : Grouped groups text digits rest) :
    text.filter (· ≠ 0x2d) = digits ++ rest.filter (· ≠ 0x2d) := by
  induction h with
  | nil rest => rfl
  | cons hdash hgroup h ih =>
    rename_i dash group
    have hnone : dash.filter (· ≠ 0x2d) = [] := by rcases hdash with rfl | rfl <;> rfl
    have hall : group.filter (· ≠ 0x2d) = group := by
      rw [List.filter_eq_self]
      intro c hc
      exact decide_eq_true fun h => not_isDigit_dash (h ▸ hgroup c hc)
    rw [List.filter_append, List.filter_append, hnone, hall, ih, List.nil_append, List.append_assoc]

theorem byteGroups_even : ∀ n ∈ byteGroups, 0 < n ∧ Even n := by decide

/-- The bytes that five groups stand for are a UUID. -/
theorem ofBytes_of_nibbles {b digits : Bytes} (hlen : digits.length = 32)
    (hb : Hex.nibbles b = digits.map Hex.value) : (ofBytes b).bytes = b := by
  have := congrArg List.length hb
  rw [Hex.length_nibbles, List.length_map, hlen] at this
  exact List.take_left' (by omega)

/-- A text that begins with five groups of digits is parsed as the UUID they stand for. -/
theorem parseString_of_grouped (capacity : ℕ → ℕ) {str digits rest : Bytes}
    (h : Grouped byteGroups str digits rest) :
    ∃ u, parseString capacity str = .ok u ∧ Hex.nibbles u.bytes = digits.map Hex.value := by
  obtain ⟨b, hb, hparse⟩ := parseGroups_of_grouped (capacity str.length - str.length) h byteGroups_even
  obtain ⟨hdigits, hlen, -⟩ := h.length
  have hsum : byteGroups.sum = 32 := rfl
  have hparse := hparse []
  rw [List.append_nil] at hparse
  refine ⟨ofBytes b, ?_, by rw [ofBytes_of_nibbles (hdigits.trans hsum) hb, hb]⟩
  rw [parseString, if_neg (by omega), hparse, parseGroups, Outcome.map, Outcome.map, List.append_nil]

/-- An accepted text begins with five groups of digits. -/
theorem grouped_of_parseString {capacity : ℕ → ℕ} {str : Bytes} {u : UUID}
    (h : parseString capacity str = .ok u) :
    ∃ digits rest, Grouped byteGroups str digits rest ∧ Hex.nibbles u.bytes = digits.map Hex.value := by
  unfold parseString at h
  split at h
  · cases h
  obtain ⟨b, hb, rfl⟩ := Outcome.map_eq_ok.1 h
  obtain ⟨digits, rest, hgrouped, hnibbles⟩ := grouped_of_parseGroups hb
  refine ⟨digits, rest, hgrouped, ?_⟩
  rw [ofBytes_of_nibbles hgrouped.length.1 hnibbles, hnibbles]

/-- A text makes the parser panic when the last group, behind the four others and their dashes,
    reaches behind the capacity of its copy. -/
theorem parseString_eq_panic {capacity : ℕ → ℕ} {str : Bytes} :
    parseString capacity str = .panic ↔ 32 ≤ str.length ∧ ∃ digits rest,
      Grouped [8, 4, 4, 4] str digits rest ∧
        (skipDash rest).length + (capacity str.length - str.length) < 12 := by
  constructor
  · intro h
    unfold parseString at h
    split at h
    · cases h
    rename_i hlen
    have hpanic : parseGroups (capacity str.length - str.length) byteGroups str = .panic := by
      rcases hparse : parseGroups (capacity str.length - str.length) byteGroups str with _ | _ | _
      · rw [hparse] at h; cases h
      · rw [hparse] at h; cases h
      · rfl
    obtain ⟨done, byteGroup, more, digits, rest, hgroups, hgrouped, hstop⟩ := parseGroups_eq_panic hpanic
    obtain ⟨hdigits, -, hle⟩ := hgrouped.length
    have hskip := length_le_skipDash rest
    have hsum := congrArg List.sum hgroups
    have hcount := congrArg List.length hgroups
    simp only [byteGroups, List.sum_append, List.sum_cons, List.sum_nil, List.length_append,
      List.length_cons, List.length_nil] at hsum hcount
    refine ⟨by omega, ?_⟩
    rcases List.eq_nil_or_concat' more with rfl | ⟨init, last, rfl⟩
    · have hdone := congrArg List.dropLast hgroups
      have hlast := congrArg List.getLast? hgroups
      rw [List.dropLast_concat] at hdone
      rw [List.getLast?_concat] at hlast
      obtain rfl : [8, 4, 4, 4] = done := hdone
      obtain rfl : 12 = byteGroup := Option.some.inj hlast
      refine ⟨digits, rest, hgrouped, (readGroup_eq_panic.1 hstop).resolve_left ?_⟩
      rintro rfl
      simp only [List.sum_cons, List.sum_nil, List.length_cons, List.length_nil] at hdigits hle
      omega
    · -- A group with the last one still to come ends within the 32 bytes there are.
      have hlast := congrArg List.getLast? hgroups
      rw [← List.cons_append, ← List.append_assoc, List.getLast?_concat] at hlast
      obtain rfl : 12 = last := Option.some.inj hlast
      rw [List.sum_append, List.sum_singleton] at hsum
      rw [List.length_append, List.length_singleton] at hcount
      exfalso
      rcases readGroup_eq_panic.1 hstop with rfl | hlt
      · rw [List.length_nil] at hle
        omega
      · omega
  · rintro ⟨hlen, digits, rest, hgrouped, hlt⟩
    obtain ⟨b, -, hparse⟩ := parseGroups_of_grouped (capacity str.length - str.length) hgrouped (by decide)
    have hstop : readGroup (capacity str.length - str.length) 12 rest = .panic :=
      readGroup_eq_panic.2 (.inr hlt)
    rw [parseString, if_neg (by omega), byteGroups,
      show [8, 4, 4, 4, 12] = [8, 4, 4, 4] ++ [12] from rfl, hparse, parseGroups, hstop]
    rfl

/-! ## The codec -/

/-- The digits of bytes are a group. -/
theorem Grouped.encode {groups : List ℕ} {digits rest dash : Bytes} (h : Grouped groups text digits rest)
    (hdash : dash = [] ∨ dash = [0x2d]) {b : Bytes} {n : ℕ} (hlen : 2 * b.length = n) :
    Grouped (n :: groups) (dash ++ (Hex.encode b ++ text)) (Hex.encode b ++ digits) rest := by
  have hcons := h.cons hdash fun c (hc : c ∈ Hex.encode b) => Hex.isDigit_of_mem_encode hc
  rwa [Hex.length_encode, hlen] at hcons

/-- The text of the bytes from one on is their groups of digits. -/
theorem grouped_stringFrom (bytes : Bytes) (start : ℕ) {groups : List ℕ}
    (hgroups : ∀ n ∈ groups, Even n) (hlen : 2 * bytes.length = 2 * start + groups.sum) :
    Grouped groups (stringFrom bytes start groups) (Hex.encode (bytes.drop start)) [] := by
  induction groups generalizing start with
  | nil =>
    rw [List.sum_nil] at hlen
    rw [List.drop_eq_nil_of_le (by omega)]
    exact .nil []
  | cons n groups ih =>
    obtain ⟨k, hk⟩ := hgroups n List.mem_cons_self
    rw [List.sum_cons] at hlen
    have hrest := ih (start + n / 2) (fun m hm => hgroups m (List.mem_cons_of_mem _ hm)) (by omega)
    have hgroup : 2 * ((bytes.drop start).take (n / 2)).length = n := by
      rw [List.length_take, List.length_drop]
      omega
    have hcons := hrest.encode (.inr rfl) hgroup
    rwa [← Hex.encode_append, ← List.drop_drop, List.take_append_drop, ← List.append_assoc] at hcons

theorem grouped_string (u : UUID) : Grouped byteGroups u.string (Hex.encode u.bytes) [] := by
  have hlen := u.length_bytes
  have hrest : Grouped [4, 4, 4, 12] (stringFrom u.bytes 4 [4, 4, 4, 12])
      (Hex.encode (u.bytes.drop 4)) [] := grouped_stringFrom u.bytes 4 (by decide) (by rw [hlen]; rfl)
  have hgroup : 2 * (u.bytes.take 4).length = 8 := by
    rw [List.length_take, hlen]
    rfl
  have hcons := hrest.encode (.inl rfl) hgroup
  rwa [← Hex.encode_append, List.take_append_drop] at hcons

/-- The text of a UUID is parsed as it. -/
theorem parse_string (capacity : ℕ → ℕ) (u : UUID) : parseString capacity u.string = .ok u := by
  obtain ⟨u', hparse, hnibbles⟩ := parseString_of_grouped capacity (grouped_string u)
  rw [Hex.map_value_encode] at hnibbles
  rw [hparse]
  cases u
  cases u'
  cases Hex.nibbles_injective hnibbles
  rfl

/-- A text that is parsed without a panic, as a UUID of its digits only. -/
structure ReadsText (capacity : ℕ → ℕ) (str : Bytes) : Prop where
  returns : parseString capacity str ≠ .panic
  digits : ∀ u, parseString capacity str = .ok u → 32 ≤ str.length → str.length ≤ 36 →
    (str.filter (· ≠ 0x2d)).map Hex.value = Hex.nibbles u.bytes

/-- A text that has room for a fifth group if it begins with four groups of digits, and nothing
    but dashes behind five groups if it has at most 36 characters. -/
structure Readable (capacity : ℕ → ℕ) (str : Bytes) : Prop where
  room : 32 ≤ str.length → ∀ digits rest, Grouped [8, 4, 4, 4] str digits rest →
    12 ≤ (skipDash rest).length + (capacity str.length - str.length)
  ends : str.length ≤ 36 → ∀ digits rest, Grouped byteGroups str digits rest → ∀ c ∈ rest, c = 0x2d

/-- Without its dashes, an accepted text has the digits of the UUID if and only if dashes are all
    that is left behind the groups. -/
theorem digits_eq_iff {str digits rest : Bytes} {u : UUID} (h : Grouped byteGroups str digits rest)
    (hu : Hex.nibbles u.bytes = digits.map Hex.value) :
    (str.filter (· ≠ 0x2d)).map Hex.value = Hex.nibbles u.bytes ↔ ∀ c ∈ rest, c = 0x2d := by
  rw [h.filter, hu, List.map_append]
  constructor
  · intro heq
    have hnil := List.map_eq_nil_iff.1 (List.append_right_eq_self.1 heq)
    intro c hc
    by_contra hne
    exact List.filter_eq_nil_iff.1 hnil c hc (decide_eq_true hne)
  · intro hall
    rw [List.filter_eq_nil_iff.2 fun c hc => by simp [hall c hc], List.map_nil, List.append_nil]

/-- The text of every UUID is parsed as it, and a text is parsed as it should be if and only if
    it is readable. -/
theorem parseString_readsText_iff (capacity : ℕ → ℕ) :
    (∀ u : UUID, parseString capacity u.string = .ok u) ∧
      ∀ str, ReadsText capacity str ↔ Readable capacity str := by
  refine ⟨parse_string capacity, fun str => ⟨fun h => ⟨?_, ?_⟩, fun h => ⟨?_, ?_⟩⟩⟩
  · intro hlen digits rest hgrouped
    by_contra hroom
    exact h.returns (parseString_eq_panic.2 ⟨hlen, digits, rest, hgrouped, not_le.1 hroom⟩)
  · intro hle digits rest hgrouped
    obtain ⟨u, hparse, hu⟩ := parseString_of_grouped capacity hgrouped
    have hlen : 32 ≤ str.length := by
      obtain ⟨hdigits, hlen, -⟩ := hgrouped.length
      have hsum : byteGroups.sum = 32 := rfl
      omega
    exact (digits_eq_iff hgrouped hu).1 (h.digits u hparse hlen hle)
  · intro hpanic
    obtain ⟨hlen, digits, rest, hgrouped, hlt⟩ := parseString_eq_panic.1 hpanic
    have := h.room hlen digits rest hgrouped
    omega
  · intro u hparse _ hle
    obtain ⟨digits, rest, hgrouped, hu⟩ := grouped_of_parseString hparse
    exact (digits_eq_iff hgrouped hu).2 (h.ends hle digits rest hgrouped)

/-- The capacity of the copy of a short string: a buffer of 32 bytes, or a multiple of sixteen. -/
def copyCapacity (n : ℕ) : ℕ := if n ≤ 32 then 32 else (n + 15) / 16 * 16

/-- A text of 32 characters with a dash in front panics, and text behind the digits is left out. -/
theorem not_readsText :
    parseString copyCapacity (ascii "-0000000000000000000000000000000") = .panic ∧
      (∃ u, parseString copyCapacity (ascii "00000000000000000000000000000000ffff") = .ok u ∧
        (ascii "00000000000000000000000000000000ffff").length = 36 ∧
        ((ascii "00000000000000000000000000000000ffff").filter (· ≠ 0x2d)).map Hex.value ≠
          Hex.nibbles u.bytes) ∧
      ¬ ReadsText copyCapacity (ascii "-0000000000000000000000000000000") ∧
      ¬ ReadsText copyCapacity (ascii "00000000000000000000000000000000ffff") := by
  have hpanic : parseString copyCapacity (ascii "-0000000000000000000000000000000") = .panic := by decide
  have hok : parseString copyCapacity (ascii "00000000000000000000000000000000ffff") =
      .ok (ofBytes []) := by decide
  have hne : ((ascii "00000000000000000000000000000000ffff").filter (· ≠ 0x2d)).map Hex.value ≠
      Hex.nibbles (ofBytes []).bytes := by decide
  exact ⟨hpanic, ⟨_, hok, by decide, hne⟩, fun h => h.returns hpanic,
    fun h => hne (h.digits _ hok (by decide) (by decide))⟩

end UUID

end Gzv2ray
