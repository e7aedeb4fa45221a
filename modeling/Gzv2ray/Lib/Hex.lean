import Mathlib.Tactic

/-!
# Hexadecimal digits

Bytes as two digits each, in lower case when they are written and in any case when they are
read. What was written is read back (`decode_encode`), and what is read stands for its digits
(`decode_eq_ok`, `nibbles`).
-/

namespace Hex

/-! ## Digits -/

/-- The digit of a number below sixteen. -/
def digit (n : UInt8) : UInt8 := if n < 10 then 0x30 + n else 0x61 + (n - 10)

/-- The number a digit stands for, 255 for what is not a digit. -/
def value (c : UInt8) : UInt8 :=
  if 0x30 ≤ c ∧ c ≤ 0x39 then c - 0x30
  else if 0x61 ≤ c ∧ c ≤ 0x66 then c - 0x61 + 10
  else if 0x41 ≤ c ∧ c ≤ 0x46 then c - 0x41 + 10
  else 0xff

def IsDigit (c : UInt8) : Prop := value c ≤ 0x0f

instance : DecidablePred IsDigit := fun c => inferInstanceAs (Decidable (value c ≤ 0x0f))

/-- What holds of all numbers below 256 holds of all bytes. -/
theorem forall_byte {p : UInt8 → Prop} (h : ∀ n : Fin 256, p (.ofFin n)) (b : UInt8) : p b :=
  h b.toFin

/-- What holds of all numbers below sixteen holds of all that digits stand for. -/
theorem forall_nibble {p : UInt8 → Prop} (h : ∀ n : Fin 16, p (.ofNat n)) (b : UInt8) (hb : b ≤ 0x0f) :
    p b := by
  have hlt : b.toNat < 16 := Nat.lt_succ_of_le (UInt8.le_iff_toNat_le.1 hb)
  have := h ⟨b.toNat, hlt⟩
  rwa [UInt8.ofNat_toNat] at this

theorem not_isDigit_zero : ¬ IsDigit 0 := by decide

/-- The two numbers below sixteen that a byte is made of. -/
def nibbles (b : List UInt8) : List UInt8 := b.flatMap fun (v : UInt8) => [v >>> 4, v &&& 0x0f]

@[simp] theorem nibbles_nil : nibbles [] = [] := rfl

@[simp] theorem nibbles_cons (v : UInt8) (b : List UInt8) :
    nibbles (v :: b) = (v >>> 4) :: (v &&& 0x0f) :: nibbles b := rfl

theorem nibbles_append (a b : List UInt8) : nibbles (a ++ b) = nibbles a ++ nibbles b :=
  List.flatMap_append

@[simp] theorem length_nibbles (b : List UInt8) : (nibbles b).length = 2 * b.length := by
  induction b with
  | nil => rfl
  | cons v b ih => rw [nibbles_cons, List.length_cons, List.length_cons, ih, List.length_cons]; ring

theorem join_nibbles : ∀ v : UInt8, (v >>> 4) <<< 4 ||| v &&& 0x0f = v :=
  forall_byte (by decide +kernel)

/-- Bytes are known by their halves. -/
theorem nibbles_injective : Function.Injective nibbles := by
  intro a b h
  induction a generalizing b with
  | nil => cases b with
    | nil => rfl
    | cons w b => cases h
  | cons v a ih => cases b with
    | nil => cases h
    | cons w b =>
      rw [nibbles_cons, nibbles_cons, List.cons.injEq, List.cons.injEq] at h
      obtain ⟨hhigh, hlow, hrest⟩ := h
      rw [← join_nibbles v, hhigh, hlow, join_nibbles, ih hrest]

theorem join_shiftRight : ∀ a ≤ (0x0f : UInt8), ∀ b ≤ (0x0f : UInt8), (a <<< 4 ||| b) >>> 4 = a :=
  forall_nibble fun a => forall_nibble fun b => by revert a b; decide

theorem join_and : ∀ a ≤ (0x0f : UInt8), ∀ b ≤ (0x0f : UInt8), (a <<< 4 ||| b) &&& 0x0f = b :=
  forall_nibble fun a => forall_nibble fun b => by revert a b; decide

theorem value_digit : ∀ n ≤ (0x0f : UInt8), value (digit n) = n := forall_nibble (by decide)

theorem nibbles_le : ∀ v : UInt8, v >>> 4 ≤ 0x0f ∧ v &&& 0x0f ≤ 0x0f :=
  forall_byte (by decide +kernel)

/-! ## Texts -/

/-- Two digits for each byte. -/
def encode (b : List UInt8) : List UInt8 := b.flatMap fun (v : UInt8) => [digit (v >>> 4), digit (v &&& 0x0f)]

/-- What a text of digits is refused for. -/
inductive DecodeError
  | invalidByte (c : UInt8)
  | length
  deriving DecidableEq

/-- The bytes that a text of digits stands for. -/
def decode : List UInt8 → Except DecodeError (List UInt8)
  | [] => .ok []
  | [p] => if value p > 0x0f then .error (.invalidByte p) else .error .length
  | p :: q :: src =>
    if value p > 0x0f then .error (.invalidByte p)
    else if value q > 0x0f then .error (.invalidByte q)
    else (decode src).map fun b => (value p <<< 4 ||| value q) :: b

theorem encode_cons (v : UInt8) (b : List UInt8) :
    encode (v :: b) = digit (v >>> 4) :: digit (v &&& 0x0f) :: encode b := rfl

theorem encode_append (a b : List UInt8) : encode (a ++ b) = encode a ++ encode b :=
  List.flatMap_append

@[simp] theorem length_encode (b : List UInt8) : (encode b).length = 2 * b.length := by
  induction b with
  | nil => rfl
  | cons v b ih => rw [encode_cons, List.length_cons, List.length_cons, ih, List.length_cons]; ring

theorem isDigit_of_mem_encode {b : List UInt8} {c : UInt8} (h : c ∈ encode b) : IsDigit c := by
  obtain ⟨v, -, hc⟩ := List.mem_flatMap.1 h
  obtain ⟨hhigh, hlow⟩ := nibbles_le v
  rw [IsDigit]
  rcases List.mem_pair.1 hc with rfl | rfl
  · rwa [value_digit _ hhigh]
  · rwa [value_digit _ hlow]

/-- The text of bytes is read back. -/
theorem decode_encode (b : List UInt8) : decode (encode b) = .ok b := by
  induction b with
  | nil => rfl
  | cons v b ih =>
    obtain ⟨hhigh, hlow⟩ := nibbles_le v
    rw [encode_cons, decode, value_digit _ hhigh, value_digit _ hlow,
      if_neg (UInt8.not_lt.2 hhigh), if_neg (UInt8.not_lt.2 hlow), ih, Except.map, join_nibbles]

/-- What a text of digits is read as is made of the numbers its digits stand for. -/
theorem decode_eq_ok {src b : List UInt8} (h : decode src = .ok b) :
    (∀ c ∈ src, IsDigit c) ∧ nibbles b = src.map value := by
  induction src using decode.induct generalizing b with
  | case1 =>
    cases h
    exact ⟨nofun, rfl⟩
  | case2 p hp => rw [decode, if_pos hp] at h; cases h
  | case3 p hp => rw [decode, if_neg hp] at h; cases h
  | case4 p q src hp => rw [decode, if_pos hp] at h; cases h
  | case5 p q src hp hq => rw [decode, if_neg hp, if_pos hq] at h; cases h
  | case6 p q src hp hq ih =>
    rw [decode, if_neg hp, if_neg hq] at h
    cases hsrc : decode src with
    | error e => rw [hsrc] at h; cases h
    | ok b' =>
      rw [hsrc] at h
      cases h
      have hp : IsDigit p := UInt8.not_lt.1 hp
      have hq : IsDigit q := UInt8.not_lt.1 hq
      obtain ⟨hdigits, hnibbles⟩ := ih hsrc
      refine ⟨?_, ?_⟩
      · intro c hc
        rcases List.mem_cons.1 hc with rfl | hc
        · exact hp
        · rcases List.mem_cons.1 hc with rfl | hc
          · exact hq
          · exact hdigits c hc
      · rw [nibbles_cons, join_shiftRight _ hp _ hq, join_and _ hp _ hq, hnibbles, List.map_cons,
          List.map_cons]

theorem map_value_encode (b : List UInt8) : (encode b).map value = nibbles b :=
  (decode_eq_ok (decode_encode b)).2.symm

/-- A text of so many pairs of digits is read. -/
theorem decode_ok {src : List UInt8} {n : ℕ} (hlen : src.length = 2 * n)
    (hdigits : ∀ c ∈ src, IsDigit c) : ∃ b, decode src = .ok b := by
  induction n generalizing src with
  | zero => exact ⟨[], by rw [List.length_eq_zero_iff.1 hlen, decode]⟩
  | succ n ih =>
    match src, hlen with
    | p :: q :: src, hlen =>
      have hp : ¬ value p > 0x0f := UInt8.not_lt.2 (hdigits p List.mem_cons_self)
      have hq : ¬ value q > 0x0f := UInt8.not_lt.2 (hdigits q (by simp))
      have hsrc : src.length = 2 * n := by
        simp only [List.length_cons] at hlen
        omega
      obtain ⟨b, hb⟩ := ih hsrc fun c hc => hdigits c (by simp [hc])
      exact ⟨(value p <<< 4 ||| value q) :: b, by rw [decode, if_neg hp, if_neg hq, hb, Except.map]⟩

end Hex
