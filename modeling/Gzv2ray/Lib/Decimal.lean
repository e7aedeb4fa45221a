import Mathlib.Tactic

/-!
# Decimal numerals

A numeral is a list of digits that is not empty (`IsNumeral`). A number with digits written behind
it (`extend`) is no less than it, so a reader may stop once a number is too large (`le_extend`).
-/

namespace Gzv2ray.Decimal

def isDigit (c : UInt8) : Bool := 0x30 ≤ c && c ≤ 0x39

/-- What a digit counts. -/
def digit (c : UInt8) : ℕ := c.toNat - 0x30

/-- The number with digits written behind it. -/
def extend : List UInt8 → ℕ → ℕ
  | [], n => n
  | c :: s, n => extend s (n * 10 + digit c)

theorem le_extend (s : List UInt8) (n : ℕ) : n ≤ extend s n := by
  induction s generalizing n with
  | nil => exact le_rfl
  | cons c s ih =>
    have h := ih (n * 10 + digit c)
    rw [extend]
    omega

/-- The digits write the number. -/
structure IsNumeral (s : List UInt8) (n : ℕ) : Prop where
  ne_nil : s ≠ []
  digits : ∀ c ∈ s, isDigit c = true
  value : extend s 0 = n

namespace IsNumeral

variable {s : List UInt8} {n m : ℕ}

theorem unique (h : IsNumeral s n) (h' : IsNumeral s m) : n = m := h.value.symm.trans h'.value

theorem notMem (h : IsNumeral s n) {c : UInt8} (hc : isDigit c = false) : c ∉ s := fun hmem => by
  rw [h.digits c hmem] at hc
  cases hc

end IsNumeral

end Gzv2ray.Decimal
